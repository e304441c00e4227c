import ClauseLisp.Proofs.Equality.Contents
import ClauseLisp.Proofs.Values.Canonical
import ClauseLisp.Proofs.Lazy.WriteOnce

/-!
# Values in full

A value with lazy lists in it stands for a strict one, in which every lazy list at
every level is the list of its elements.  It is known as soon as the nodes have been
settled, and since nodes are settled once it does not change any more:
`Value.InFull nodes v full` reads it off a table of nodes.

What has to be settled for that are nodes that are parts of the value, and settling one
brings new parts to light (`Value.PartOf`).

## Main results

* `Value.InFull.mono` — what is known in full stays so.
* `Value.InFull.contents_unique` — a value is one value in full, up to tags and types.
* `Value.PartOf.has` — parts have the hereditary properties of what they are parts of.
* `Value.WellMade.onceTagged` — values that the language makes carry no two tags.
-/

namespace ClauseLisp

open Ty (Registry)

namespace Value

/-! ## Lists without lazy parts -/

/-- **A value in full**: every lazy list at every level is replaced by the strict list of
its elements.  What cells know of their types is left open. -/
inductive InFull (nodes : LazyNodes) : Value → Value → Prop
  | atom {v : Value} (h : v.isAtom = true) : InFull nodes v v
  | tagged (tag : String) {v full : Value} (h : InFull nodes v full) :
      InFull nodes (.tagged tag v) (.tagged tag full)
  | nil : InFull nodes .nil .nil
  | cell (elem elem' : ElemType) {head head' tail tail' : Value} (hHead : InFull nodes head head')
      (hTail : InFull nodes tail tail') :
      InFull nodes (.cell head tail elem) (.cell head' tail' elem')
  | ended {node : Nat} (h : nodes.outcome? node = some .ended) : InFull nodes (.lazy node) .nil
  | item (elem : ElemType) {node : Nat} {head head' next next' : Value}
      (h : nodes.outcome? node = some (.item head next)) (hHead : InFull nodes head head')
      (hNext : InFull nodes next next') : InFull nodes (.lazy node) (.cell head' next' elem)

variable {nodes nodes' : LazyNodes} {v full : Value}

/-- What is known in full stays so. -/
theorem InFull.mono (h : v.InFull nodes full) (hKept : nodes.Kept nodes') :
    v.InFull nodes' full := by
  induction h with
  | atom h => exact .atom h
  | tagged tag _ ih => exact .tagged tag ih
  | nil => exact .nil
  | cell elem elem' _ _ ihHead ihTail => exact .cell elem elem' ihHead ihTail
  | ended h => exact .ended (hKept.outcome? h)
  | item elem h _ _ ihHead ihNext => exact .item elem (hKept.outcome? h) ihHead ihNext

/-! ## Heads and tails -/

/-- What is known of the head and the tail of a list. -/
inductive OpensTo (nodes : LazyNodes) : Value → Option (Value × Value) → Prop
  | nil {v : Value} (h : v.untagged = .nil) : OpensTo nodes v none
  | cell {v head tail : Value} {elem : ElemType} (h : v.untagged = .cell head tail elem) :
      OpensTo nodes v (some (head, tail))
  | ended {v : Value} {node : Nat} (h : v.untagged = .lazy node)
      (hOutcome : nodes.outcome? node = some .ended) : OpensTo nodes v none
  | item {v head next : Value} {node : Nat} (h : v.untagged = .lazy node)
      (hOutcome : nodes.outcome? node = some (.item head next)) :
      OpensTo nodes v (some (head, next))

theorem OpensTo.mono {parts : Option (Value × Value)} (h : v.OpensTo nodes parts)
    (hKept : nodes.Kept nodes') : v.OpensTo nodes' parts := by
  cases h with
  | nil h => exact .nil h
  | cell h => exact .cell h
  | ended h hOutcome => exact .ended h (hKept.outcome? hOutcome)
  | item h hOutcome => exact .item h (hKept.outcome? hOutcome)

/-- Under its tag a value is in full what it is with it. -/
theorem InFull.untagged (h : v.InFull nodes full) :
    ∃ under, v.untagged.InFull nodes under ∧ under.contents = full.contents := by
  cases h with
  | tagged tag h => exact ⟨_, h, rfl⟩
  | @atom _ hAtom =>
      cases v with
      | tagged tag value => cases hAtom
      | _ => exact ⟨_, .atom hAtom, rfl⟩
  | nil => exact ⟨_, .nil, rfl⟩
  | cell elem elem' hHead hTail => exact ⟨_, .cell elem elem' hHead hTail, rfl⟩
  | ended h => exact ⟨_, .ended h, rfl⟩
  | item elem h hHead hNext => exact ⟨_, .item elem h hHead hNext, rfl⟩

/-- A list that ends here is the empty list in full. -/
theorem InFull.contents_of_ended (h : v.InFull nodes full) (hOpens : v.OpensTo nodes none) :
    full.contents = .nil := by
  obtain ⟨under, hUnder, hContents⟩ := h.untagged
  rw [← hContents]
  cases hOpens with
  | nil hShape =>
      rw [hShape] at hUnder
      cases hUnder with
      | atom hAtom => cases hAtom
      | nil => rfl
  | ended hShape hOutcome =>
      rw [hShape] at hUnder
      cases hUnder with
      | atom hAtom => cases hAtom
      | ended => rfl
      | item elem hItem =>
          rw [hOutcome] at hItem
          cases hItem

/-- A list that goes on is a cell in full, with its head and its tail in full. -/
theorem InFull.contents_of_item {head tail : Value} (h : v.InFull nodes full)
    (hOpens : v.OpensTo nodes (some (head, tail))) :
    ∃ head' tail', head.InFull nodes head' ∧ tail.InFull nodes tail' ∧
      full.contents = .cell head'.contents tail'.contents (.pending none) := by
  obtain ⟨under, hUnder, hContents⟩ := h.untagged
  rw [← hContents]
  cases hOpens with
  | cell hShape =>
      rw [hShape] at hUnder
      cases hUnder with
      | atom hAtom => cases hAtom
      | cell _ _ hHead hTail => exact ⟨_, _, hHead, hTail, rfl⟩
  | item hShape hOutcome =>
      rw [hShape] at hUnder
      cases hUnder with
      | atom hAtom => cases hAtom
      | ended hEnd =>
          rw [hOutcome] at hEnd
          cases hEnd
      | item elem hItem hHead hNext =>
          rw [hOutcome] at hItem
          cases hItem
          exact ⟨_, _, hHead, hNext, rfl⟩

/-- Two lists that go on have the same contents in full exactly if their heads and their
tails have. -/
theorem InFull.contents_eq_iff_of_items {w full' head tail head' tail' : Value}
    (h : v.InFull nodes full) (h' : w.InFull nodes full')
    (hOpens : v.OpensTo nodes (some (head, tail)))
    (hOpens' : w.OpensTo nodes (some (head', tail'))) :
    ∃ hd tl hd' tl', head.InFull nodes hd ∧ tail.InFull nodes tl ∧ head'.InFull nodes hd' ∧
      tail'.InFull nodes tl' ∧ (full.contents = full'.contents ↔
        hd.contents = hd'.contents ∧ tl.contents = tl'.contents) := by
  obtain ⟨hd, tl, hHead, hTail, hFull⟩ := h.contents_of_item hOpens
  obtain ⟨hd', tl', hHead', hTail', hFull'⟩ := h'.contents_of_item hOpens'
  refine ⟨hd, tl, hd', tl', hHead, hTail, hHead', hTail', ?_⟩
  rw [hFull, hFull', cell.injEq]
  simp only [and_true]

/-- What is no list has its own contents in full. -/
theorem InFull.contents_of_not_list (h : v.InFull nodes full) (hOnce : v.OnceTagged)
    (hList : v.isList = false) : full.contents = v.contents := by
  induction h with
  | atom => rfl
  | tagged tag _ ih =>
      rw [hOnce.isList_tagged] at hList
      exact ih hOnce.2 hList
  | _ => cases hList

/-- What is a list is one in full, and nothing else is. -/
theorem InFull.isList_contents (h : v.InFull nodes full) (hOnce : v.OnceTagged) :
    full.contents.isList = v.isList := by
  cases hList : v.isList with
  | false => rw [h.contents_of_not_list hOnce hList, hOnce.isList_contents, hList]
  | true =>
      induction h with
      | atom => rw [hOnce.isList_contents, hList]
      | tagged tag _ ih =>
          rw [hOnce.isList_tagged] at hList
          exact ih hOnce.2 hList
      | _ => rfl

/-- Unless both are lists, values have the same contents exactly if they have in full. -/
theorem InFull.contents_eq_iff {w full' : Value} (h : v.InFull nodes full)
    (h' : w.InFull nodes full') (hv : v.OnceTagged) (hw : w.OnceTagged)
    (hLists : (v.isList && w.isList) = false) :
    v.contents = w.contents ↔ full.contents = full'.contents := by
  by_cases hSame : v.isList = w.isList
  · rw [← hSame, Bool.and_self] at hLists
    rw [h.contents_of_not_list hv hLists, h'.contents_of_not_list hw (hSame ▸ hLists)]
  · -- A list and no list are different in both ways.
    have hNe : ∀ {x y : Value}, x.isList = v.isList → y.isList = w.isList → x ≠ y := by
      rintro x y hx hy rfl
      exact hSame (hx.symm.trans hy)
    exact iff_of_false (hNe hv.isList_contents hw.isList_contents)
      (hNe (h.isList_contents hv) (h'.isList_contents hw))

/-- **A value is one value in full**, up to tags and what cells know of their types. -/
theorem InFull.contents_unique {full' : Value} (h : v.InFull nodes full)
    (h' : v.InFull nodes full') : full.contents = full'.contents := by
  induction h generalizing full' with
  | @atom v hAtom =>
      cases h' with
      | atom => rfl
      | _ => cases hAtom
  | tagged tag _ ih =>
      cases h' with
      | atom hAtom => cases hAtom
      | tagged _ hInner =>
          have hSame := ih hInner
          exact hSame
  | nil =>
      cases h' with
      | _ => rfl
  | cell elem elem' _ _ ihHead ihTail =>
      cases h' with
      | atom hAtom => cases hAtom
      | cell _ _ hHead hTail => rw [contents_cell, contents_cell, ihHead hHead, ihTail hTail]
  | ended h =>
      cases h' with
      | atom hAtom => cases hAtom
      | ended => rfl
      | item elem hItem =>
          rw [h] at hItem
          cases hItem
  | item elem h _ _ ihHead ihNext =>
      cases h' with
      | atom hAtom => cases hAtom
      | ended hEnd =>
          rw [h] at hEnd
          cases hEnd
      | item _ hItem hHead hNext =>
          rw [h] at hItem
          cases hItem
          rw [contents_cell, contents_cell, ihHead hHead, ihNext hNext]

theorem InFull.contents_unique_all {vs fulls fulls' : List Value}
    (h : List.Forall₂ (InFull nodes) vs fulls) (h' : List.Forall₂ (InFull nodes) vs fulls') :
    fulls.map contents = fulls'.map contents := by
  induction h generalizing fulls' with
  | nil =>
      cases h'
      rfl
  | cons hFull _ ih =>
      obtain ⟨full', others, hFull', hOthers, rfl⟩ := List.forall₂_cons_left_iff.mp h'
      rw [List.map_cons, List.map_cons, hFull.contents_unique hFull', ih hOthers]

/-! ## Parts -/

/-- The parts of some values: under tags, in cells, and what is known of lazy lists. -/
inductive PartOf (nodes : LazyNodes) (values : List Value) : Value → Prop
  | self {v : Value} (h : v ∈ values) : PartOf nodes values v
  | under {tag : String} {v : Value} (h : PartOf nodes values (.tagged tag v)) :
      PartOf nodes values v
  | head {head tail : Value} {elem : ElemType} (h : PartOf nodes values (.cell head tail elem)) :
      PartOf nodes values head
  | tail {head tail : Value} {elem : ElemType} (h : PartOf nodes values (.cell head tail elem)) :
      PartOf nodes values tail
  | item {node : Nat} {head next : Value} (h : PartOf nodes values (.lazy node))
      (hOutcome : nodes.outcome? node = some (.item head next)) : PartOf nodes values head
  | next {node : Nat} {head next : Value} (h : PartOf nodes values (.lazy node))
      (hOutcome : nodes.outcome? node = some (.item head next)) : PartOf nodes values next

namespace PartOf

variable {values : List Value}

theorem mono (h : v.PartOf nodes values) (hKept : nodes.Kept nodes') :
    v.PartOf nodes' values := by
  induction h with
  | self h => exact .self h
  | under _ ih => exact .under ih
  | head _ ih => exact .head ih
  | tail _ ih => exact .tail ih
  | item _ hOutcome ih => exact .item ih (hKept.outcome? hOutcome)
  | next _ hOutcome ih => exact .next ih (hKept.outcome? hOutcome)

theorem untagged (h : v.PartOf nodes values) : v.untagged.PartOf nodes values := by
  cases v with
  | tagged tag value => exact .under h
  | _ => exact h

/-- The head and the tail of a part are parts. -/
theorem opened {head tail : Value} (h : v.PartOf nodes values)
    (hOpens : v.OpensTo nodes (some (head, tail))) :
    head.PartOf nodes values ∧ tail.PartOf nodes values := by
  have hUnder := h.untagged
  cases hOpens with
  | cell hShape =>
      rw [hShape] at hUnder
      exact ⟨.head hUnder, .tail hUnder⟩
  | item hShape hOutcome =>
      rw [hShape] at hUnder
      exact ⟨.item hUnder hOutcome, .next hUnder hOutcome⟩

/-- **Parts have the hereditary properties** of what they are parts of, if all that the
machine keeps has them. -/
theorem has {r : Registry} {P : Value → Prop} (hP : Value.Hereditary r P) {s : State}
    (hs : s.Carries r P) (hValues : AllHave P values) (h : v.PartOf s.nodes values) : P v := by
  induction h with
  | self h => exact hValues _ h
  | under _ ih => exact hP.untagged ih
  | head _ ih => exact hP.head ih
  | tail _ ih => exact hP.tail ih
  | item _ hOutcome => exact (hs.outcome hOutcome).1
  | next _ hOutcome => exact (hs.outcome hOutcome).2

/-- The strict part of a value carries no two tags if no part does. -/
theorem onceTagged (hBare : ∀ part : Value, part.PartOf nodes values →
      part.untagged.untagged = part.untagged) (h : v.PartOf nodes values) : v.OnceTagged := by
  induction v with
  | tagged tag value ih => exact ⟨hBare _ h, ih h.under⟩
  | cell head tail elem ihHead ihTail => exact ⟨ihHead h.head, ihTail h.tail⟩
  | _ => trivial

end PartOf

/-- Values that the language makes carry no two tags. -/
theorem WellMade.onceTagged {r : Registry} (h : v.WellMade r) : v.OnceTagged := by
  induction h with
  | cell _ _ _ _ _ ihHead ihTail => exact ⟨ihHead, ihTail⟩
  | tagged _ hBare _ _ ih => exact ⟨hBare, ih⟩
  | _ => trivial

/-- What carries no tag carries none in full. -/
theorem InFull.untagged_eq (h : v.InFull nodes full) (hBare : v.untagged = v) :
    full.untagged = full := by
  cases h with
  | tagged tag _ => exact absurd rfl (ne_tagged_of_untagged_eq hBare tag _)
  | atom => exact hBare
  | _ => rfl

/-- In full, a value carries no two tags if no part of it does. -/
theorem InFull.onceTagged {values : List Value} (hBare : ∀ part : Value,
      part.PartOf nodes values → part.untagged.untagged = part.untagged)
    (hPart : v.PartOf nodes values) (h : v.InFull nodes full) : full.OnceTagged := by
  induction h with
  | atom => exact hPart.onceTagged hBare
  | tagged tag h ih => exact ⟨h.untagged_eq (hBare _ hPart), ih hPart.under⟩
  | cell _ _ _ _ ihHead ihTail => exact ⟨ihHead hPart.head, ihTail hPart.tail⟩
  | item _ hOutcome _ _ ihHead ihNext =>
      exact ⟨ihHead (hPart.item hOutcome), ihNext (hPart.next hOutcome)⟩
  | _ => trivial

end Value

end ClauseLisp
