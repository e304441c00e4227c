import ClauseLisp.Proofs.Equality.InFull
import ClauseLisp.Proofs.Lazy.Emptiness
import ClauseLisp.Proofs.MemoKey.Forcing

/-!
# Forcing parts of values

What a comparison does to a state is that it forces parts of the values that are
compared: which ones, and in which order, hangs on what it finds.  `Forcings` are the
states that forcing parts leads to, in any order, and `Determined` says of values that
they can be worked out from all of these: the iterators answer, and the lists end at
every level.  It does not say that calls have no other effects; if they have none, one
order is as good as another, and what is said of all orders need only be known of one.

## Main results

* `Determined.of_wellMade` — values that the language makes, if iterators answer and lists end.
* `Determined.exists_opened` — a list has a head and a tail, or it is empty.
* `Determined.exists_inFull` — all values come to be known in full.
-/

namespace ClauseLisp

open Run

/-- **The states that forcing parts of some values leads to**, in any order. -/
inductive Forcings (call : Caller) (values : List Value) (s : State) : State → Prop
  | refl : Forcings call values s s
  | force {t t' : State} {node : Nat} {forced : LazyOutcome} (h : Forcings call values s t)
      (hPart : (Value.lazy node).PartOf t.nodes values)
      (hForce : force call node t = (.ok forced, t')) : Forcings call values s t'

/-- The lists in a value end at every level, in whichever order they are forced. -/
inductive Value.Ends (call : Caller) (values : List Value) : State → Value → Prop
  | atom {s : State} {v : Value} (h : v.isAtom = true) : Ends call values s v
  | tagged {s : State} {tag : String} {v : Value} (h : Ends call values s v) :
      Ends call values s (.tagged tag v)
  | nil {s : State} : Ends call values s .nil
  | cell {s : State} {head tail : Value} {elem : ElemType} (hHead : Ends call values s head)
      (hTail : Ends call values s tail) (hList : tail.isList = true) :
      Ends call values s (.cell head tail elem)
  | lazy {s : State} {node : Nat}
      (hHead : ∀ {t t' head next}, Forcings call values s t →
        force call node t = (.ok (.item head next), t') → Ends call values t' head)
      (hNext : ∀ {t t' head next}, Forcings call values s t →
        force call node t = (.ok (.item head next), t') → Ends call values t' next)
      (hList : ∀ {t t' head next}, Forcings call values s t →
        force call node t = (.ok (.item head next), t') → next.isList = true) :
      Ends call values s (.lazy node)

/-- **Values that can be worked out** in whatever order their parts are forced. -/
structure Determined (call : Caller) (values : List Value) (s : State) : Prop where
  /-- Functions are called by a machine. -/
  machine : ∃ fuel level, call = .ofMachine fuel level
  placed : s.Placed
  /-- No part carries a tag under a tag. -/
  bare : ∀ {t : State} {part : Value}, Forcings call values s t → part.PartOf t.nodes values →
    part.untagged.untagged = part.untagged
  /-- The nodes that are parts are there, and their iterators do not fail. -/
  answers : ∀ {t : State} {node : Nat}, Forcings call values s t →
    (Value.lazy node).PartOf t.nodes values → ∃ n, t.nodes[node]? = some n ∧
      (n.outcome = none → ∀ t' stop, ¬ n.Refused call t t' stop)
  /-- All lists end. -/
  ends : ∀ v ∈ values, v.Ends call values s

variable {call : Caller} {values : List Value} {s t t' u : State} {v : Value}

theorem Forcings.trans (h : Forcings call values s t) (h' : Forcings call values t u) :
    Forcings call values s u := by
  induction h' with
  | refl => exact h
  | force _ hPart hForce ih => exact ih.force hPart hForce

theorem Value.Ends.untagged (h : v.Ends call values s) : v.untagged.Ends call values s := by
  cases h with
  | tagged h => exact h
  | @atom _ _ hAtom =>
      cases v with
      | tagged tag value => cases hAtom
      | _ => exact .atom hAtom
  | nil => exact .nil
  | cell hHead hTail hList => exact .cell hHead hTail hList
  | lazy hHead hNext hList => exact .lazy hHead hNext hList

/-- Lists that end do so from wherever forcing leads. -/
theorem Value.Ends.after (h : v.Ends call values s) (ht : Forcings call values s t) :
    v.Ends call values t := by
  induction h with
  | atom hAtom => exact .atom hAtom
  | tagged _ ih => exact .tagged (ih ht)
  | nil => exact .nil
  | cell _ _ hList ihHead ihTail => exact .cell (ihHead ht) (ihTail ht) hList
  | lazy hHead hNext hList =>
      exact .lazy (fun hu hForce => hHead (ht.trans hu) hForce)
        (fun hu hForce => hNext (ht.trans hu) hForce)
        (fun hu hForce => hList (ht.trans hu) hForce)

/-! ## Asking for the head and the tail -/

/-- A list is asked for its head and its tail, and they are known then. -/
structure Value.Opened (call : Caller) (values : List Value) (t : State) (v : Value)
    (parts : Option (Value × Value)) (t' : State) : Prop where
  uncons : ∀ context, ClauseLisp.uncons call context v t = (.ok parts, t')
  forcings : Forcings call values t t'
  opens : v.OpensTo t'.nodes parts

/-- Forcing parts leads to a later state. -/
theorem Forcings.kept (hCall : call.Keeps fun _ => State.Later) (hPlaced : s.Placed)
    (h : Forcings call values s t) : Kept (fun _ => State.Later) .nothing s t := by
  induction h with
  | refl => exact .refl later_frame _ hPlaced
  | @force t t' node forced _ _ hForce ih =>
      have hStep := force_keeps later_frame hCall node t ih.placed
        (Access.fitsIn_nothing t)
      rw [hForce] at hStep
      exact ih.trans later_frame hStep

/-- Forcing parts keeps the hereditary properties of all values. -/
theorem Forcings.carries {r : Ty.Registry} {P : Value → Prop} (hP : Value.Hereditary r P)
    (hCall : call.Yields r P) (hs : s.Carries r P) (h : Forcings call values s t) :
    t.Carries r P := by
  induction h with
  | refl => exact hs
  | @force t t' node forced _ _ hForce ih =>
      have hStep := (force_yields hP hCall node t ih).1
      rw [hForce] at hStep
      exact hStep

/-- No part of values that the language makes carries two tags. -/
theorem Forcings.bare_of_wellMade {fuel level : Nat} (hSound : s.Sound Value.WellMade)
    (hMade : ∀ v ∈ values, v.WellMade s.program.types)
    (h : Forcings (.ofMachine fuel level) values s t) {part : Value}
    (hPart : part.PartOf t.nodes values) : part.untagged.untagged = part.untagged := by
  have hHereditary := Value.wellMade_lasting.hereditary hSound.reached
  have hCall : (Caller.ofMachine fuel level).Yields s.program.types
      (Value.WellMade s.program.types) := fun function arguments =>
    exec_yields hHereditary fuel level (.call function arguments)
  have hAfter := h.carries hHereditary hCall hSound.carries
  exact (hPart.has hHereditary hAfter hMade).bare

namespace Determined

/-- **Values that the language makes can be worked out**, as long as the iterators answer and
the lists end. -/
theorem of_wellMade {fuel level : Nat} (hPlaced : s.Placed) (hSound : s.Sound Value.WellMade)
    (hMade : ∀ v ∈ values, v.WellMade s.program.types)
    (hAnswers : ∀ {t : State} {node : Nat}, Forcings (.ofMachine fuel level) values s t →
      (Value.lazy node).PartOf t.nodes values → ∃ n, t.nodes[node]? = some n ∧
        (n.outcome = none → ∀ t' stop, ¬ n.Refused (.ofMachine fuel level) t t' stop))
    (hEnds : ∀ v ∈ values, v.Ends (.ofMachine fuel level) values s) :
    Determined (.ofMachine fuel level) values s where
  machine := ⟨fuel, level, rfl⟩
  placed := hPlaced
  bare := fun ht hPart => ht.bare_of_wellMade hSound hMade hPart
  answers := hAnswers
  ends := hEnds

variable (h : Determined call values s)

include h

theorem keeps : call.Keeps fun _ => State.Later := by
  obtain ⟨fuel, level, rfl⟩ := h.machine
  exact Caller.later_ofMachine fuel level

variable (ht : Forcings call values s t)

include ht

theorem placed_after : t.Placed := (ht.kept h.keeps h.placed).placed

theorem nodes_kept (hu : Forcings call values t u) : t.nodes.Kept u.nodes :=
  (hu.kept h.keeps (h.placed_after ht)).related.nodes

theorem onceTagged (hPart : v.PartOf t.nodes values) : v.OnceTagged :=
  hPart.onceTagged fun _ => h.bare ht

/-- Nodes that are parts can be forced, and have outcomes then. -/
theorem exists_force {node : Nat} (hPart : (Value.lazy node).PartOf t.nodes values) :
    ∃ forced t', force call node t = (.ok forced, t') ∧ Forcings call values t t' ∧
      t'.nodes.outcome? node = some forced := by
  obtain ⟨n, hNode, hAnswers⟩ := h.answers ht hPart
  obtain ⟨fuel, level, rfl⟩ := h.machine
  rcases hForce : force (.ofMachine fuel level) node t with ⟨stop | forced, t'⟩
  · obtain ⟨n', hNode', hFresh, hRefused⟩ := force_stops hForce
    rw [hNode, Option.some.injEq] at hNode'
    subst hNode'
    exact absurd hRefused (hAnswers hFresh t' stop)
  · have hThere : node < t.nodes.size := (Array.getElem?_eq_some_iff.mp hNode).1
    exact ⟨forced, t', rfl, .force .refl hPart hForce,
      outcome?_of_force (h.placed_after ht) hThere hForce⟩

/-- **A list has a head and a tail, or it is empty.** -/
theorem exists_opened (hEnds : v.Ends call values t)
    (hPart : v.PartOf t.nodes values) (hList : v.isList = true) :
    ∃ parts t', v.Opened call values t parts t' ∧
      ∀ head tail, parts = some (head, tail) → head.Ends call values t' ∧
        tail.Ends call values t' ∧ tail.isList = true := by
  have hUnder := hEnds.untagged
  have hPartUnder := hPart.untagged
  cases hShape : v.untagged with
  | nil => exact ⟨none, t, ⟨fun _ => uncons_nil hShape t, .refl, .nil hShape⟩, nofun⟩
  | cell head tail elem =>
      refine ⟨some (head, tail), t, ⟨fun _ => uncons_cell hShape t, .refl, .cell hShape⟩, ?_⟩
      rintro _ _ ⟨rfl, rfl⟩
      rw [hShape] at hUnder
      cases hUnder with
      | atom hAtom => cases hAtom
      | cell hHead hTail hTailList => exact ⟨hHead, hTail, hTailList⟩
  | lazy node =>
      rw [hShape] at hUnder hPartUnder
      obtain ⟨forced, t', hForce, hForcings, hOutcome⟩ := h.exists_force ht hPartUnder
      cases forced with
      | ended =>
          exact ⟨none, t', ⟨fun _ => uncons_ended hShape hForce, hForcings,
            .ended hShape hOutcome⟩, nofun⟩
      | item head next =>
          refine ⟨some (head, next), t', ⟨fun _ => uncons_item hShape hForce, hForcings,
            .item hShape hOutcome⟩, ?_⟩
          rintro _ _ ⟨rfl, rfl⟩
          cases hUnder with
          | atom hAtom => cases hAtom
          | lazy hHead hNext hNextList =>
              exact ⟨hHead .refl hForce, hNext .refl hForce, hNextList .refl hForce⟩
  | _ =>
    rw [Value.isList, hShape] at hList
    cases hList

/-- Each part comes to be known in full. -/
theorem exists_inFull_of_ends {s₁ : State} (hEnds : v.Ends call values s₁)
    (hs₁ : Forcings call values s₁ t) (hPart : v.PartOf t.nodes values) :
    ∃ u full, Forcings call values t u ∧ v.InFull u.nodes full := by
  induction hEnds generalizing t with
  | atom hAtom => exact ⟨t, _, .refl, .atom hAtom⟩
  | tagged _ ih =>
      obtain ⟨u, full, hu, hFull⟩ := ih ht hs₁ hPart.under
      exact ⟨u, _, hu, .tagged _ hFull⟩
  | nil => exact ⟨t, _, .refl, .nil⟩
  | @cell _ head tail elem _ _ _ ihHead ihTail =>
      obtain ⟨u, head', hu, hHead⟩ := ihHead ht hs₁ hPart.head
      have hKept := h.nodes_kept ht hu
      obtain ⟨u', tail', hu', hTail⟩ :=
        ihTail (ht.trans hu) (hs₁.trans hu) (hPart.mono hKept).tail
      have hKept' := h.nodes_kept (ht.trans hu) hu'
      exact ⟨u', _, hu.trans hu', .cell elem elem (hHead.mono hKept') hTail⟩
  | @lazy _ node _ _ _ ihHead ihNext =>
      obtain ⟨forced, t', hForce, htt', hOutcome⟩ := h.exists_force ht hPart
      cases forced with
      | ended => exact ⟨t', _, htt', .ended hOutcome⟩
      | item head next =>
          have ht' := ht.trans htt'
          have hPart' := hPart.mono (h.nodes_kept ht htt')
          obtain ⟨u, head', hu, hHead⟩ := ihHead hs₁ hForce ht' .refl (hPart'.item hOutcome)
          have hKept := h.nodes_kept ht' hu
          obtain ⟨u', next', hu', hNext⟩ := ihNext hs₁ hForce (ht'.trans hu) hu
            ((hPart'.next hOutcome).mono hKept)
          have hKept' := h.nodes_kept (ht'.trans hu) hu'
          have hStands := hKept'.outcome? (hKept.outcome? hOutcome)
          exact ⟨u', _, (htt'.trans hu).trans hu',
            .item (.pending none) hStands (hHead.mono hKept') hNext⟩

/-- **All values come to be known in full**, from wherever forcing has led. -/
theorem exists_inFull : ∃ u fulls, Forcings call values t u ∧
    List.Forall₂ (Value.InFull u.nodes) values fulls := by
  have hSome : ∀ vs : List Value, (∀ v ∈ vs, v ∈ values) →
      ∃ u fulls, Forcings call values t u ∧
        List.Forall₂ (Value.InFull u.nodes) vs fulls := by
    intro vs
    induction vs with
    | nil => exact fun _ => ⟨t, [], .refl, .nil⟩
    | cons v vs ih =>
        intro hMem
        obtain ⟨hFirst, hRest⟩ := List.forall_mem_cons.mp hMem
        obtain ⟨u, fulls, hu, hFulls⟩ := ih hRest
        obtain ⟨u', full, hu', hFull⟩ := h.exists_inFull_of_ends (ht.trans hu)
          (h.ends v hFirst) (ht.trans hu) (.self hFirst)
        have hKept := h.nodes_kept (ht.trans hu) hu'
        exact ⟨u', full :: fulls, hu.trans hu', .cons hFull
          (hFulls.imp fun _ _ hKnown => hKnown.mono hKept)⟩
  exact hSome values fun _ hv => hv

end Determined

end ClauseLisp
