import ClauseLisp.Proofs.Equality.Forcings

/-!
# Equality

`=` compares values without working them out: it asks both for a head and a tail,
compares the heads, goes on with the tails, and stops as soon as it knows.  For
values that can be worked out (`Determined`) it comes to an answer, and the answer says
whether the values are the same in full, whatever has been forced since.

The induction is on how the lists of the left value end.  One step is the same for all
lists, strict or lazy: `Determined.step` takes what the left list has been opened to and
what is known of the comparison of its parts.

## Main results

* `Determined.valuesCompare` — two values.
* `Determined.allCompare` — the values of a call.
* `equality_decides_contents` — `=` decides equality of contents.
-/

namespace ClauseLisp

open Run

/-! ## Comparisons -/

/-- **A comparison that has been decided**: with enough fuel it gives an answer, it forces
nothing but parts, and the answer says whether the values have the same contents in
full. -/
structure Comparison (call : Caller) (values : List Value) (l r : Value) (t : State)
    (compare : Nat → Nat → Run Bool) (b : Bool) (t' : State) : Prop where
  answer : ∃ enough, ∀ n m, enough ≤ n → enough ≤ m → compare n m t = (.ok b, t')
  forcings : Forcings call values t t'
  verdict : ∀ {nodes : LazyNodes} {l' r' : Value}, t'.nodes.Kept nodes → l.InFull nodes l' →
    r.InFull nodes r' → (b = true ↔ l'.contents = r'.contents)

/-- Two values are compared. -/
abbrev ValuesCompare (call : Caller) (values : List Value) (l r : Value) (t : State) : Prop :=
  ∃ b t', Comparison call values l r t (fun n _ => equalForced call n l r) b t'

/-- Two lists are compared, element by element. -/
abbrev ListsCompare (call : Caller) (values : List Value) (l r : Value) (t : State) : Prop :=
  ∃ b t', Comparison call values l r t (fun n m => listsEqual call (equalForced call n) m l r) b t'

variable {call : Caller} {values : List Value} {l r : Value} {s t : State}

/-- Lists are compared as such, and anything else by its contents. -/
theorem valuesCompare_of_lists (hl : l.OnceTagged) (hr : r.OnceTagged)
    (h : l.isList = true → r.isList = true → ListsCompare call values l r t) :
    ValuesCompare call values l r t := by
  cases hLists : l.isList && r.isList with
  | true =>
      obtain ⟨hLeft, hRight⟩ := Bool.and_eq_true_iff.mp hLists
      obtain ⟨b, t', ⟨enough, hAnswer⟩, hForcings, hVerdict⟩ := h hLeft hRight
      refine ⟨b, t', ⟨enough + 1, fun n _ hn _ => ?_⟩, hForcings, hVerdict⟩
      obtain ⟨n, rfl⟩ : ∃ k, n = k + 1 := ⟨n - 1, by omega⟩
      rw [equalForced, hLists]
      exact hAnswer n n (by omega) (by omega)
  | false =>
      refine ⟨l.same r, t, ⟨1, fun n _ hn _ => ?_⟩, .refl, fun _ hFull hFull' => ?_⟩
      · obtain ⟨n, rfl⟩ : ∃ k, n = k + 1 := ⟨n - 1, by omega⟩
        rw [equalForced, hLists]
        rfl
      · rw [Value.same_iff hl hr]
        exact hFull.contents_eq_iff hFull' hl hr hLists

/-! ## One step -/

/-- Two lists have been opened, the left one first. -/
structure OpenedBoth (call : Caller) (values : List Value) (l r : Value) (t : State)
    (lparts rparts : Option (Value × Value)) (t' : State) : Prop where
  answer : ∀ (equal : Value → Value → Run Bool) (m : Nat),
    listsEqual call equal (m + 1) l r t =
      (match lparts, rparts with
        | none, none => pure true
        | some (lhead, ltail), some (rhead, rtail) =>
          equal lhead rhead >>= fun same =>
            if same then listsEqual call equal m ltail rtail else pure false
        | _, _ => pure false : Run Bool) t'
  forcings : Forcings call values t t'
  left : l.OpensTo t'.nodes lparts
  right : r.OpensTo t'.nodes rparts

/-- If one of two lists is empty, they are equal exactly if both are. -/
theorem OpenedBoth.compare_of_end {lparts rparts : Option (Value × Value)} {t' : State}
    (h : OpenedBoth call values l r t lparts rparts t') (hEnd : lparts = none ∨ rparts = none) :
    ListsCompare call values l r t := by
  have hKnown : ∀ b : Bool,
      (∀ equal m, listsEqual call equal (m + 1) l r t = (.ok b, t')) →
      (∀ {nodes l' r'}, t'.nodes.Kept nodes → l.InFull nodes l' → r.InFull nodes r' →
        (b = true ↔ l'.contents = r'.contents)) →
      ListsCompare call values l r t := by
    intro b hb hVerdict
    refine ⟨b, t', ⟨1, fun n m _ hm => ?_⟩, h.forcings, hVerdict⟩
    obtain ⟨m, rfl⟩ : ∃ k, m = k + 1 := ⟨m - 1, by omega⟩
    exact hb _ m
  rcases lparts with _ | ⟨lhead, ltail⟩ <;> rcases rparts with _ | ⟨rhead, rtail⟩
  · refine hKnown true h.answer fun hNodes hl' hr' => ?_
    rw [hl'.contents_of_ended (h.left.mono hNodes), hr'.contents_of_ended (h.right.mono hNodes)]
    exact iff_of_true rfl rfl
  · refine hKnown false h.answer fun hNodes hl' hr' => ?_
    obtain ⟨_, _, -, -, hCell⟩ := hr'.contents_of_item (h.right.mono hNodes)
    rw [hl'.contents_of_ended (h.left.mono hNodes), hCell]
    exact iff_of_false nofun nofun
  · refine hKnown false h.answer fun hNodes hl' hr' => ?_
    obtain ⟨_, _, -, -, hCell⟩ := hl'.contents_of_item (h.left.mono hNodes)
    rw [hr'.contents_of_ended (h.right.mono hNodes), hCell]
    exact iff_of_false nofun nofun
  · rcases hEnd with hEnd | hEnd <;> cases hEnd

/-- A list can be compared with all lists, from wherever a state leads. -/
def Value.Compares (call : Caller) (values : List Value) (s t₀ : State) (l : Value) : Prop :=
  ∀ {t : State} {r : Value}, Forcings call values t₀ t → Forcings call values s t →
    l.PartOf t.nodes values → r.PartOf t.nodes values → r.Ends call values t →
    l.isList = true → r.isList = true → ListsCompare call values l r t

theorem Value.Compares.after {t₀ : State} (h : l.Compares call values s t₀)
    (ht : Forcings call values t₀ t) : l.Compares call values s t :=
  fun hu => h (ht.trans hu)

/-- Lists are compared under their tags. -/
theorem ListsCompare.tagged {v : Value} (hBare : v.untagged = v) (tag : String)
    (h : ListsCompare call values v r t) : ListsCompare call values (.tagged tag v) r t := by
  have hUncons : uncons call "=" (.tagged tag v) = uncons call "=" v := by
    unfold uncons
    rw [hBare]
    rfl
  obtain ⟨b, t', ⟨enough, hAnswer⟩, hForcings, hVerdict⟩ := h
  refine ⟨b, t', ⟨enough, fun n m hn hm => ?_⟩, hForcings, fun hNodes hl hr => ?_⟩
  · rw [← hAnswer n m hn hm]
    cases m with
    | zero => rfl
    | succ m => rw [listsEqual, listsEqual, hUncons]
  · cases hl with
    | atom hAtom => cases hAtom
    | tagged _ hFull =>
        have hIff := hVerdict hNodes hFull hr
        exact hIff

namespace Determined

variable (h : Determined call values s) (ht : Forcings call values s t)

include h ht

/-- **Two lists that go on** are compared by their heads, and if these are equal by their
tails. -/
theorem compare_of_items {lhead ltail rhead rtail : Value} {t' : State}
    (hBoth : OpenedBoth call values l r t (some (lhead, ltail)) (some (rhead, rtail)) t')
    (hHeads : ValuesCompare call values lhead rhead t')
    (hTails : ∀ u, Forcings call values t' u → ListsCompare call values ltail rtail u) :
    ListsCompare call values l r t := by
  obtain ⟨same, u, ⟨enough, hAnswer⟩, hu, hSame⟩ := hHeads
  have hKept := h.nodes_kept (ht.trans hBoth.forcings) hu
  -- In full, the lists are the same exactly if their heads and their tails are.
  have hParts : ∀ {nodes : LazyNodes} {l' r' : Value}, u.nodes.Kept nodes → l.InFull nodes l' →
      r.InFull nodes r' → ∃ ltail' rtail', ltail.InFull nodes ltail' ∧ rtail.InFull nodes rtail' ∧
        (l'.contents = r'.contents ↔ same = true ∧ ltail'.contents = rtail'.contents) := by
    intro nodes l' r' hNodes hl hr
    obtain ⟨lhead', ltail', rhead', rtail', hLeftHead, hLeftTail, hRightHead, hRightTail, hIff⟩ :=
      hl.contents_eq_iff_of_items hr (hBoth.left.mono (hKept.trans hNodes))
        (hBoth.right.mono (hKept.trans hNodes))
    exact ⟨ltail', rtail', hLeftTail, hRightTail, by rw [hIff, hSame hNodes hLeftHead hRightHead]⟩
  have hNext : ∀ n m, enough ≤ n → listsEqual call (equalForced call n) (m + 1) l r t =
      (if same then listsEqual call (equalForced call n) m ltail rtail else pure false) u := by
    intro n m hn
    rw [hBoth.answer]
    exact bind_apply_ok (hAnswer n n hn hn)
  cases same with
  | false =>
      refine ⟨false, u, ⟨enough + 1, fun n m hn hm => ?_⟩, hBoth.forcings.trans hu,
        fun hNodes hl hr => ?_⟩
      · obtain ⟨m, rfl⟩ : ∃ k, m = k + 1 := ⟨m - 1, by omega⟩
        exact hNext n m (by omega)
      · obtain ⟨_, _, -, -, hIff⟩ := hParts hNodes hl hr
        simp only [hIff, Bool.false_eq_true, false_and]
  | true =>
      obtain ⟨b, u', ⟨enough', hTailAnswer⟩, hu', hTailSame⟩ := hTails u hu
      refine ⟨b, u', ⟨enough + enough' + 1, fun n m hn hm => ?_⟩,
        (hBoth.forcings.trans hu).trans hu', fun hNodes hl hr => ?_⟩
      · obtain ⟨m, rfl⟩ : ∃ k, m = k + 1 := ⟨m - 1, by omega⟩
        rw [hNext n m (by omega)]
        exact hTailAnswer n m (by omega) (by omega)
      · have hKept' := h.nodes_kept ((ht.trans hBoth.forcings).trans hu) hu'
        obtain ⟨_, _, hLeftTail, hRightTail, hIff⟩ := hParts (hKept'.trans hNodes) hl hr
        rw [hIff, hTailSame hNodes hLeftTail hRightTail]
        simp only [true_and]

/-- **One step of the comparison of lists**, from what the left one has been opened to. -/
theorem step {t₁ : State} {lparts : Option (Value × Value)} (hl : l.PartOf t.nodes values)
    (hr : r.PartOf t.nodes values) (hEnds : r.Ends call values t) (hList : r.isList = true)
    (hLeft : l.Opened call values t lparts t₁)
    (hParts : ∀ head tail, lparts = some (head, tail) → head.Compares call values s t₁ ∧
      tail.Compares call values s t₁ ∧ tail.isList = true) :
    ListsCompare call values l r t := by
  have ht₁ := ht.trans hLeft.forcings
  obtain ⟨rparts, t₂, hRight, hRightEnds⟩ := h.exists_opened ht₁ (hEnds.after hLeft.forcings)
    (hr.mono (h.nodes_kept ht hLeft.forcings)) hList
  have hBoth : OpenedBoth call values l r t lparts rparts t₂ := by
    refine ⟨fun equal m => ?_, hLeft.forcings.trans hRight.forcings,
      hLeft.opens.mono (h.nodes_kept ht₁ hRight.forcings), hRight.opens⟩
    rw [listsEqual]
    refine (bind_apply_ok (hLeft.uncons "=")).trans ((bind_apply_ok (hRight.uncons "=")).trans ?_)
    rcases lparts with _ | ⟨lhead, ltail⟩ <;> rcases rparts with _ | ⟨rhead, rtail⟩ <;> rfl
  have ht₂ := ht.trans hBoth.forcings
  have hKept := h.nodes_kept ht hBoth.forcings
  rcases lparts with _ | ⟨lhead, ltail⟩
  · exact hBoth.compare_of_end (.inl rfl)
  rcases rparts with _ | ⟨rhead, rtail⟩
  · exact hBoth.compare_of_end (.inr rfl)
  obtain ⟨hHeads, hTails, hLeftList⟩ := hParts lhead ltail rfl
  obtain ⟨hHeadEnds, hTailEnds, hRightList⟩ := hRightEnds rhead rtail rfl
  obtain ⟨hLeftHead, hLeftTail⟩ := (hl.mono hKept).opened hBoth.left
  obtain ⟨hRightHead, hRightTail⟩ := (hr.mono hKept).opened hBoth.right
  refine h.compare_of_items ht hBoth ?_ fun u hu => ?_
  · exact valuesCompare_of_lists (h.onceTagged ht₂ hLeftHead) (h.onceTagged ht₂ hRightHead)
      (hHeads hRight.forcings ht₂ hLeftHead hRightHead hHeadEnds)
  · have hKept' := h.nodes_kept ht₂ hu
    exact hTails (hRight.forcings.trans hu) (ht₂.trans hu) (hLeftTail.mono hKept')
      (hRightTail.mono hKept') (hTailEnds.after hu) hLeftList hRightList

omit ht in
/-- **A list that ends can be compared with all lists.** -/
theorem compares_of_ends {t₀ : State} (hEnds : l.Ends call values t₀) :
    l.Compares call values s t₀ := by
  induction hEnds with
  | @atom _ v hAtom =>
      intro t r _ _ _ _ _ hLeftList
      cases v <;> cases hAtom <;> cases hLeftList
  | @tagged _ tag v hInner ih =>
      intro t r ht₀ ht hl hr hRightEnds hLeftList hRightList
      rw [(h.onceTagged ht hl).isList_tagged] at hLeftList
      exact (ih ht₀ ht hl.under hr hRightEnds hLeftList hRightList).tagged (h.bare ht hl) tag
  | nil =>
      intro t r ht₀ ht hl hr hRightEnds _ hRightList
      exact h.step ht hl hr hRightEnds hRightList ⟨fun _ => uncons_nil rfl t, .refl, .nil rfl⟩ nofun
  | @cell _ head tail elem _ _ hTailList ihHead ihTail =>
      intro t r ht₀ ht hl hr hRightEnds _ hRightList
      refine h.step ht hl hr hRightEnds hRightList ⟨fun _ => uncons_cell rfl t, .refl, .cell rfl⟩ ?_
      rintro _ _ ⟨rfl, rfl⟩
      exact ⟨ihHead.after ht₀, ihTail.after ht₀, hTailList⟩
  | @lazy _ node hHead hNext hNextList ihHead ihNext =>
      intro t r ht₀ ht hl hr hRightEnds _ hRightList
      obtain ⟨forced, t', hForce, ht', hOutcome⟩ := h.exists_force ht hl
      cases forced with
      | ended =>
          exact h.step ht hl hr hRightEnds hRightList
            ⟨fun _ => uncons_ended rfl hForce, ht', .ended rfl hOutcome⟩ nofun
      | item head next =>
          refine h.step ht hl hr hRightEnds hRightList
            ⟨fun _ => uncons_item rfl hForce, ht', .item rfl hOutcome⟩ ?_
          rintro _ _ ⟨rfl, rfl⟩
          exact ⟨ihHead ht₀ hForce, ihNext ht₀ hForce, hNextList ht₀ hForce⟩

/-- **Two of the values can be compared**, from wherever forcing has led. -/
theorem valuesCompare (hl : l ∈ values) (hr : r ∈ values) :
    ValuesCompare call values l r t := by
  have hLeft : l.PartOf t.nodes values := .self hl
  have hRight : r.PartOf t.nodes values := .self hr
  refine valuesCompare_of_lists (h.onceTagged ht hLeft) (h.onceTagged ht hRight) ?_
  exact h.compares_of_ends (h.ends l hl) ht ht hLeft hRight ((h.ends r hr).after ht)

/-- **Several of the values can be compared** with their neighbours, and they are equal
exactly if neighbours have the same contents in full. -/
theorem allCompare {vs : List Value} (hValues : ∀ v ∈ vs, v ∈ values) :
    ∃ b t', (∃ enough, ∀ n, enough ≤ n → allEqual call n vs t = (.ok b, t')) ∧
      Forcings call values t t' ∧
      ∀ {nodes : LazyNodes} {fulls : List Value}, t'.nodes.Kept nodes →
        List.Forall₂ (Value.InFull nodes) vs fulls →
        (b = true ↔ fulls.IsChain fun l' r' => l'.contents = r'.contents) := by
  induction vs generalizing t with
  | nil =>
      refine ⟨true, t, ⟨0, fun n _ => rfl⟩, .refl, fun _ hFulls => ?_⟩
      cases hFulls
      exact iff_of_true rfl .nil
  | cons l vs ih =>
      obtain ⟨hl, hOthers⟩ := List.forall_mem_cons.mp hValues
      cases vs with
      | nil =>
          refine ⟨true, t, ⟨0, fun n _ => rfl⟩, .refl, fun _ hFulls => ?_⟩
          obtain ⟨full, fulls, -, hNone, rfl⟩ := List.forall₂_cons_left_iff.mp hFulls
          cases hNone
          exact iff_of_true rfl (.singleton full)
      | cons r vs =>
          obtain ⟨hr, -⟩ := List.forall_mem_cons.mp hOthers
          obtain ⟨same, u, ⟨enough, hAnswer⟩, hu, hSame⟩ := h.valuesCompare ht hl hr
          have hNext : ∀ n, enough ≤ n → allEqual call n (l :: r :: vs) t =
              (if same then allEqual call n (r :: vs) else pure false) u := by
            intro n hn
            rw [allEqual]
            exact bind_apply_ok (hAnswer n n hn hn)
          have hChain : ∀ {nodes : LazyNodes} {fulls : List Value}, u.nodes.Kept nodes →
              List.Forall₂ (Value.InFull nodes) (l :: r :: vs) fulls →
              ∃ others, List.Forall₂ (Value.InFull nodes) (r :: vs) others ∧
                ((fulls.IsChain fun l' r' => l'.contents = r'.contents) ↔ same = true ∧
                  others.IsChain fun l' r' => l'.contents = r'.contents) := by
            intro nodes fulls hNodes hFulls
            obtain ⟨l', others, hLeft, hOthers, rfl⟩ := List.forall₂_cons_left_iff.mp hFulls
            obtain ⟨r', rest, hRight, -, rfl⟩ := List.forall₂_cons_left_iff.mp hOthers
            exact ⟨_, hOthers, by rw [List.isChain_cons_cons, hSame hNodes hLeft hRight]⟩
          cases same with
          | false =>
              refine ⟨false, u, ⟨enough, hNext⟩, hu, fun hNodes hFulls => ?_⟩
              obtain ⟨_, -, hIff⟩ := hChain hNodes hFulls
              simp only [hIff, Bool.false_eq_true, false_and]
          | true =>
              obtain ⟨b, u', ⟨enough', hRest⟩, hu', hVerdict⟩ := ih (ht.trans hu) hOthers
              refine ⟨b, u', ⟨enough + enough', fun n hn => ?_⟩, hu.trans hu',
                fun hNodes hFulls => ?_⟩
              · rw [hNext n (by omega)]
                exact hRest n (by omega)
              · have hKept := h.nodes_kept (ht.trans hu) hu'
                obtain ⟨others, hOthersFull, hIff⟩ := hChain (hKept.trans hNodes) hFulls
                rw [hIff, hVerdict hNodes hOthersFull]
                simp only [true_and]

/-- In full, parts carry no two tags. -/
theorem onceTagged_inFull {v full : Value} (hPart : v.PartOf t.nodes values)
    (hFull : v.InFull t.nodes full) : full.OnceTagged :=
  hFull.onceTagged (fun _ => h.bare ht) hPart

theorem onceTagged_fulls {vs fulls : List Value} (hValues : ∀ v ∈ vs, v ∈ values)
    (hFulls : List.Forall₂ (Value.InFull t.nodes) vs fulls) : ∀ full ∈ fulls, full.OnceTagged := by
  induction hFulls with
  | nil => exact List.forall_mem_nil _
  | cons hFull _ ih =>
      obtain ⟨hv, hOthers⟩ := List.forall_mem_cons.mp hValues
      exact List.forall_mem_cons.mpr ⟨h.onceTagged_inFull ht (.self hv) hFull, ih hOthers⟩

end Determined

/-- Values are pairwise the same if neighbours have the same contents. -/
theorem Value.pairwise_same_iff {vs : List Value} (hOnce : ∀ v ∈ vs, v.OnceTagged) :
    (vs.Pairwise fun v w => v.same w = true) ↔
      vs.IsChain fun v w => v.contents = w.contents := by
  have hTrans : IsTrans Value fun v w => v.contents = w.contents := ⟨fun _ _ _ => Eq.trans⟩
  rw [List.isChain_iff_pairwise]
  exact List.Pairwise.iff_of_mem fun hv hw => Value.same_iff (hOnce _ hv) (hOnce _ hw)

/-! ## Equality of contents -/

/-- **`=` decides equality of contents.**  Let values be such that they can be worked out
by forcing their parts in whatever order: no part of one carries two tags, iterators do not
fail, and lists end at every level.

Any two of them are found to be equal or not, given enough fuel for their length and depth;
the comparison forces parts of the values and does nothing else, and it says that they are
equal exactly if they are the same in full, as soon as this is known.  In the same way
`=` says of all the values whether they are pairwise the same in full.  What they are in
full comes to be known wherever forcing has led, and stands from then on.  And sameness, which looks through tags and
takes functions by their names and lambdas as themselves, is an equivalence relation on
values that carry no two tags, as all that the language makes. -/
theorem equality_decides_contents (h : Determined call values s) :
    (∀ l ∈ values, ∀ r ∈ values, ∃ b s',
      (∃ enough, ∀ n, enough ≤ n → equalForced call n l r s = (.ok b, s')) ∧
      Forcings call values s s' ∧
      ∀ u l' r', Forcings call values s' u → l.InFull u.nodes l' → r.InFull u.nodes r' →
        (b = true ↔ l'.same r' = true)) ∧
    (∃ b s',
      (∃ enough, ∀ n, enough ≤ n →
        Intrinsic.run call n values .equal s = (.ok (.bool b), s')) ∧
      Forcings call values s s' ∧
      ∀ u fulls, Forcings call values s' u → List.Forall₂ (Value.InFull u.nodes) values fulls →
        (b = true ↔ fulls.Pairwise fun l' r' => l'.same r' = true)) ∧
    (∀ t, Forcings call values s t → ∃ u fulls, Forcings call values t u ∧
      List.Forall₂ (Value.InFull u.nodes) values fulls ∧
      ∀ nodes fulls', u.nodes.Kept nodes → List.Forall₂ (Value.InFull nodes) values fulls' →
        fulls.map Value.contents = fulls'.map Value.contents) ∧
    ((∀ v : Value, v.OnceTagged → v.same v = true) ∧
      (∀ v w : Value, v.OnceTagged → w.OnceTagged → v.same w = true → w.same v = true) ∧
      ∀ v w x : Value, v.OnceTagged → w.OnceTagged → x.OnceTagged → v.same w = true →
        w.same x = true → v.same x = true) := by
  refine ⟨fun l hl r hr => ?_, ?_, fun t ht => ?_, Value.same_equivalence⟩
  · obtain ⟨b, s', ⟨enough, hAnswer⟩, hs', hVerdict⟩ := h.valuesCompare .refl hl hr
    refine ⟨b, s', ⟨enough, fun n hn => hAnswer n n hn hn⟩, hs', fun u l' r' hu hLeft hRight => ?_⟩
    rw [hVerdict (h.nodes_kept hs' hu) hLeft hRight]
    have hu' := hs'.trans hu
    exact (Value.same_iff (h.onceTagged_inFull hu' (.self hl) hLeft)
      (h.onceTagged_inFull hu' (.self hr) hRight)).symm
  · obtain ⟨b, s', ⟨enough, hAnswer⟩, hs', hVerdict⟩ := h.allCompare .refl fun _ hv => hv
    refine ⟨b, s', ⟨enough, fun n hn => ?_⟩, hs', fun u fulls hu hFulls => ?_⟩
    · exact bind_apply_ok (hAnswer n hn)
    · rw [hVerdict (h.nodes_kept hs' hu) hFulls]
      have hOnce := h.onceTagged_fulls (hs'.trans hu) (fun _ hv => hv) hFulls
      exact (Value.pairwise_same_iff hOnce).symm
  · obtain ⟨u, fulls, hu, hFulls⟩ := h.exists_inFull ht
    refine ⟨u, fulls, hu, hFulls, fun nodes fulls' hNodes hFulls' => ?_⟩
    exact Value.InFull.contents_unique_all (hFulls.imp fun _ _ hFull => hFull.mono hNodes) hFulls'

namespace Session

/-- The way in which functions are called in the next session. -/
def tailingCall : Caller := .ofMachine 5 0

/-- A session with the lazy list `(1)`, the head of which has been asked for. -/
def tailing : State :=
  ((Use.text (fun path => .error (.unread path)) 30
    "(set g (gen tail '(0 1 (9)))) (head g)").perform blank).2

/-- The session when the list has been forced to its end. -/
def tailed : State := (force tailingCall 1 tailing).2

/-- The lazy list, and a strict one with the same element. -/
def ones : List Value := [.lazy 0, .cell (.int 1) .nil (.fixed Ty.int)]

/-- What is known of the lazy list, whether it has been forced to its end or not. -/
structure IsTailing (t : State) : Prop where
  there : 1 < t.nodes.size
  first : t.nodes.outcome? 0 = some (.item (.int 1) (.lazy 1))
  second : force tailingCall 1 t = (.ok .ended, tailed)

theorem isTailing : IsTailing tailing := by
  have hNodes : (tailing.nodes.size, tailing.nodes.outcome? 0) =
      (2, some (.item (.int 1) (.lazy 1))) := by cbv
  have hSecond : (force tailingCall 1 tailing).1 = .ok .ended := by cbv
  obtain ⟨hSize, hFirst⟩ := Prod.mk.inj hNodes
  exact ⟨by rw [hSize]; decide, hFirst, Prod.ext hSecond (by rw [tailed])⟩

theorem isTailing_tailed : IsTailing tailed ∧ tailed.nodes.outcome? 1 = some .ended := by
  have hNodes : (tailed.nodes.size, tailed.nodes.outcome? 0, tailed.nodes.outcome? 1) =
      (2, some (.item (.int 1) (.lazy 1)), some .ended) := by cbv
  obtain ⟨hSize, hOutcomes⟩ := Prod.mk.inj hNodes
  obtain ⟨hFirst, hSecond⟩ := Prod.mk.inj hOutcomes
  exact ⟨⟨by rw [hSize]; decide, hFirst, force_of_outcome hSecond tailingCall⟩, hSecond⟩

/-- All parts that the two lists ever have. -/
def oneParts : List Value :=
  [.lazy 0, .lazy 1, .cell (.int 1) .nil (.fixed Ty.int), .int 1, .nil]

theorem node_of_mem_oneParts {node : Nat} (h : Value.lazy node ∈ oneParts) :
    node = 0 ∨ node = 1 := by
  simpa [oneParts] using h

namespace IsTailing

variable {t : State} (h : IsTailing t)

include h

/-- The list has one element, and the rest of it is the second node. -/
theorem of_item {node : Nat} {head next : Value} (hNode : Value.lazy node ∈ oneParts)
    (hOutcome : t.nodes.outcome? node = some (.item head next)) :
    head = .int 1 ∧ next = .lazy 1 := by
  rcases node_of_mem_oneParts hNode with rfl | rfl
  · rw [h.first] at hOutcome
    cases hOutcome
    exact ⟨rfl, rfl⟩
  · have hForce := force_of_outcome hOutcome tailingCall
    rw [h.second] at hForce
    cases (Prod.mk.inj hForce).1

theorem mem_oneParts {part : Value} (hPart : part.PartOf t.nodes ones) : part ∈ oneParts := by
  induction hPart with
  | self hMem =>
      simp only [ones, List.mem_cons, List.not_mem_nil, or_false] at hMem
      rcases hMem with rfl | rfl <;> simp [oneParts]
  | under _ ih => simp [oneParts] at ih
  | head _ ih => simp_all [oneParts]
  | tail _ ih => simp_all [oneParts]
  | item _ hItem ih => simp [(h.of_item ih hItem).1, oneParts]
  | next _ hItem ih => simp [(h.of_item ih hItem).2, oneParts]

theorem second_part : (Value.lazy 1).PartOf t.nodes ones :=
  .next (.self List.mem_cons_self) h.first

/-- Forcing parts leads to a state of which the same is known. -/
theorem of_force {t' : State} {node : Nat} {forced : LazyOutcome}
    (hPart : (Value.lazy node).PartOf t.nodes ones)
    (hForce : force tailingCall node t = (.ok forced, t')) : IsTailing t' := by
  rcases node_of_mem_oneParts (h.mem_oneParts hPart) with rfl | rfl
  · rw [force_of_outcome h.first] at hForce
    exact (Prod.mk.inj hForce).2 ▸ h
  · rw [h.second] at hForce
    exact (Prod.mk.inj hForce).2 ▸ isTailing_tailed.1

theorem answers {node : Nat} (hPart : (Value.lazy node).PartOf t.nodes ones) :
    ∃ n, t.nodes[node]? = some n ∧
      (n.outcome = none → ∀ t' stop, ¬ n.Refused tailingCall t t' stop) := by
  rcases node_of_mem_oneParts (h.mem_oneParts hPart) with rfl | rfl
  · obtain ⟨n, hNode, hForced⟩ := LazyNodes.outcome?_eq_some.mp h.first
    refine ⟨n, hNode, fun hFresh => ?_⟩
    rw [hForced] at hFresh
    cases hFresh
  · have hNode := Array.getElem?_eq_getElem h.there
    refine ⟨_, hNode, fun hFresh t' stop hRefused => ?_⟩
    have hFails := force_of_refused hNode hFresh hRefused
    rw [h.second] at hFails
    cases (Prod.mk.inj hFails).1

end IsTailing

theorem isTailing_of_forcings {t : State} (h : Forcings tailingCall ones tailing t) :
    IsTailing t := by
  induction h with
  | refl => exact isTailing
  | force _ hPart hForce ih => exact ih.of_force hPart hForce

/-- The list ends after its element. -/
theorem ends_second {t : State} (ht : Forcings tailingCall ones tailing t) :
    (Value.lazy 1).Ends tailingCall ones t := by
  have hNever : ∀ {u u' : State} {head next : Value}, Forcings tailingCall ones t u →
      force tailingCall 1 u ≠ (.ok (.item head next), u') := by
    intro u u' head next hu hForce
    rw [(isTailing_of_forcings (ht.trans hu)).second] at hForce
    cases (Prod.mk.inj hForce).1
  exact .lazy (fun hu hForce => absurd hForce (hNever hu))
    (fun hu hForce => absurd hForce (hNever hu)) (fun hu hForce => absurd hForce (hNever hu))

theorem ends_first : (Value.lazy 0).Ends tailingCall ones tailing := by
  have hItem : ∀ {t t' : State} {head next : Value}, Forcings tailingCall ones tailing t →
      force tailingCall 0 t = (.ok (.item head next), t') →
      head = .int 1 ∧ next = .lazy 1 ∧ t' = t := by
    intro t t' head next ht hForce
    rw [force_of_outcome (isTailing_of_forcings ht).first] at hForce
    obtain ⟨hItem, hSame⟩ := Prod.mk.inj hForce
    cases hItem
    exact ⟨rfl, rfl, hSame.symm⟩
  refine .lazy (fun ht hForce => ?_) (fun ht hForce => ?_) (fun ht hForce => ?_)
  · obtain ⟨rfl, -, -⟩ := hItem ht hForce
    exact .atom rfl
  · obtain ⟨-, rfl, hSame⟩ := hItem ht hForce
    exact hSame ▸ ends_second ht
  · obtain ⟨-, rfl, -⟩ := hItem ht hForce
    rfl

/-- The lazy list and the strict one can be worked out. -/
theorem determined_ones : Determined tailingCall ones tailing := by
  have hReached : Reached tailing := .after _ (.start _ _ .empty)
  have hPlain : Plain tailing := .use _ (.start _ .empty)
  have hMade : ∀ v ∈ ones, v.WellMade tailing.program.types := by
    refine List.forall_mem_cons.mpr ⟨.lazy 0, List.forall_mem_singleton.mpr ?_⟩
    exact .cell (.int 1) .nil rfl rfl (.cell _ (.int 1) (.nil _))
  refine .of_wellMade hReached.ready.placed
    (hPlain.sound Value.wellMade_lasting) hMade
    (fun ht hPart => (isTailing_of_forcings ht).answers hPart) ?_
  refine List.forall_mem_cons.mpr ⟨ends_first, List.forall_mem_singleton.mpr ?_⟩
  exact .cell (.atom rfl) .nil rfl

end Session

/-- A lazy list and a strict one with the same element are equal. -/
theorem equality_decides_contents_of_ones :
    Determined Session.tailingCall Session.ones Session.tailing ∧
      ∃ s' enough, ∀ n, enough ≤ n →
        Intrinsic.run Session.tailingCall n Session.ones .equal Session.tailing =
          (.ok (.bool true), s') := by
  have h := Session.determined_ones
  obtain ⟨b, s', ⟨enough, hAnswer⟩, hs', hVerdict⟩ := (equality_decides_contents h).2.1
  refine ⟨h, s', enough, fun n hn => ?_⟩
  have hKnown := Session.isTailing_of_forcings hs'
  have hEnd : Forcings Session.tailingCall Session.ones s' Session.tailed :=
    .force .refl hKnown.second_part hKnown.second
  have hFulls : List.Forall₂ (Value.InFull Session.tailed.nodes) Session.ones
      [.cell (.int 1) .nil (.pending none), .cell (.int 1) .nil (.fixed Ty.int)] := by
    refine .cons ?_ (.cons (.cell _ _ (.atom rfl) .nil) .nil)
    exact .item _ Session.isTailing_tailed.1.first (.atom rfl) (.ended Session.isTailing_tailed.2)
  have hTrue : b = true := (hVerdict _ _ hEnd hFulls).mpr (by decide)
  rw [hAnswer n hn, hTrue]

end ClauseLisp
