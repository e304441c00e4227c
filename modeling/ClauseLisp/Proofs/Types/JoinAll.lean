import ClauseLisp.Proofs.Types.LeastAbove

/-!
# Joins of several types

The elements of a list have one type between them, which is found by joining
their types from the last one to the first.  It is above all of them, whatever
has been overlooked on the way, and it is the least such type if nothing has.

Being above is not transitive at bare `func`.  Joins are made in such a way that
this does no harm on the way up: whatever is below the second type is below the
join.  But whoever asks what is above the join may be told of a function type
that not all of its parts are below (`widens_or_isArrowTower`).

## Main results

* `Registry.join_induct` — induction over the steps of a join.
* `Registry.below_joinAll`, `Registry.joinAll_below` — a join of several types is
  above them, and least.
-/

namespace ClauseLisp.Ty

/-- Whether a type is a function type with a signature under list layers. -/
def isArrowTower : Ty → Bool
  | .arrow _ _ => true
  | .list elem => isArrowTower elem
  | _ => false

namespace Registry

variable {r : Registry}

/-! ## The steps of a join -/

/-- Induction over the steps of a join: one of the types is acceptable for the other, or a
step is made, or there is nothing in common. -/
theorem join_induct (hr : r.Reached) {motive : Ty → Ty → Ty → Prop}
    (le : ∀ a b, r.le a b = true → motive a b b)
    (ge : ∀ a b, r.le a b = false → r.le b a = true → motive a b a)
    (list : ∀ x y, motive x y (r.join x y) → motive (.list x) (.list y) (.list (r.join x y)))
    (arrow : ∀ ps t qs u, motive (.arrow ps t) (.arrow qs u) .func)
    (parent : ∀ name above b, r.parent? name = some above → motive above b (r.join above b) →
      motive (.named name) b (r.join above b))
    (top : ∀ a b, motive a b any) (a b : Ty) : motive a b (r.join a b) := by
  induction hn : r.height a using Nat.strongRecOn generalizing a b with
  | ind n ih =>
      cases hLe : r.le a b with
      | true =>
          rw [join_of_le hLe]
          exact le a b hLe
      | false =>
          cases hGe : r.le b a with
          | true =>
              rw [join_of_ge hLe hGe]
              exact ge a b hLe hGe
          | false =>
              rw [join_of_not_comparable hr (not_comparable_iff.mpr ⟨hLe, hGe⟩)]
              split
              · rw [height_list] at hn
                exact list _ _ (ih _ (by omega) _ _ rfl)
              · exact arrow _ _ _ _
              · split
                · rename_i hParent
                  rw [hr.height_named hParent] at hn
                  exact parent _ _ _ hParent (ih _ (by omega) _ _ rfl)
                · exact top _ _
              · exact top _ _

/-- Lists of a wider type are acceptable where lists are. -/
theorem Widens.list {t u : Ty} (h : r.Widens t u) : r.Widens (.list t) (.list u) := by
  intro a hat
  generalize hList : Ty.list t = s at hat
  induction hat with
  | refl =>
      subst hList
      exact .list h.below
  | list hat =>
      cases hList
      exact .list (h _ hat)
  | parent hParent _ ih => exact .parent hParent (ih hList)
  | _ => cases hList

theorem widens_any (t : Ty) : r.Widens t any := fun a _ => .top a

/-- **A join is wider than its second type**, also where that is bare `func`. -/
theorem widens_join (hr : r.Reached) (a b : Ty) (ha : r.height a < maxDepth) :
    r.Widens b (r.join a b) := by
  refine join_induct hr (motive := fun a b j => r.height a < maxDepth → r.Widens b j)
    (fun a b _ _ => .refl b) (fun a b hLe hGe ha => ?_) (fun x y ih ha => ?_)
    (fun ps t qs u _ c h => h.func) (fun name above b hParent ih ha => ?_)
    (fun a b _ => widens_any b) a b ha
  · have hStrict : ¬ Below r a b := (le_eq_false_iff hr ha).mp hLe
    exact fun c hcb => hcb.trans_of_strict hr (below_of_leWithin hGe) hStrict
  · rw [height_list] at ha
    exact (ih (by omega)).list
  · rw [hr.height_named hParent] at ha
    exact ih (by omega)

/-- A join is no higher than its types. -/
theorem fullHeight_join_le (hr : r.Reached) (a b : Ty) :
    r.fullHeight (r.join a b) ≤ max (r.fullHeight a) (r.fullHeight b) := by
  refine join_induct hr
    (motive := fun a b j => r.fullHeight j ≤ max (r.fullHeight a) (r.fullHeight b))
    (fun a b _ => Nat.le_max_right _ _) (fun a b _ _ => Nat.le_max_left _ _)
    (fun x y ih => ?_) (fun ps t qs u => Nat.zero_le _) (fun name above b hParent ih => ?_)
    (fun a b => ?_) a b
  · simp only [fullHeight_list]
    omega
  · rw [hr.fullHeight_named hParent]
    omega
  · rw [show r.fullHeight any = 0 from fullHeight_named_of_none hr.ordered.any]
    exact Nat.zero_le _

/-! ## Several types -/

/-- The join of several types, from the last to the first. -/
def joinAll (r : Registry) : List Ty → Ty
  | [] => any
  | [t] => t
  | t :: ts => r.join t (joinAll r ts)

theorem joinAll_cons (r : Registry) {ts : List Ty} (t : Ty) (h : ts ≠ []) :
    r.joinAll (t :: ts) = r.join t (r.joinAll ts) := by
  cases ts with
  | nil => exact absurd rfl h
  | cons u us => rfl

/-- No join on the way from the last type to the first overlooks anything. -/
def JoinsSeen (r : Registry) : List Ty → Prop
  | [] => True
  | [_] => True
  | t :: ts => ¬ r.Overlooks t (r.joinAll ts) ∧ JoinsSeen r ts

theorem fullHeight_joinAll_lt (hr : r.Reached) :
    ∀ {ts : List Ty}, (∀ t ∈ ts, r.fullHeight t < maxDepth) →
      r.fullHeight (r.joinAll ts) < maxDepth := by
  intro ts
  induction ts with
  | nil =>
      intro _
      rw [joinAll, show r.fullHeight any = 0 from fullHeight_named_of_none hr.ordered.any]
      decide
  | cons t ts ih =>
      intro hLow
      rw [List.forall_mem_cons] at hLow
      by_cases hEmpty : ts = []
      · subst hEmpty
        exact hLow.1
      · rw [joinAll_cons r t hEmpty]
        have hOthers := ih hLow.2
        have hJoin := fullHeight_join_le hr t (r.joinAll ts)
        omega

/-- **A join of several types is above each of them.** -/
theorem below_joinAll (hr : r.Reached) :
    ∀ {ts : List Ty}, (∀ t ∈ ts, r.height t < maxDepth) → ∀ t ∈ ts, Below r t (r.joinAll ts) := by
  intro ts
  induction ts with
  | nil => exact fun _ _ h => nomatch h
  | cons first ts ih =>
      intro hLow t hMem
      rw [List.forall_mem_cons] at hLow
      by_cases hEmpty : ts = []
      · subst hEmpty
        rw [List.mem_singleton.mp hMem]
        exact .refl first
      · rw [joinAll_cons r first hEmpty]
        rcases List.mem_cons.mp hMem with rfl | hMem
        · exact (below_join hr _ _).1
        · exact widens_join hr first _ hLow.1 t (ih hLow.2 t hMem)

/-- **A join of several types is least**, if nothing is overlooked on the way. -/
theorem joinAll_below (hr : r.Reached) {c : Ty} :
    ∀ {ts : List Ty}, ts ≠ [] → (∀ t ∈ ts, r.height t < maxDepth) → r.JoinsSeen ts →
      (∀ t ∈ ts, Below r t c) → Below r (r.joinAll ts) c := by
  intro ts
  induction ts with
  | nil => exact fun h => absurd rfl h
  | cons first ts ih =>
      intro _ hLow hSeen hBelow
      by_cases hEmpty : ts = []
      · subst hEmpty
        exact hBelow first List.mem_cons_self
      · obtain ⟨next, rest, rfl⟩ := List.exists_cons_of_ne_nil hEmpty
        rw [List.forall_mem_cons] at hLow hBelow
        have hOthers := ih hEmpty hLow.2 hSeen.2 hBelow.2
        have hHeight : r.height (r.joinAll (next :: rest)) < maxDepth := by
          have hNext := below_joinAll hr hLow.2 next List.mem_cons_self
          exact Nat.lt_of_le_of_lt (hNext.height_le hr) (hLow.2 next List.mem_cons_self)
        exact below_of_not_overlooks hr hBelow.1 hLow.1 hHeight hSeen.1 hOthers

/-! ## Above bare `func` -/

/-- What is above bare `func` is wider, unless it is a signature. -/
theorem widens_or_isArrowTower {t u : Ty} (hBare : t.isFuncTower = true) (h : Below r t u) :
    r.Widens t u ∨ u.isArrowTower = true := by
  induction h with
  | refl t => exact .inl (.refl t)
  | top t => exact .inl (widens_any t)
  | list _ ih =>
      rcases ih hBare with hWidens | hArrow
      · exact .inl hWidens.list
      · exact .inr hArrow
  | funcArrow => exact .inr rfl
  | arrowFunc => cases hBare
  | parent => cases hBare

end Registry

end ClauseLisp.Ty
