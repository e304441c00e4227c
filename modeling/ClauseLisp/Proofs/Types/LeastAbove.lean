import Mathlib.Logic.Basic
import ClauseLisp.Proofs.Types.Inhabitants
import ClauseLisp.Proofs.Types.Walks

/-!
# What joins find

The join of two types is above both.  It is found by going up from the first
one: a declared name is left for its parent, two list types are joined layer by
layer, and the walk ends at the first type that the second one is below.

Only the first type is followed.  Where it has arrived at a list and the second
one is a declared name that is a list behind its parents, nothing is left but
`any`, although all lists are below `list`; and likewise for functions.  Such
joins are *overlooked*.  They are the only ones that are not least, and since
the walk favours its first type, they are also why the order of the two may
matter.

## Main results

* `Registry.join_of_not_comparable` — one step of a join.
* `Registry.below_of_not_overlooks`, `Registry.Overlooks.exists_between` — which
  joins are least.
* `Registry.join_least_iff` — joins are above both types, and least exactly if
  they overlook nothing.
* `Registry.join_misses_declared_lists` — a join that is not.
-/

namespace ClauseLisp.Ty.Registry

variable {r : Registry} {a b : Ty}

/-! ## One step of a join -/

theorem join_of_le (h : r.le a b = true) : r.join a b = b := by
  unfold join joinWithin
  rw [if_pos h]

theorem join_of_ge (hLe : r.le a b = false) (h : r.le b a = true) : r.join a b = a := by
  unfold join joinWithin
  rw [if_neg (ne_true_of_eq_false hLe), if_pos h]

theorem not_comparable_iff : ¬ r.Comparable a b ↔ r.le a b = false ∧ r.le b a = false := by
  simp only [Comparable, not_or, Bool.not_eq_true]

/-- **One step of a join.**  Two types that are not comparable are joined layer by
layer if both are lists; a declared name is left for its parent; and of other
types only two functions have something in common. -/
theorem join_of_not_comparable (hr : r.Reached) (h : ¬ r.Comparable a b) :
    r.join a b =
      match a, b with
      | .list x, .list y => .list (r.join x y)
      | .arrow _ _, .arrow _ _ => .func
      | .named name, b =>
        match r.parent? name with
        | some parent => r.join parent b
        | none => any
      | _, _ => any := by
  obtain ⟨hLe, hGe⟩ := not_comparable_iff.mp h
  have hHigh : r.height a < r.steps a := r.height_lt_steps a
  unfold join
  obtain ⟨n, hn⟩ : ∃ n, r.steps a = n + 1 := ⟨r.steps a - 1, by omega⟩
  rw [hn] at hHigh ⊢
  unfold joinWithin
  rw [if_neg (ne_true_of_eq_false hLe), if_neg (ne_true_of_eq_false hGe)]
  cases a with
  | named name =>
      cases hParent : r.parent? name with
      | none => simp only [hParent]
      | some parent =>
          rw [hr.height_named hParent] at hHigh
          simp only [hParent]
          exact joinWithin_eq_join hr (by omega)
  | list x =>
      cases b with
      | list y =>
          rw [height_list] at hHigh
          exact congrArg Ty.list (joinWithin_eq_join hr (by omega))
      | _ => rfl
  | func =>
      cases b with
      | func => exact absurd (.inl rfl) h
      | arrow params ret => exact absurd (.inl rfl) h
      | _ => rfl
  | arrow params ret =>
      cases b with
      | func => exact absurd (.inl rfl) h
      | _ => rfl
  | var name => cases b <;> rfl

/-! ## What is above both types -/

/-- Whatever is below some list type is below `list`. -/
theorem Below.listAny {elem : Ty} (h : Below r a (.list elem)) : Below r a listAny := by
  generalize hList : Ty.list elem = t at h
  induction h with
  | refl =>
      subst hList
      exact .list (.top elem)
  | list =>
      cases hList
      exact .list (.top _)
  | parent hParent _ ih => exact .parent hParent (ih hList)
  | _ => cases hList

/-- Whatever is below some function type is below bare `func`. -/
theorem Below.func {params : List Ty} {ret : Ty} (h : Below r a (.arrow params ret)) :
    Below r a .func := by
  generalize hArrow : Ty.arrow params ret = t at h
  induction h with
  | refl =>
      subst hArrow
      exact .arrowFunc params ret
  | funcArrow => exact .refl .func
  | parent hParent _ ih => exact .parent hParent (ih hArrow)
  | _ => cases hArrow

/-- The join of two types overlooks what they have in common: on the way up from the
first one nothing is met that the second one is below, until the first one is a list
or a function and the second one is a declared name that is one behind its parents. -/
inductive Overlooks (r : Registry) : Ty → Ty → Prop
  | listName {elem : Ty} {name : String} :
      r.le (.named name) listAny = true → r.le (.named name) (.list elem) = false →
      Overlooks r (.list elem) (.named name)
  | funcName {params : List Ty} {ret : Ty} {name : String} :
      r.le (.named name) .func = true → r.le (.named name) (.arrow params ret) = false →
      Overlooks r (.arrow params ret) (.named name)
  | list {x y : Ty} : Overlooks r x y → Overlooks r (.list x) (.list y)
  | parent {name : String} {parent b : Ty} :
      r.parent? name = some parent → r.le b (.named name) = false → Overlooks r parent b →
      Overlooks r (.named name) b

/-- Types are as comparable as the order says, if they are not too high. -/
theorem comparable_iff (hr : r.Reached) (ha : r.height a < maxDepth) (hb : r.height b < maxDepth) :
    r.Comparable a b ↔ Below r a b ∨ Below r b a := by
  rw [Comparable, le_eq_true_iff_below hr ha, le_eq_true_iff_below hr hb]

theorem le_eq_false_iff (hr : r.Reached) (ha : r.height a < maxDepth) :
    r.le a b = false ↔ ¬ Below r a b := by
  rw [← Bool.not_eq_true, le_eq_true_iff_below hr ha]

/-- Types whose join overlooks something are not comparable. -/
theorem Overlooks.not_comparable (h : r.Overlooks a b) (hr : r.Reached)
    (ha : r.height a < maxDepth) (hb : r.height b < maxDepth) : ¬ r.Comparable a b := by
  have hAny : r.le any listAny = false ∧ r.le any .func = false := by
    have hHeight : r.height any < maxDepth := by
      rw [show r.height any = 0 from height_named_of_none hr.ordered.any]
      decide
    simp only [le_eq_false_iff hr hHeight]
    exact ⟨fun h => absurd (Below.eq_any hr h) nofun, fun h => absurd (Below.eq_any hr h) nofun⟩
  induction h with
  | listName hList hNot =>
      rw [comparable_iff hr ha hb]
      rintro (hBelow | hBelow)
      · cases hBelow
        rw [show Ty.named "any" = any from rfl, hAny.1] at hList
        cases hList
      · exact (le_eq_false_iff hr hb).mp hNot hBelow
  | funcName hFunc hNot =>
      rw [comparable_iff hr ha hb]
      rintro (hBelow | hBelow)
      · cases hBelow
        rw [show Ty.named "any" = any from rfl, hAny.2] at hFunc
        cases hFunc
      · exact (le_eq_false_iff hr hb).mp hNot hBelow
  | list _ ih =>
      rw [height_list] at ha hb
      have hInner := ih (by omega) (by omega)
      rw [comparable_iff hr (by omega) (by omega)] at hInner
      rw [comparable_iff hr (by rw [height_list]; omega) (by rw [height_list]; omega),
        Below.list_iff, Below.list_iff]
      exact hInner
  | @parent name above b hParent hNot _ ih =>
      have hUp := ha
      rw [hr.height_named hParent] at hUp
      have hAbove := ih (by omega) hb
      rw [comparable_iff hr (by omega) hb] at hAbove
      rw [comparable_iff hr ha hb]
      have hDown : ¬ Below r b (.named name) := (le_eq_false_iff hr hb).mp hNot
      rintro (hBelow | hBelow)
      · cases hBelow with
        | refl => exact hDown (.refl _)
        | top => exact hAbove (.inl (.top above))
        | parent hParent' hBelow =>
            rw [hParent, Option.some.injEq] at hParent'
            exact hAbove (.inl (hParent' ▸ hBelow))
      · exact hDown hBelow

/-- What is above two comparable types is above their join, which is one of them. -/
theorem below_join_of_comparable {c : Ty} (h : r.Comparable a b) (hac : Below r a c)
    (hbc : Below r b c) : Below r (r.join a b) c := by
  cases hLe : r.le a b with
  | true =>
      rw [join_of_le hLe]
      exact hbc
  | false =>
      rw [join_of_ge hLe (h.resolve_left (ne_true_of_eq_false hLe))]
      exact hac

/-- **A join that overlooks nothing is least**: what is above both types is above it. -/
theorem below_of_not_overlooks (hr : r.Reached) {c : Ty} (hac : Below r a c) :
    ∀ {b : Ty}, r.height a < maxDepth → r.height b < maxDepth → ¬ r.Overlooks a b →
      Below r b c → Below r (r.join a b) c := by
  -- The ways to be above the first type are the ways that the walk takes.
  induction hac with
  | refl a =>
      intro b _ hb _ hbc
      exact below_join_of_comparable (.inr ((le_eq_true_iff_below hr hb).mpr hbc)) (.refl a) hbc
  | top a => exact fun _ _ _ _ => .top _
  | @list x z hxz ih =>
      intro b ha hb hSeen hbc
      by_cases hComparable : r.Comparable (.list x) b
      · exact below_join_of_comparable hComparable (.list hxz) hbc
      rw [join_of_not_comparable hr hComparable]
      cases b with
      | list y =>
          rw [height_list] at ha hb
          exact .list (ih (by omega) (by omega) (fun h => hSeen (.list h)) (Below.list_iff.mp hbc))
      | named name =>
          have hList : r.le (.named name) listAny = true :=
            (le_eq_true_iff_below hr hb).mpr hbc.listAny
          exact absurd (.listName hList (not_comparable_iff.mp hComparable).2) hSeen
      | _ => cases hbc
  | funcArrow params ret =>
      intro b _ hb _ hbc
      exact below_join_of_comparable (.inr ((le_eq_true_iff_below hr hb).mpr hbc.func))
        (.funcArrow params ret) hbc
  | arrowFunc params ret =>
      intro b ha hb hSeen hbc
      by_cases hComparable : r.Comparable (.arrow params ret) b
      · exact below_join_of_comparable hComparable (.arrowFunc params ret) hbc
      rw [join_of_not_comparable hr hComparable]
      cases b with
      | arrow => exact .refl .func
      | named name =>
          have hFunc : r.le (.named name) .func = true := (le_eq_true_iff_below hr hb).mpr hbc
          exact absurd (.funcName hFunc (not_comparable_iff.mp hComparable).2) hSeen
      | func => exact absurd (.inl rfl) hComparable
      | _ => cases hbc
  | @parent name above c hParent hAbove ih =>
      intro b ha hb hSeen hbc
      by_cases hComparable : r.Comparable (.named name) b
      · exact below_join_of_comparable hComparable (.parent hParent hAbove) hbc
      rw [join_of_not_comparable hr hComparable]
      simp only [hParent]
      rw [hr.height_named hParent] at ha
      exact ih (by omega) hb
        (fun h => hSeen (.parent hParent (not_comparable_iff.mp hComparable).2 h)) hbc

/-- **A join that overlooks something is not least**: something is above both types
and not above it. -/
theorem Overlooks.exists_between (h : r.Overlooks a b) (hr : r.Reached)
    (ha : r.height a < maxDepth) (hb : r.height b < maxDepth) :
    ∃ c, Below r a c ∧ Below r b c ∧ ¬ Below r (r.join a b) c := by
  rw [join_of_not_comparable hr (h.not_comparable hr ha hb)]
  induction h with
  | @listName elem name hList hNot =>
      exact ⟨listAny, .list (.top elem), (le_eq_true_iff_below hr hb).mp hList,
        fun h => absurd (h.eq_any hr) nofun⟩
  | @funcName params ret name hFunc hNot =>
      exact ⟨.func, .arrowFunc params ret, (le_eq_true_iff_below hr hb).mp hFunc,
        fun h => absurd (h.eq_any hr) nofun⟩
  | @list x y h ih =>
      rw [height_list] at ha hb
      obtain ⟨c, hxc, hyc, hNot⟩ := ih (by omega) (by omega)
      rw [← join_of_not_comparable hr (h.not_comparable hr (by omega) (by omega))] at hNot
      exact ⟨.list c, .list hxc, .list hyc, fun h => hNot (Below.list_iff.mp h)⟩
  | parent hParent hNot h ih =>
      rw [hr.height_named hParent] at ha
      obtain ⟨c, hac, hbc, hNot⟩ := ih (by omega) hb
      rw [← join_of_not_comparable hr (h.not_comparable hr (by omega) hb)] at hNot
      simp only [hParent]
      exact ⟨c, .parent hParent hac, hbc, hNot⟩

/-! ## Joins -/

theorem below_join (hr : r.Reached) (a b : Ty) : Below r a (r.join a b) ∧ Below r b (r.join a b) :=
  have hJoins := joins_joinWithin hr (r.steps a) a b
  ⟨hJoins.first, hJoins.second⟩

theorem least_iff_not_overlooks (hr : r.Reached) (ha : r.height a < maxDepth)
    (hb : r.height b < maxDepth) :
    (∀ c, Below r a c → Below r b c → Below r (r.join a b) c) ↔ ¬ r.Overlooks a b := by
  constructor
  · intro hLeast hOverlooks
    obtain ⟨c, hac, hbc, hNot⟩ := hOverlooks.exists_between hr ha hb
    exact hNot (hLeast c hac hbc)
  · exact fun hSeen c hac hbc => below_of_not_overlooks hr hac ha hb hSeen hbc

/-- **Which joins are least.**  In a registry that declarations lead to, and for types no
higher than the order follows, the join is above both types.  It is below everything else
that is above both exactly if it overlooks nothing.  If that is so whichever type comes
first, and the types are not below bare `func` under list layers, the order of the two
makes no difference; it does make one if only one of the two joins overlooks something. -/
theorem join_least_iff (hr : r.Reached) (a b : Ty) (ha : r.height a < maxDepth)
    (hb : r.height b < maxDepth) :
    r.le a (r.join a b) = true ∧
      r.le b (r.join a b) = true ∧
      ((∀ c, r.le a c = true → r.le b c = true → r.le (r.join a b) c = true) ↔
        ¬ r.Overlooks a b) ∧
      (¬ r.Overlooks a b → ¬ r.Overlooks b a →
        (∀ t, t.isFuncTower = true → r.le a t = false) → r.join a b = r.join b a) ∧
      (r.join a b = r.join b a → (r.Overlooks a b ↔ r.Overlooks b a)) := by
  obtain ⟨hFirst, hSecond⟩ := below_join hr a b
  obtain ⟨hSecond', hFirst'⟩ := below_join hr b a
  have hLeast := least_iff_not_overlooks hr ha hb
  have hLeast' := least_iff_not_overlooks hr hb ha
  refine ⟨(le_eq_true_iff_below hr ha).mpr hFirst, (le_eq_true_iff_below hr hb).mpr hSecond,
    ?_, fun hSeen hSeen' hBare => ?_, fun hSame => ?_⟩
  · have hJoin : r.height (r.join a b) < maxDepth := Nat.lt_of_le_of_lt (hFirst.height_le hr) ha
    simp only [le_eq_true_iff_below hr ha, le_eq_true_iff_below hr hb,
      le_eq_true_iff_below hr hJoin]
    exact hLeast
  · have hNotBare : ∀ {t : Ty}, Below r a t → t.isFuncTower = false := by
      intro t hat
      refine Bool.eq_false_iff.mpr fun hTower => ?_
      exact (le_eq_false_iff hr ha).mp (hBare t hTower) hat
    exact (hLeast.mpr hSeen _ hFirst' hSecond').antisymm hr (hNotBare hFirst) (hNotBare hFirst')
      (hLeast'.mpr hSeen' _ hSecond hFirst)
  · rw [← not_iff_not, ← hLeast, ← hLeast', hSame]
    exact forall_congr' fun c => forall_comm

/-- `lengths` is a list of numbers behind its parent, and its join with the lists of text is
the least type above both. -/
theorem join_least_of_lengths :
    lengths.height (.named "lengths") < maxDepth ∧ lengths.height (.list str) < maxDepth ∧
      ¬ lengths.Overlooks (.named "lengths") (.list str) ∧
      lengths.join (.named "lengths") (.list str) = listAny ∧
      ∀ c, lengths.le (.named "lengths") c = true → lengths.le (.list str) c = true →
        lengths.le listAny c = true := by
  have hHeight : lengths.height (.named "lengths") < maxDepth := by decide
  have hHeight' : lengths.height (.list str) < maxDepth := by decide
  have hJoin : lengths.join (.named "lengths") (.list str) = listAny := by decide
  have hSeen : ¬ lengths.Overlooks (.named "lengths") (.list str) := by
    -- The walk goes on to lists of `metre`, to `metre` inside them and to `int`, and ends there.
    rintro (_ | _ | _ | ⟨hLengths, -, hUp⟩)
    cases hLengths
    rcases hUp with _ | _ | hUp
    rcases hUp with _ | _ | _ | ⟨hMetre, -, hUp⟩
    cases hMetre
    rcases hUp with _ | _ | _ | ⟨hInt, -, -⟩
    cases hInt
  have hLeast := (join_least_iff reached_lengths _ _ hHeight hHeight').2.2.1.mpr hSeen
  rw [hJoin] at hLeast
  exact ⟨hHeight, hHeight', hSeen, hJoin, hLeast⟩

/-- **A join that is not least, and depends on the order of its types.**  All lists are
below `list`, but joined with `lengths` the lists of text give `any`. -/
theorem join_misses_declared_lists :
    lengths.Reached ∧
      lengths.height (.list str) < maxDepth ∧ lengths.height (.named "lengths") < maxDepth ∧
      lengths.join (.list str) (.named "lengths") = any ∧
      lengths.le (.list str) listAny = true ∧ lengths.le (.named "lengths") listAny = true ∧
      lengths.le any listAny = false ∧
      lengths.join (.named "lengths") (.list str) = listAny :=
  ⟨reached_lengths, by decide⟩

end ClauseLisp.Ty.Registry
