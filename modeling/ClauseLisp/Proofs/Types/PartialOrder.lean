import ClauseLisp.Proofs.Types.Height

/-!
# Types are ordered

`Registry.le` follows at most `maxDepth` steps.  `Registry.Below` says the same
without counting: a type is below itself, below `any` and below what its parent
is below; lists are ordered as their elements; `func` and the function types
that say more are below each other.  For a type that is not as high as the steps
reach the two agree, so that what holds of `Below` holds of `le`.

Bare `func` is what keeps this from being a partial order outright: it is below
and above every function type, though no two of these are comparable.

## Main results

* `Registry.le_eq_true_iff_below` — `le` is `Below` for types that are not too high.
* `Registry.le_partial_order` — types are partially ordered below `any`, apart
  from bare `func`.
-/

namespace ClauseLisp.Ty

/-- Whether a type is bare `func` under list layers. -/
def isFuncTower : Ty → Bool
  | .func => true
  | .list elem => isFuncTower elem
  | _ => false

namespace Registry

/-- The order of types, however far one has to go for it. -/
inductive Below (r : Registry) : Ty → Ty → Prop
  | refl (a : Ty) : Below r a a
  | top (a : Ty) : Below r a any
  | list {a b : Ty} : Below r a b → Below r (.list a) (.list b)
  | funcArrow (params : List Ty) (ret : Ty) : Below r .func (.arrow params ret)
  | arrowFunc (params : List Ty) (ret : Ty) : Below r (.arrow params ret) .func
  | parent {name : String} {parent b : Ty} :
      r.parent? name = some parent → Below r parent b → Below r (.named name) b

variable {r : Registry} {a b c : Ty}

theorem eq_any_of_isAny (h : a.isAny = true) : a = any := by
  cases a with
  | named name => exact congrArg Ty.named (of_decide_eq_true h)
  | _ => cases h

/-- Everything is below `any`, however high it is. -/
theorem le_any (r : Registry) (a : Ty) : r.le a any = true := by
  unfold le leWithin
  exact if_pos (Bool.or_eq_true _ _ |>.mpr (.inr rfl))

/-! ## Counting steps -/

/-- No step is needed to see that a type is below itself and below `any`. -/
theorem below_of_end {a b : Ty} (h : (decide (a = b) || b.isAny) = true) : Below r a b := by
  rcases Bool.or_eq_true _ _ |>.mp h with hEq | hAny
  · rw [of_decide_eq_true hEq]
    exact .refl b
  · rw [eq_any_of_isAny hAny]
    exact .top a

/-- Whatever number of steps finds a type below another, it is. -/
theorem below_of_leWithin : ∀ {steps : Nat} {a b : Ty}, r.leWithin steps a b = true → Below r a b := by
  intro steps
  induction steps with
  | zero =>
      intro a b h
      unfold leWithin at h
      split at h
      · rename_i hEnd
        exact below_of_end hEnd
      · cases h
  | succ steps ih =>
      intro a b h
      unfold leWithin at h
      split at h
      · rename_i hEnd
        exact below_of_end hEnd
      · split at h
        · rename_i hSteps
          cases hSteps
        · rename_i hSteps
          cases hSteps
          split at h
          · exact .list (ih h)
          · exact .refl _
          · exact .funcArrow _ _
          · exact .arrowFunc _ _
          · split at h
            · rename_i hParent
              exact .parent hParent (ih h)
            · cases h
          · cases h

/-- What is below another type is found to be so, if there are more steps than
the type is high. -/
theorem leWithin_of_below (hr : r.Reached) (h : Below r a b) :
    ∀ {steps : Nat}, r.height a < steps → r.leWithin steps a b = true := by
  induction h with
  | refl a =>
      intro steps _
      unfold leWithin
      simp
  | top a =>
      intro steps _
      unfold leWithin
      simp [isAny, any]
  | list _ ih =>
      intro steps hHeight
      obtain ⟨steps, rfl⟩ : ∃ n, steps = n + 1 := ⟨steps - 1, by omega⟩
      rw [height_list] at hHeight
      unfold leWithin
      split
      · rfl
      · exact ih (by omega)
  | funcArrow params ret =>
      intro steps hHeight
      obtain ⟨steps, rfl⟩ : ∃ n, steps = n + 1 := ⟨steps - 1, by omega⟩
      unfold leWithin
      split <;> rfl
  | arrowFunc params ret =>
      intro steps hHeight
      obtain ⟨steps, rfl⟩ : ∃ n, steps = n + 1 := ⟨steps - 1, by omega⟩
      unfold leWithin
      split <;> rfl
  | parent hParent _ ih =>
      intro steps hHeight
      obtain ⟨steps, rfl⟩ : ∃ n, steps = n + 1 := ⟨steps - 1, by omega⟩
      rw [hr.height_named hParent] at hHeight
      unfold leWithin
      split
      · rfl
      · simp only [hParent]
        exact ih (by omega)

/-- **The order as it is decided is the order**, for types that are not too high. -/
theorem le_eq_true_iff_below (hr : r.Reached) (h : r.height a < maxDepth) :
    r.le a b = true ↔ Below r a b :=
  ⟨below_of_leWithin, fun hBelow => leWithin_of_below hr hBelow h⟩

/-! ## The order -/

namespace Below

/-- Nothing else is above `any`. -/
theorem eq_any (hr : r.Reached) (h : Below r any b) : b = any := by
  cases h with
  | refl => rfl
  | top => rfl
  | parent hParent _ =>
      rw [hr.ordered.any] at hParent
      cases hParent

/-- Going up never makes a type higher. -/
theorem height_le (hr : r.Reached) (h : Below r a b) : r.height b ≤ r.height a := by
  induction h with
  | refl a => exact Nat.le_refl _
  | top a =>
      have hAny : r.height any = 0 := height_named_of_none hr.ordered.any
      omega
  | list _ ih =>
      rw [height_list, height_list]
      omega
  | funcArrow params ret => exact Nat.le_refl _
  | arrowFunc params ret => exact Nat.le_refl _
  | parent hParent _ ih =>
      rw [hr.height_named hParent]
      omega

/-- What is between two types is left out, unless it is bare `func`. -/
theorem trans (hr : r.Reached) (hab : Below r a b) :
    ∀ {c : Ty}, b.isFuncTower = false → Below r b c → Below r a c := by
  induction hab with
  | refl a => exact fun _ hbc => hbc
  | top a =>
      intro c _ hbc
      rw [eq_any hr hbc]
      exact .top a
  | @list a b hab ih =>
      intro c hBare hbc
      cases hbc with
      | refl => exact .list hab
      | top => exact .top _
      | list hbc => exact .list (ih hBare hbc)
  | funcArrow params ret =>
      intro c _ hbc
      cases hbc with
      | refl => exact .funcArrow params ret
      | top => exact .top _
      | arrowFunc => exact .refl _
  | arrowFunc params ret =>
      intro c hBare _
      cases hBare
  | parent hParent _ ih => exact fun hBare hbc => .parent hParent (ih hBare hbc)

/-- Two types that are below each other are the same, unless one is bare `func`. -/
theorem antisymm (hr : r.Reached) (hab : Below r a b) :
    a.isFuncTower = false → b.isFuncTower = false → Below r b a → a = b := by
  induction hab with
  | refl a => exact fun _ _ _ => rfl
  | top a => exact fun _ _ hba => eq_any hr hba
  | list _ ih =>
      intro hBare hBare' hba
      cases hba with
      | refl => rfl
      | list hba => exact congrArg Ty.list (ih hBare hBare' hba)
  | funcArrow params ret =>
      intro hBare
      cases hBare
  | arrowFunc params ret =>
      intro _ hBare
      cases hBare
  | parent hParent hAbove _ =>
      -- The first step up made the type lower, and nothing below it is that low.
      intro _ _ hba
      have hUp := hAbove.height_le hr
      have hBack := hba.height_le hr
      rw [hr.height_named hParent] at hBack
      omega

/-- Lists are ordered as their elements. -/
theorem list_iff : Below r (.list a) (.list b) ↔ Below r a b := by
  constructor
  · intro h
    cases h with
    | refl => exact .refl a
    | list h => exact h
  · exact .list

end Below

/-- **Types are partially ordered, apart from bare `func`.**  In a registry that
declarations lead to, and for types no higher than the order follows, the order
is reflexive with `any` at the top; it is transitive unless the type in the
middle is bare `func` under list layers, and antisymmetric unless one of the two
is; and lists are ordered as their elements. -/
theorem le_partial_order (hr : r.Reached) (a b c : Ty) (ha : r.height a < maxDepth)
    (hb : r.height b < maxDepth) :
    r.le a a = true ∧
      r.le a any = true ∧
      (b.isFuncTower = false → r.le a b = true → r.le b c = true → r.le a c = true) ∧
      (a.isFuncTower = false → b.isFuncTower = false →
        r.le a b = true → r.le b a = true → a = b) ∧
      (r.height a + 1 < maxDepth → (r.le (.list a) (.list b) = true ↔ r.le a b = true)) := by
  simp only [le_eq_true_iff_below hr ha, le_eq_true_iff_below hr hb]
  refine ⟨.refl a, .top a, fun hBare hab hbc => hab.trans hr hBare hbc,
    fun hBare hBare' hab hba => hab.antisymm hr hBare hBare' hba, fun hList => ?_⟩
  rw [← height_list] at hList
  rw [le_eq_true_iff_below hr hList]
  exact Below.list_iff

/-- The registry with `metre` below `int` and `lengths` below lists of it. -/
def lengths : Registry :=
  { parents := ⟨[("metre", int), ("lengths", .list (.named "metre"))]⟩ }

theorem reached_lengths : lengths.Reached := by
  have hMetre : declare {} "metre" int = .ok { parents := ⟨[("metre", int)]⟩ } := rfl
  have hLengths : declare { parents := ⟨[("metre", int)]⟩ } "lengths" (.list (.named "metre")) =
      .ok lengths := rfl
  exact .declare (.declare .empty hMetre) hLengths

/-- `lengths` is below the lists of `metre`, these are below the lists of numbers,
and so `lengths` is. -/
theorem le_partial_order_of_lengths :
    lengths.height (.named "lengths") < maxDepth ∧
      lengths.le (.named "lengths") (.list (.named "metre")) = true ∧
      lengths.le (.list (.named "metre")) (.list int) = true ∧
      lengths.le (.named "lengths") (.list int) = true :=
  have hHeight : lengths.height (.named "lengths") < maxDepth := by decide
  ⟨hHeight, by decide, by decide,
    (le_partial_order reached_lengths (.named "lengths") (.list (.named "metre")) (.list int)
      hHeight (by decide)).2.2.1 rfl (by decide) (by decide)⟩

/-- Bare `func` is between function types that are not comparable. -/
example : le {} (.arrow [int] int) .func = true ∧ le {} .func (.arrow [] str) = true ∧
    le {} (.arrow [int] int) (.arrow [] str) = false := by decide

end Registry

end ClauseLisp.Ty
