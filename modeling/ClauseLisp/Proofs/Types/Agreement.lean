import ClauseLisp.Proofs.Types.Unification

/-!
# Matching where there is nothing to infer

Types are compared in two ways.  A cast, a type constructor or a typed parameter
matches a declared type; joins, bounds and the check of literals ask the order.
The two go different ways: a match follows the parents of the actual type only
after the shapes have been compared, asks the order anew at each declared name,
and does not look for ancestors inside signatures.

Without variables all of this comes to the same.  A match only ever touches
bindings where the declared type has a variable, and it accepts what is below the
declared type, if one does not have to go too far up for it.

## Main results

* `Registry.unifyWithin_leaves` — without variables a match leaves bindings alone.
* `Registry.unify_eq_le` — without variables matching is the order.
-/

namespace ClauseLisp.Ty.Registry

variable {r : Registry}

/-! ## Bindings -/

/-- A way to match that leaves bindings alone where the declared type has no variables. -/
def Leaves (match₁ : Ty → Ty → Bindings → Bool × Bindings) : Prop :=
  ∀ (declared actual : Ty) (b : Bindings), declared.hasVars = false → (match₁ declared actual b).2 = b

namespace Leaves

variable {match₁ : Ty → Ty → Bindings → Bool × Bindings}

theorem each (h : Leaves match₁) :
    ∀ (ds as : List Ty) (b : Bindings), anyVars ds = false → (unifyEach match₁ ds as b).2 = b
  | [], [], _, _ => rfl
  | [], _ :: _, _, _ => rfl
  | _ :: _, [], _, _ => rfl
  | d :: ds, a :: as, b, hVars => by
    rw [anyVars, Bool.or_eq_false_iff] at hVars
    have hFirst : (match₁ d a b).2 = b := h d a b hVars.1
    rw [unifyEach]
    rcases hMatch : match₁ d a b with ⟨accepted, middle⟩
    rw [hMatch] at hFirst
    replace hFirst : middle = b := hFirst
    subst hFirst
    cases accepted with
    | false => rfl
    | true => exact each h ds as middle hVars.2

theorem signature (h : Leaves match₁) {ps : List Ty} {t : Ty} (qs : List Ty) (u : Ty) (b : Bindings)
    (hVars : (Ty.arrow ps t).hasVars = false) : (unifySignature match₁ ps t qs u b).2 = b := by
  rw [hasVars, Bool.or_eq_false_iff] at hVars
  have hParams : (unifyEach match₁ ps qs b).2 = b := h.each ps qs b hVars.1
  rw [unifySignature]
  split
  · rcases hMatch : unifyEach match₁ ps qs b with ⟨accepted, middle⟩
    rw [hMatch] at hParams
    replace hParams : middle = b := hParams
    subst hParams
    cases accepted with
    | false => rfl
    | true => exact h t u middle hVars.2
  · rfl

end Leaves

/-- Inside function types, a match without variables leaves bindings alone. -/
theorem matchExactlyWithin_leaves (r : Registry) (steps : Nat) :
    Leaves (r.matchExactlyWithin steps) := by
  induction steps with
  | zero => exact fun _ _ _ _ => rfl
  | succ steps ih =>
      intro declared actual b hVars
      unfold matchExactlyWithin
      split
      · cases hVars
      · exact ih _ _ b hVars
      · exact ih.signature _ _ b hVars
      · rfl

/-- **Without variables a match leaves bindings alone**, whether it succeeds or fails. -/
theorem unifyWithin_leaves (r : Registry) (steps : Nat) : Leaves (r.unifyWithin steps) := by
  induction steps with
  | zero =>
      intro declared actual b _
      unfold unifyWithin
      split <;> rfl
  | succ steps ih =>
      intro declared actual b hVars
      unfold unifyWithin
      split
      · rfl
      · split
        · rfl
        · rename_i hSteps
          cases hSteps
          split
          · cases hVars
          · exact ih _ _ b hVars
          · rfl
          · rfl
          · rfl
          · exact (matchExactlyWithin_leaves r steps).signature _ _ b hVars
          · split
            · rfl
            · split
              · exact ih _ _ b hVars
              · rfl
          · rfl
          · rfl

/-! ## The order -/

/-- **Without variables matching is the order.**  In a registry that declarations lead
to, a declared type without variables is matched with a type that is no higher than a
match follows exactly if that type is acceptable for it, and whatever was bound stays
as it was. -/
theorem unify_eq_le (hr : r.Reached) {declared actual : Ty} (hClosed : declared.hasVars = false)
    (hLow : r.fullHeight actual < maxDepth) (b : Bindings) :
    r.unify declared actual b = (r.le actual declared, b) := by
  have hHeight : r.height actual < maxDepth :=
    Nat.lt_of_le_of_lt (r.height_le_fullHeight actual) hLow
  have hAccepted : (r.unify declared actual b).1 = r.le actual declared := by
    rw [Bool.eq_iff_iff, unify_eq_true_iff_below hr hClosed hLow, le_eq_true_iff_below hr hHeight]
  exact Prod.ext hAccepted (unifyWithin_leaves r maxDepth declared actual b hClosed)

/-- Lists of lengths are found below lists of numbers by way of two parents, and what
`a` stands for is not looked at. -/
theorem unify_eq_le_of_lengths :
    hasVars (.list (.list int)) = false ∧
      lengths.fullHeight (.list (.named "lengths")) < maxDepth ∧
      lengths.le (.list (.named "lengths")) (.list (.list int)) = true ∧
      lengths.unify (.list (.list int)) (.list (.named "lengths")) ⟨[("a", str)]⟩ =
        (true, ⟨[("a", str)]⟩) := by
  have hClosed : hasVars (.list (.list int)) = false := rfl
  have hLow : lengths.fullHeight (.list (.named "lengths")) < maxDepth := by decide
  have hLe : lengths.le (.list (.named "lengths")) (.list (.list int)) = true := by decide
  refine ⟨hClosed, hLow, hLe, ?_⟩
  rw [unify_eq_le reached_lengths hClosed hLow, hLe]

/-- A type that is too high is below itself, but not matched with itself. -/
example : let high := Nat.repeat Ty.list maxDepth int
    lengths.le high high = true ∧ (lengths.unify high high Dict.empty).1 = false := by decide

end ClauseLisp.Ty.Registry
