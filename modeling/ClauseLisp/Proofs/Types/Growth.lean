import ClauseLisp.Proofs.Types.PartialOrder

/-!
# Registries grow

A session declares types while it runs.  What has been declared stays as it is: a
name that is taken keeps its parent, so that whatever has been found out about known
types holds of later registries as well.

## Main results

* `Registry.Declares.parent?` — later declarations do not move a name that is taken.
* `Registry.Reached.parent?_builtin`, `Registry.Reached.hasVars_parent` — built-in
  names have no parents, and parents have no variables.
-/

namespace ClauseLisp.Ty.Registry

/-- The registries that declarations lead to from one. -/
inductive Declares (r : Registry) : Registry → Prop
  | refl : Declares r r
  | declare {r' r'' : Registry} {name : String} {parent : Ty} :
      Declares r r' → r'.declare name parent = .ok r'' → Declares r r''
  | declareVariable {r' r'' : Registry} {name : String} {bound : Option Ty} :
      Declares r r' → r'.declareVariable name bound = .ok r'' → Declares r r''

/-- A declaration leaves the parents of other names alone. -/
theorem parent?_declare {r r' : Registry} {name : String} {parent : Ty}
    (h : r.declare name parent = .ok r') {other : String} (hOther : other ≠ name) :
    r'.parent? other = r.parent? other := by
  obtain ⟨-, resolved, -, -, rfl⟩ := declare_ok h
  have hInsert := Dict.get?_insert r.parents name resolved other
  rw [if_neg hOther.symm] at hInsert
  exact hInsert

theorem parent?_declareVariable {r r' : Registry} {name : String} {bound : Option Ty}
    (h : r.declareVariable name bound = .ok r') (other : String) :
    r'.parent? other = r.parent? other := by
  obtain ⟨-, resolved, -, rfl⟩ := declareVariable_ok h
  rfl

/-- A name that is taken is not the one that a declaration declares. -/
theorem ne_of_isTaken {r r' : Registry} {name other : String} {parent : Ty}
    (h : r.declare name parent = .ok r') (hTaken : r.isTaken other = true) : other ≠ name := by
  have hFree : r.isTaken name = false := (declare_ok h).1
  rintro rfl
  rw [hFree] at hTaken
  cases hTaken

namespace Declares

variable {r r' r'' : Registry}

theorem trans (h : Declares r r') (h' : Declares r' r'') : Declares r r'' := by
  induction h' with
  | refl => exact h
  | declare _ hDeclare ih => exact .declare ih hDeclare
  | declareVariable _ hDeclare ih => exact .declareVariable ih hDeclare

theorem reached (h : Declares r r') (hr : r.Reached) : r'.Reached := by
  induction h with
  | refl => exact hr
  | declare _ hDeclare ih => exact .declare ih hDeclare
  | declareVariable _ hDeclare ih => exact .declareVariable ih hDeclare

theorem isTaken (h : Declares r r') {name : String} (hTaken : r.isTaken name = true) :
    r'.isTaken name = true := by
  induction h with
  | refl => exact hTaken
  | declare _ hDeclare ih =>
      obtain ⟨-, resolved, -, -, rfl⟩ := declare_ok hDeclare
      exact isTaken_insert_parent _ _ _ ih
  | declareVariable _ hDeclare ih =>
      obtain ⟨-, resolved, -, rfl⟩ := declareVariable_ok hDeclare
      exact isTaken_insert_bound _ _ _ ih

theorem knows (h : Declares r r') {t : Ty} (hKnown : r.knows t = true) : r'.knows t = true :=
  knows_mono (fun _ => h.isTaken) hKnown

/-- **A name that is taken keeps its parent.** -/
theorem parent? (h : Declares r r') {name : String} (hTaken : r.isTaken name = true) :
    r'.parent? name = r.parent? name := by
  induction h with
  | refl => rfl
  | declare hBefore hDeclare ih =>
      have hOther := ne_of_isTaken hDeclare (hBefore.isTaken hTaken)
      exact (parent?_declare hDeclare hOther).trans ih
  | declareVariable _ hDeclare ih => exact (parent?_declareVariable hDeclare name).trans ih

end Declares

theorem isTaken_of_parent? {r : Registry} {name : String} {parent : Ty}
    (h : r.parent? name = some parent) : r.isTaken name = true := by
  have hContains : r.parents.contains name = true := by
    rw [Dict.contains, show r.parents.get? name = some parent from h]
    rfl
  rw [isTaken, hContains, Bool.or_true, Bool.true_or]

theorem Declares.parent?_of_some {r r' : Registry} (h : Declares r r') {name : String}
    {parent : Ty} (hParent : r.parent? name = some parent) : r'.parent? name = some parent :=
  (h.parent? (isTaken_of_parent? hParent)).trans hParent

/-- A built-in name has no parent. -/
theorem Reached.parent?_builtin {r : Registry} (hr : r.Reached) {name : String}
    (h : builtinNames.contains name = true) : r.parent? name = none := by
  have hTaken : ∀ r : Registry, r.isTaken name = true := fun r => by
    rw [isTaken, h, Bool.true_or, Bool.true_or, Bool.true_or]
  induction hr with
  | empty => rfl
  | @declare r r' _ _ _ hDeclare ih =>
      exact (parent?_declare hDeclare (ne_of_isTaken hDeclare (hTaken r))).trans ih
  | declareVariable _ hDeclare ih => exact (parent?_declareVariable hDeclare name).trans ih

/-- Parents have no variables. -/
theorem Reached.hasVars_parent {r : Registry} (hr : r.Reached) {name : String} {parent : Ty}
    (h : r.parent? name = some parent) : parent.hasVars = false := by
  induction hr with
  | empty => cases h
  | @declare r _ child _ _ hDeclare ih =>
      obtain ⟨-, resolved, -, hClosed, rfl⟩ := declare_ok hDeclare
      replace h : (r.parents.insert child resolved).get? name = some parent := h
      rw [Dict.get?_insert] at h
      split at h
      · cases h
        exact hClosed
      · exact ih h
  | declareVariable _ hDeclare ih =>
      rw [parent?_declareVariable hDeclare name] at h
      exact ih h

end ClauseLisp.Ty.Registry
