import ClauseLisp.Clause.Choice
import ClauseLisp.Program.Lowering

/-!
# Matching one argument after the other

How a value is matched with one pattern, and how the first argument and the
first clause decide whether the others are looked at.  What is said here of
sequences holds of whatever clauses are matched against, values or types.
-/

namespace ClauseLisp

open Ty (Registry Bindings)

namespace Value

/-- Whether a value starts with a strict cell. -/
def isCell : Value → Bool
  | .cell _ _ _ => true
  | _ => false

/-- Whether there is a strict empty list under the tags of a value. -/
def isStrictNil : Value → Bool
  | .nil => true
  | .tagged _ value => isStrictNil value
  | _ => false

end Value

/-- Literals are numbers, truth values, strings and the empty list. -/
def Pattern.isSimple : Pattern → Bool
  | .lit (.int _) => true
  | .lit (.bool _) => true
  | .lit (.str _) => true
  | .lit .nil => true
  | .lit _ => false
  | _ => true

/-- The patterns that parameters are read as are simple. -/
theorem Form.isSimple_of_pattern {r : Registry} {keyword : String} {form param : Form}
    {p : Pattern} (h : pattern r keyword form param = .ok p) : p.isSimple = true := by
  unfold pattern at h
  split at h
  case h_6 =>
    split at h
    · cases h
      rfl
    · cases h
  case h_7 => cases h
  all_goals
    cases h
    rfl

/-! ## Values -/

theorem fixedType?_of_not_cell {v : Value} (h : v.isCell = false) :
    v.fixedType? = some v.plainType := by
  cases v with
  | cell head tail elem => cases h
  | _ => rfl

/-- A list with a strict cell satisfies a list type if the type of its strict
part does. -/
theorem conforms_cell (r : Registry) (head tail : Value) (e declared : Ty) (b : Bindings)
    (asked : AskedTypes) :
    (Value.cell head tail (.fixed e)).conforms r declared b asked =
      ((match declared with
        | .list d => r.unify d e b
        | declared => r.unify declared (.list e) b), asked) := by
  cases declared <;> rfl

/-- A value that starts with no strict cell satisfies a list type if it is a list
at all. -/
theorem conforms_of_not_cell {v : Value} (h : v.isCell = false) (r : Registry) (declared : Ty)
    (b : Bindings) (asked : AskedTypes) :
    v.conforms r declared b asked =
      ((match declared, v.plainType with
        | .list _, .list _ => (true, b)
        | declared, ty => r.unify declared ty b), asked) := by
  cases v with
  | cell head tail elem => cases h
  | _ => cases declared <;> rfl

/-- Only a strict empty list equals the literal for it. -/
theorem same_nil (v : Value) : v.same .nil = v.isStrictNil := by
  induction v with
  | tagged tag value ih =>
      rw [Value.same, ih, Value.isStrictNil]
  | _ => simp [Value.same, Value.untagged, Value.isStrictNil, Value.isNil]

/-! ## Sequences -/

section

variable {α : Type} [Matchable α]

/-- The first argument decides whether the others are looked at. -/
theorem matchAll_cons {r : Registry} {p : Pattern} {v : α} {b b' : Bindings}
    {asked asked' : AskedTypes} {accepted : Bool}
    (h : p.match₁ r v b asked = ((accepted, b'), asked')) (ps : List Pattern)
    (arguments : List α) :
    Pattern.matchAll r (p :: ps) (v :: arguments) b asked =
      if accepted then Pattern.matchAll r ps arguments b' asked' else (none, asked') := by
  show (p.match₁ r v b >>= _) asked = _
  simp only [bind, StateT.bind, h]
  cases accepted <;> rfl

/-- The first clause decides whether the others are looked at. -/
theorem chooseFrom_cons {r : Registry} {c : Clause} {arguments : List α}
    {asked asked' : AskedTypes} {matched : Option Bindings}
    (h : c.match? r arguments asked = (matched, asked')) (index : Nat) (clauses : List Clause) :
    chooseFrom r arguments index (c :: clauses) asked =
      match matched with
      | some b => (some ⟨index, c, b⟩, asked')
      | none => chooseFrom r arguments (index + 1) clauses asked' := by
  show (c.match? r arguments >>= _) asked = _
  simp only [bind, StateT.bind, h]
  cases matched <;> rfl

/-- The chosen clause matches, and stands where it is said to stand or later. -/
theorem match?_of_chooseFrom {r : Registry} {xs : List α} {choice : Choice} :
    ∀ {clauses : List Clause} {index : Nat} {asked : AskedTypes},
      (chooseFrom r xs index clauses asked).1 = some choice →
      choice.clause ∈ clauses ∧ index ≤ choice.index ∧
        ∃ asked', (choice.clause.match? r xs asked').1 = some choice.bindings := by
  intro clauses
  induction clauses with
  | nil => exact fun h => nomatch h
  | cons c clauses ih =>
      intro index asked h
      rcases hFirst : c.match? r xs asked with ⟨matched, asked'⟩
      rw [chooseFrom_cons hFirst] at h
      cases matched with
      | some b =>
          cases h
          exact ⟨List.mem_cons_self, Nat.le_refl index, asked, by rw [hFirst]⟩
      | none =>
          obtain ⟨hMem, hIndex, hMatch⟩ := ih h
          exact ⟨List.mem_cons_of_mem c hMem, Nat.le_of_succ_le hIndex, hMatch⟩

end

end ClauseLisp
