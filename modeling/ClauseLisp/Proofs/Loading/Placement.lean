import ClauseLisp.Proofs.Loading.Additions

/-!
# Where names are bound

A `set` writes to the scope that it is evaluated in, and a `set'` hands files over
to it.  Both are accepted only directly inside a block, whose scope is its own, or
at top level.  This is what makes it possible to say, of all other expressions,
that they leave the scopes around them alone.

## Main results

* `Form.Lowered.isPlaced` — lowering accepts no `set` elsewhere.
* `placed_absorb` — a load keeps this so, also one that fails.
-/

namespace ClauseLisp

open Ty (Registry)

mutual

/-- Whether every `set` in an expression stands directly inside a block; the
expression may be one itself if `allowSet` says so. -/
def Expr.isPlaced (allowSet : Bool) : Expr → Bool
  | .lit _ => true
  | .var _ => true
  | .cond test yes no => isPlaced false test && isPlaced false yes && isPlaced false no
  | .block body _ => arePlaced true body
  | .set _ _ value _ => allowSet && isPlaced false value
  | .lambda _ _ body => isPlaced false body
  | .call callee args => isPlaced false callee && arePlaced false args
  | .conj operands => arePlaced false operands
  | .disj operands => arePlaced false operands

/-- `isPlaced` for each of several expressions. -/
def Expr.arePlaced (allowSet : Bool) : List Expr → Bool
  | [] => true
  | e :: es => isPlaced allowSet e && arePlaced allowSet es

end

theorem Expr.arePlaced_iff (allowSet : Bool) (es : List Expr) :
    Expr.arePlaced allowSet es = true ↔ ∀ e ∈ es, e.isPlaced allowSet = true := by
  induction es with
  | nil => simp [Expr.arePlaced]
  | cons e es ih => rw [Expr.arePlaced, Bool.and_eq_true, ih, List.forall_mem_cons]

/-- Where no `set` may stand, an expression is placed wherever it stands. -/
theorem Expr.isPlaced_of_false {e : Expr} (allowSet : Bool) (h : e.isPlaced false = true) :
    e.isPlaced allowSet = true := by
  cases e with
  | set name ty value claims => cases h
  | _ => exact h

/-- **Lowering accepts `set` only where it writes to its own scope.** -/
theorem Form.Lowered.isPlaced {r : Registry} {allowSet : Bool} {e : Expr}
    (h : Form.Lowered r allowSet e) : e.isPlaced allowSet = true := by
  induction h with
  | lit form => rfl
  | var name => rfl
  | cond _ _ _ hTest hYes hNo => rw [Expr.isPlaced, hTest, hYes, hNo]; rfl
  | block _ _ _ ih => exact (Expr.arePlaced_iff true _).mpr ih
  | set name claims _ _ ih => exact ih
  | lambda _ _ ih => exact ih
  | call _ _ hCallee hArgs =>
      rw [Expr.isPlaced, hCallee, (Expr.arePlaced_iff false _).mpr hArgs]
      rfl
  | conj _ _ ih => exact (Expr.arePlaced_iff false _).mpr ih
  | disj _ _ ih => exact (Expr.arePlaced_iff false _).mpr ih

/-! ## Loaded programs -/

/-- Everything in a program that can be evaluated is placed. -/
structure Program.Placed (p : Program) : Prop where
  functions : ∀ name f, p.functions.get? name = some f →
    ∀ c ∈ f.clauses, c.body.isPlaced false = true
  statements : ∀ e ∈ p.statements, e.isPlaced true = true

namespace Program

/-- A program stays placed when it grows. -/
theorem Placed.grows {p p' : Program} (h : p.Placed) (hGrows : p.GrowsTo p') : p'.Placed := by
  refine ⟨fun name f hGet c hc => ?_, fun e he => ?_⟩
  · rcases hGrows.functions name f hGet with hBefore | hNew
    · exact h.functions name f hBefore c hc
    · exact (hNew.2.clauses c hc).body.isPlaced
  · exact (hGrows.statements e he).elim (h.statements e) Form.Lowered.isPlaced

/-- The outcome of a load with placed code: the program is placed, and so are the
expressions that have been added. -/
structure PlacedOutcome (outcome : Except Stop (List Expr) × Program) : Prop where
  program : outcome.2.Placed
  added : ∀ added, outcome.1 = .ok added → ∀ e ∈ added, e.isPlaced true = true

/-- **A load keeps all code placed**, also a load that fails midway. -/
theorem placed_absorb {load : Loader} {fuel : Nat} {source : String} {p : Program}
    (h : p.Placed) : PlacedOutcome (absorb load fuel source p) := by
  obtain ⟨hGrows, hAdded⟩ := absorb_adds load fuel source p
  exact ⟨h.grows hGrows, fun added hOk e he => (hAdded added hOk e he).isPlaced⟩

end Program

end ClauseLisp
