import ClauseLisp.Check
import ClauseLisp.Proofs.Loading.Placement
import ClauseLisp.Proofs.Watch.Basic

/-!
# Code that has a scope of its own

What is at top level, the clauses of functions, blocks and lambdas: each of these has a
scope, which sees the scopes around it.  The machine makes it whenever the code is
entered, and the checker once, when it walks over the code.  Which names may be bound
there can be read off the code: parameters in a clause or a lambda, and what is `set`
directly inside a block or at top level.

## Main results

* `Construct.InProgram` — the constructs of a program.
* `Construct.InProgram.isPlaced` — code that a construct holds is placed.
* `Construct.InProgram.set_mem` — a `set` names what its construct may bind.
-/

namespace ClauseLisp

/-- A piece of code that has a scope of its own, with the pieces of code around it. -/
inductive Construct where
  | top
  | clause (function : String) (clause : Clause)
  | block (outer : Construct) (body : List Expr) (cast : Option Ty)
  | lambda (outer : Construct) (clause : Clause)

/-- The name that an expression sets in its own scope. -/
def Expr.setName? : Expr → Option String
  | .set name _ _ _ => some name
  | _ => none

namespace Construct

/-- The construct around it. -/
def outer? : Construct → Option Construct
  | top => none
  | clause _ _ => some top
  | block outer _ _ => some outer
  | lambda outer _ => some outer

/-- The expressions that are evaluated in its scope. -/
def code (p : Program) : Construct → List Expr
  | top => p.statements
  | clause _ c => [c.body]
  | block _ body _ => body
  | lambda _ c => [c.body]

/-- Whether its expressions may be a `set`. -/
def allowsSet : Construct → Bool
  | top => true
  | clause _ _ => false
  | block _ _ _ => true
  | lambda _ _ => false

/-- The names that may be bound in its scope itself. -/
def ownNames (p : Program) : Construct → List String
  | top => p.statements.filterMap Expr.setName?
  | clause _ c => c.params.filterMap Pattern.name?
  | block _ body _ => body.filterMap Expr.setName?
  | lambda _ c => c.params.filterMap Pattern.name?

/-- The names that may be bound, seen from its scope. -/
def names (p : Program) : Construct → List String
  | top => ownNames p top
  | clause function c => ownNames p (clause function c) ++ ownNames p top
  | block outer body cast => ownNames p (block outer body cast) ++ names p outer
  | lambda outer c => ownNames p (lambda outer c) ++ names p outer

/-- The expressions that its scope belongs to: its code, and the parts of what belongs
to it. -/
inductive Holds (p : Program) (K : Construct) : Expr → Prop where
  | code {e : Expr} : e ∈ K.code p → Holds p K e
  | part {e part : Expr} : Holds p K e → part ∈ e.parts → Holds p K part

/-- The constructs of a program. -/
inductive InProgram (p : Program) : Construct → Prop where
  | top : InProgram p .top
  | clause {name : String} {f : Function} {c : Clause} :
      p.function? name = some f → c ∈ f.clauses → InProgram p (.clause name c)
  | block {outer : Construct} {body : List Expr} {cast : Option Ty} :
      InProgram p outer → outer.Holds p (.block body cast) →
      InProgram p (.block outer body cast)
  | lambda {outer : Construct} {params : List Pattern} {ret : Option Ty} {body : Expr} :
      InProgram p outer → outer.Holds p (.lambda params ret body) →
      InProgram p (.lambda outer (Clause.ofLambda params ret body))

variable {p : Program} {K outer : Construct}

theorem ownNames_subset_names (p : Program) (K : Construct) : K.ownNames p ⊆ K.names p := by
  cases K with
  | top => exact fun _ h => h
  | _ => exact List.subset_append_left _ _

theorem names_outer_subset (p : Program) (h : K.outer? = some outer) :
    outer.names p ⊆ K.names p := by
  cases K with
  | top => cases h
  | _ => cases h; exact List.subset_append_right _ _

/-- The parts of an expression that is placed are no `set`s. -/
theorem isPlaced_of_mem_parts {allowSet : Bool} {e part : Expr}
    (h : e.isPlaced allowSet = true) (hMem : part ∈ e.parts) : part.isPlaced false = true := by
  cases e with
  | lit value => cases hMem
  | var name => cases hMem
  | cond test yes no =>
      simp only [Expr.isPlaced, Bool.and_eq_true] at h
      obtain ⟨⟨hTest, hYes⟩, hNo⟩ := h
      simp only [Expr.parts, List.mem_cons, List.not_mem_nil, or_false] at hMem
      obtain rfl | rfl | rfl := hMem <;> assumption
  | block body cast => cases hMem
  | set name ty value claims =>
      rw [Expr.isPlaced, Bool.and_eq_true] at h
      rw [List.mem_singleton.mp hMem]
      exact h.2
  | lambda params ret body => cases hMem
  | call callee args =>
      rw [Expr.isPlaced, Bool.and_eq_true] at h
      rcases List.mem_cons.mp hMem with rfl | hMem
      · exact h.1
      · exact (Expr.arePlaced_iff false args).mp h.2 part hMem
  | conj operands => exact (Expr.arePlaced_iff false operands).mp h part hMem
  | disj operands => exact (Expr.arePlaced_iff false operands).mp h part hMem

/-- What a construct holds is placed, if its code is; only its code may be a `set`. -/
theorem Holds.isPlaced (hCode : ∀ e ∈ K.code p, e.isPlaced K.allowsSet = true) {e : Expr}
    (h : K.Holds p e) :
    e.isPlaced false = true ∨ (e ∈ K.code p ∧ e.isPlaced K.allowsSet = true) := by
  induction h with
  | code hMem => exact .inr ⟨hMem, hCode _ hMem⟩
  | part _ hMem ih =>
      refine .inl ?_
      rcases ih with hPlaced | ⟨-, hPlaced⟩
      · exact isPlaced_of_mem_parts hPlaced hMem
      · exact isPlaced_of_mem_parts hPlaced hMem

namespace InProgram

variable (hPlaced : p.Placed)

include hPlaced

/-- **The code of a construct is placed**, in a program that is. -/
theorem isPlaced (h : InProgram p K) : ∀ e ∈ K.code p, e.isPlaced K.allowsSet = true := by
  induction h with
  | top => exact hPlaced.statements
  | clause hFound hMem =>
      exact List.forall_mem_singleton.mpr (hPlaced.functions _ _ hFound _ hMem)
  | block _ hHolds ih =>
      have hBody : Expr.isPlaced _ _ = true := (hHolds.isPlaced ih).elim id And.right
      exact (Expr.arePlaced_iff true _).mp hBody
  | lambda _ hHolds ih =>
      have hBody : Expr.isPlaced _ _ = true := (hHolds.isPlaced ih).elim id And.right
      exact List.forall_mem_singleton.mpr hBody

/-- **A `set` that a construct holds names what the construct may bind.** -/
theorem set_mem (h : InProgram p K) {name : String} {ty : Option Ty} {value : Expr}
    {claims : Bool} (hHolds : K.Holds p (.set name ty value claims)) : name ∈ K.ownNames p := by
  rcases hHolds.isPlaced (h.isPlaced hPlaced) with hFalse | ⟨hMem, hAllowed⟩
  · cases hFalse
  · have hName : name ∈ (K.code p).filterMap Expr.setName? := List.mem_filterMap.mpr ⟨_, hMem, rfl⟩
    cases K with
    | top => exact hName
    | block outer body cast => exact hName
    | clause function c => cases hAllowed
    | lambda outer c => cases hAllowed

end InProgram

end Construct

end ClauseLisp
