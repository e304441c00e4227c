import ClauseLisp.Error
import ClauseLisp.Text.Quoted
import ClauseLisp.Value.Basic

/-!
# Scopes

Scopes form a tree: each has variables of its own and sees those of the scopes around it. They are
kept in a table that only grows, so a closure can refer to its scope by number and sees what is
bound there later.

A scope may hold resources. Leaving a scope freezes it, so nothing can be bound in it any more, and
hands out its resources for release, the one acquired last first.
-/

namespace ClauseLisp

/-- One scope; its resources are listed last acquired first. -/
structure Scope (ρ : Type) where
  vars : Dict Value := {}
  parent : Option Nat := none
  frozen : Bool := false
  resources : List ρ := []
deriving Inhabited

/-- A table of scopes; a scope comes after the one around it. -/
structure Scopes (ρ : Type) where
  table : Array (Scope ρ)
deriving Inhabited

namespace Scopes

variable {ρ : Type}

/-- Number of the outermost scope. -/
def globals : Nat := 0

/-- The table with the outermost scope only. -/
def root : Scopes ρ := ⟨#[{}]⟩

/-- A new scope inside another, and its number. -/
def child (ss : Scopes ρ) (s : Nat) : Nat × Scopes ρ :=
  (ss.table.size, ⟨ss.table.push { parent := some s }⟩)

/-- The scopes from `s` outward, at most so many. -/
def chainWithin (ss : Scopes ρ) : Nat → Nat → List (Scope ρ)
  | 0, _ => []
  | n + 1, s =>
    match ss.table[s]? with
    | none => []
    | some scope =>
      match scope.parent with
      | none => [scope]
      | some parent => scope :: chainWithin ss n parent

/-- The scopes from `s` outward. -/
def chain (ss : Scopes ρ) (s : Nat) : List (Scope ρ) := ss.chainWithin (s + 1) s

/-- What a name is bound to, seen from `s`; inner scopes come first. -/
def get? (ss : Scopes ρ) (s : Nat) (name : String) : Option Value :=
  (ss.chain s).findSome? fun scope => scope.vars.get? name

/-- `get?`, with an error for names that are not bound. -/
def lookup (ss : Scopes ρ) (s : Nat) (name : String) : Except Error Value :=
  match ss.get? s name with
  | some value => .ok value
  | none => .error (.unbound name)

/-- Whether a scope has been left. -/
def isFrozen (ss : Scopes ρ) (s : Nat) : Bool :=
  match ss.table[s]? with
  | some scope => scope.frozen
  | none => false

/-- Write a variable into the scope `s` itself. -/
def put (ss : Scopes ρ) (s : Nat) (name : String) (value : Value) : Scopes ρ :=
  ⟨ss.table.modify s fun scope => { scope with vars := scope.vars.insert name value }⟩

/-- Bind a name in the scope `s` itself, which must not have been left. -/
def bind (ss : Scopes ρ) (s : Nat) (name : String) (value : Value) : Except Error (Scopes ρ) :=
  if ss.isFrozen s then .error (.eval (.frozenScope name)) else .ok (ss.put s name value)

/-- Let a scope hold a resource. -/
def acquire (ss : Scopes ρ) (s : Nat) (resource : ρ) : Scopes ρ :=
  ⟨ss.table.modify s fun scope => { scope with resources := resource :: scope.resources }⟩

/-- The resources of a scope, last acquired first. -/
def resources (ss : Scopes ρ) (s : Nat) : List ρ :=
  match ss.table[s]? with
  | some scope => scope.resources
  | none => []

/-- Whether a scope holds resources. -/
def holds (ss : Scopes ρ) (s : Nat) : Bool := !(ss.resources s).isEmpty

/-- Freeze a scope and take its resources away. -/
def freeze (ss : Scopes ρ) (s : Nat) : Scopes ρ :=
  ⟨ss.table.modify s fun scope => { scope with frozen := true, resources := [] }⟩

/-- Names bound in the scope `s` itself, in order. -/
def ownNames (ss : Scopes ρ) (s : Nat) : List String :=
  match ss.table[s]? with
  | some scope => sortNames scope.vars.keys
  | none => []

/-- Names that are bound, seen from `s`, in order. -/
def names (ss : Scopes ρ) (s : Nat) : List String :=
  sortNames ((ss.chain s).flatMap fun scope => scope.vars.keys)

/-- Summary of a scope. -/
def describe (ss : Scopes ρ) (s : Nat) : String :=
  let own := (ss.ownNames s).map fun name => String.ofList (Text.spelled name.toList)
  let hasParent :=
    match ss.table[s]? with
    | some scope => scope.parent.isSome
    | none => false
  "Environment \x7b bindings: [" ++ ", ".intercalate own ++ "], has_parent: " ++
    (if hasParent then "true" else "false") ++ " \x7d"

end Scopes

/-- Release resources one after the other, all of them; the first failure is reported. -/
def releaseAll {ρ σ : Type} (release : ρ → σ → Option Error × σ) : List ρ → σ → Option Error × σ
  | [], world => (none, world)
  | resource :: rest, world =>
    match release resource world with
    | (failure, world) =>
      match releaseAll release rest world with
      | (later, world) => (failure.or later, world)

/-- The outcome of leaving a scope: the outcome of its body, unless only a release failed. -/
def outcomeAfter {ε α : Type} (fail : Error → ε) (outcome : Except ε α)
    (failure : Option Error) : Except ε α :=
  match outcome, failure with
  | .ok _, some error => .error (fail (.resource error.message))
  | outcome, _ => outcome

/-- Leave a scope: freeze it, release what it holds, and pass the outcome of its body on. -/
def Scopes.exit {ρ σ ε α : Type} (release : ρ → σ → Option Error × σ) (fail : Error → ε)
    (ss : Scopes ρ) (s : Nat) (outcome : Except ε α) (world : σ) :
    Except ε α × Scopes ρ × σ :=
  match releaseAll release (ss.resources s) world with
  | (failure, world) => (outcomeAfter fail outcome failure, ss.freeze s, world)

end ClauseLisp
