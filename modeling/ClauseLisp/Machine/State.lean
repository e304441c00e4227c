import ClauseLisp.Files.Stream
import ClauseLisp.Operation.Builtin
import ClauseLisp.Scope

/-!
# The state of a machine

Everything that evaluation can change: the program with its memo tables, scopes, lazy nodes,
closures, element types that have been asked for, open files, and what has been printed. Scopes,
nodes, closures, element types and files are tables that only grow, and values refer into them by
number.

`Run` is a computation on this state that may stop without a result. The state that it has reached
is kept in any case, since effects are not undone when something goes wrong.
-/

namespace ClauseLisp

/-- A clause together with the scope it was made in. -/
structure Closure where
  clause : Clause
  scope : Nat
deriving Inhabited

/-- An operation that the host of a program adds to the builtins. -/
structure HostOperation where
  arity : Arity
  run : Operation

/-- The state of a machine. -/
structure State where
  program : Program := {}
  scopes : Scopes Nat := Scopes.root
  nodes : LazyNodes := #[]
  closures : Array Closure := #[]
  /-- Element types of cells that have a place for them. -/
  asked : AskedTypes := #[]
  /-- Files that have been opened, by handle. -/
  streams : Array Stream := #[]
  /-- Open files that no scope has taken over, last opened first. -/
  unclaimed : List Nat := []
  /-- What has been printed. -/
  output : String := ""
  files : Files := default
  hosts : Dict HostOperation := {}
deriving Inhabited

/-- Computations on the state of a machine. -/
abbrev Run := ExceptT Stop (StateM State)

/-- Stop with an error. -/
def fail {α : Type} (error : Error) : Run α := throw (.error error)

/-- Stop with an error, or go on. -/
def Run.ofExcept {α : Type} : Except Error α → Run α
  | .ok value => pure value
  | .error error => fail error

/-- The outcome of a computation as a value. -/
def Run.outcome {α : Type} (x : Run α) : Run (Except Stop α) := fun s =>
  match x s with
  | (outcome, s) => (.ok outcome, s)

/-- Change the errors of a computation. -/
def Run.mapError {α : Type} (f : Error → Error) (x : Run α) : Run α := fun s =>
  match x s with
  | (.error (.error error), s) => (.error (.error (f error)), s)
  | (outcome, s) => (outcome, s)

/-- Ask for types. -/
def Run.typing {α : Type} (x : Typing α) : Run α := fun s =>
  match x s.asked with
  | (a, asked) => (.ok a, { s with asked })

namespace State

/-- What operations may look at. -/
def view (s : State) : View := ⟨s.nodes, s.program.types⟩

/-- Text of a value, with strings quoted. -/
def repr (s : State) (value : Value) : String := value.repr s.nodes

/-- Whether a name can be called though no variable has it. -/
def isCallable (s : State) (name : String) : Bool :=
  s.program.functions.contains name || s.program.types.isDeclared name ||
    s.hosts.contains name || (Builtin.find? name).isSome

/-- Close a file. -/
def closeStream (handle : Nat) (streams : Array Stream) : Option Error × Array Stream :=
  (none, streams.modify handle Stream.close)

end State

/-- A new scope inside another. -/
def childScope (scope : Nat) : Run Nat :=
  modifyGet fun s =>
    let (child, scopes) := s.scopes.child scope
    (child, { s with scopes })

/-- Bind a name in a scope, which must not have been left. -/
def bindIn (scope : Nat) (name : String) (value : Value) : Run Unit := do
  if (← get).scopes.isFrozen scope then
    fail (.eval (.frozenScope name))
  else
    modify fun s => { s with scopes := s.scopes.put scope name value }

/-- Leave a scope with the outcome of its body: its files are closed. -/
def leaveScope {α : Type} (scope : Nat) (outcome : Except Stop α) : Run α := fun s =>
  match s.scopes.exit State.closeStream Stop.error scope outcome s.streams with
  | (outcome, scopes, streams) => (outcome, { s with scopes, streams })

/-- A new lazy node. -/
def newNode (iterator state : Value) : Run Value :=
  modifyGet fun s =>
    (.lazy s.nodes.size, { s with nodes := s.nodes.push { iterator, state } })

/-- A value that an operation has made, with places for the types that it leaves pending. -/
def newValue (value : Value) : Run Value :=
  match value with
  | .cell _ _ (.pending none) => Run.typing value.place
  | value => return value

end ClauseLisp
