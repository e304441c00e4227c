import ClauseLisp.Machine.Eval

/-!
# Sessions

A session is a machine that is given source texts, calls and whole runs one after the other. Each
of them works on the state that the one before has left, whatever its outcome was. Files that no
scope has taken over are closed at the end of each; a run also leaves the outermost scope, after
which nothing can be bound there any more.
-/

namespace ClauseLisp

namespace Session

/-- Evaluate an expression in the outermost scope. -/
def evalGlobal (fuel : Nat) (e : Expr) : Run Value :=
  exec fuel 0 (.work { expr := e, scope := Scopes.globals })

/-- Evaluate statements one after the other; the value of the last counts. -/
def evalInOrder (fuel : Nat) (last : Value) : List Expr → Run Value
  | [] => return last
  | e :: es => do
    let value ← evalGlobal fuel e
    evalInOrder fuel value es

/-- Close the files that no scope has taken over, the one opened last first. -/
def closeUnclaimed {α : Type} (outcome : Except Stop α) : Run α := fun s =>
  match releaseAll State.closeStream s.unclaimed s.streams with
  | (failure, streams) =>
    (outcomeAfter Stop.error outcome failure, { s with streams, unclaimed := [] })

/-- Load a source text into the program, as far as it goes. -/
def load (loader : Loader) (fuel : Nat) (source : String) : Run (List Expr) := fun s =>
  match Program.absorb loader fuel source s.program with
  | (outcome, program) => (outcome, { s with program })

/-- Load a source text and evaluate what it adds at top level. -/
def evalText (loader : Loader) (fuel : Nat) (source : String) : Run Value := do
  let statements ← load loader fuel source
  let outcome ← (evalInOrder fuel .nil statements).outcome
  closeUnclaimed outcome

/-- Evaluate everything at top level, and leave the outermost scope. -/
def run (fuel : Nat) : Run Value := do
  let outcome ← (evalInOrder fuel .nil (← get).program.statements).outcome
  let outcome ← (closeUnclaimed outcome).outcome
  leaveScope Scopes.globals outcome

/-- Call a value with arguments. -/
def apply (fuel : Nat) (function : Value) (arguments : List Value) : Run Value :=
  exec fuel 0 (.call function arguments)

/-- Run a builtin on arguments as they are: their number is not checked first, and errors do not
name the builtin. -/
def applyBuiltin (fuel : Nat) (b : Builtin) (arguments : List Value) : Run Value :=
  b.run (apply fuel) fuel arguments

/-- A value together with its type, which counts as asked for from then on. -/
def withType (x : Run Value) : Run (Value × Ty) := do
  let value ← x
  let ty ← Run.typing (value.typeOf (← get).program.types)
  return (value, ty)

/-- A bound on the number of steps that no run reaches. -/
def unlimited : Nat := 1000000000000000

/-- The machine of a loaded program. -/
def start (program : Program) : State := { program }

end Session

end ClauseLisp
