import ClauseLisp.Machine.Eval

/-!
# Evaluation by plain recursion

The machine works on expressions in tail position by a loop.  Here is the same
language evaluated by recursion alone, without tasks, frames or results that
wait.  The chosen branch of a condition, the end of a block whose scope has
nothing to close, and the body of a call are evaluated by a recursive call on
the *same* level; everything else is evaluated one level deeper.  Each call of
a memoized function keeps its own result when its body has one, and names
itself in an error that leaves its body.

What lies between two evaluations (scopes, forcing, the choice of a clause,
memo keys, builtins) is not part of the comparison, so it is the machine's own.
-/

namespace ClauseLisp

/-- Pass on what a computation ends with: an error is wrapped with the function
whose body it leaves, a value is kept for the calls that wait for it. -/
def settling (function : Option String) (slots : List Awaited) (x : Run Value) : Run Value := do
  match ← x.outcome with
  | .error stop => throw (stop.leaving function)
  | .ok value =>
    rememberAll value slots
    return value

namespace Reference

/-- What the evaluator can be asked to do. -/
inductive Goal where
  /-- Evaluate an expression in a scope. -/
  | eval (e : Expr) (scope : Nat)
  /-- Call a value. -/
  | call (function : Value) (arguments : List Value)

/-- The body of a call, evaluated by `same`. -/
def evalBody (same : Evaluator) (activation : Activation) : Run Value :=
  settling (some activation.function) activation.memo.toList
    (same activation.body activation.scope)

/-- Evaluate a block: `same` is for its last expression, if nothing has to be
done after it, and `deeper` for all the others. -/
def evalBlock (deeper same : Evaluator) (body : List Expr) (cast : Option Ty) (scope : Nat) :
    Run Value := do
  let inner ← childScope scope
  match body.getLast? with
  | none => return .nil
  | some last =>
    match ← (evalAll deeper inner body.dropLast).outcome with
    | .error stop => leaveScope inner (.error stop)
    | .ok _ =>
      if cast.isNone && !last.isClaimingSet && !(← get).scopes.holds inner then
        same last inner
      else
        let outcome ← (evalLast deeper cast last inner).outcome
        leaveScope inner outcome

/-- Evaluate an expression: `same` evaluates on its level, `deeper` and `call`
on the next one. -/
def evalWith (deeper same : Evaluator) (call : Caller) (fuel : Nat) (scope : Nat) :
    Expr → Run Value
  | .lit value => return value
  | .var name => resolve name scope
  | .cond test yes no => do
    match (← deeper test scope).untagged with
    | .bool b => same (if b then yes else no) scope
    | other => fail (.typing (.condition ((← get).repr other)))
  | .block body cast => evalBlock deeper same body cast scope
  | .set name ty value claims => evalSet deeper name ty value claims scope
  | .lambda params ret body => newClosure (Clause.ofLambda params ret body) scope
  | .conj operands => evalLogical deeper "and" false scope operands
  | .disj operands => evalLogical deeper "or" true scope operands
  | .call callee args => do
    let function ← deeper callee scope
    let arguments ← evalAll deeper scope args
    match ← beginCall call fuel function arguments with
    | .done value => return value
    | .enter activation => evalBody same activation

/-- Do what is asked, on a level; `fuel` bounds how deeply evaluations nest,
those on one level included. -/
def exec : Nat → Nat → Goal → Run Value
  | 0, _, _ => throw .outOfFuel
  | fuel + 1, level, .eval e scope =>
    if level ≥ maxLevel then fail (.eval (.depthLimit maxLevel))
    else
      evalWith
        (fun e scope => exec fuel (level + 1) (.eval e scope))
        (fun e scope => exec fuel level (.eval e scope))
        (fun function arguments => exec fuel (level + 1) (.call function arguments))
        fuel scope e
  | fuel + 1, level, .call function arguments => do
    match ← beginCall (fun f args => exec fuel level (.call f args)) fuel function arguments with
    | .done value => return value
    | .enter activation =>
      evalBody (fun e scope => exec fuel level (.eval e scope)) activation

end Reference

end ClauseLisp
