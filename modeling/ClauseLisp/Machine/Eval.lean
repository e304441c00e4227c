import ClauseLisp.Machine.Call

/-!
# Evaluation

Evaluation runs in a loop over tasks. A task is an expression in a scope, together with the function
whose body it belongs to and the memo slots that wait for its value. One step of the loop either has
the value of the task or goes on with another task: the chosen branch of a condition, the end of a
block, the body of a call. So expressions in tail position do not nest, and a chain of tail calls
shares one value. Everything else is evaluated by a loop of its own one level deeper, and the number
of levels is limited.

`exec` ties the knot: `fuel` bounds the number of steps of each loop and how deeply loops and calls
nest, and running out of it is told apart from every error of the program.
-/

namespace ClauseLisp

/-- Number of levels on which evaluation may nest. -/
def maxLevel : Nat := 1000

/-- What a loop is working on. -/
structure Task where
  expr : Expr
  scope : Nat
  /-- The function whose body is evaluated. -/
  function : Option String := none
  /-- The results that wait for the value. -/
  pending : List Awaited := []
deriving Inhabited

/-- Go on with the body of a call. -/
def Task.enter (task : Task) (activation : Activation) : Task :=
  ⟨activation.body, activation.scope, some activation.function,
    activation.memo.toList ++ task.pending⟩

/-- The task of evaluating the body of a call. -/
def Activation.task (activation : Activation) : Task :=
  ⟨activation.body, activation.scope, some activation.function, activation.memo.toList⟩

/-- What one step of a loop gives. -/
inductive Progress where
  | done (value : Value)
  | next (task : Task)
deriving Inhabited

/-- The way to evaluate an expression in a scope, one level deeper. -/
abbrev Evaluator := Expr → Nat → Run Value

/-- The value of a variable: what is bound comes first, then what can be called by name. -/
def resolve (name : String) (scope : Nat) : Run Value := do
  let s ← get
  match s.scopes.get? scope name with
  | some value => return value
  | none => if s.isCallable name then return .func name else fail (.unbound name)

/-- Evaluate expressions one after the other. -/
def evalAll (eval : Evaluator) (scope : Nat) : List Expr → Run (List Value)
  | [] => return []
  | e :: es => do
    let value ← eval e scope
    let values ← evalAll eval scope es
    return value :: values

/-- Evaluate the operands of `and` or `or`, up to the first that is `decisive`. -/
def evalLogical (eval : Evaluator) (form : String) (decisive : Bool) (scope : Nat) :
    List Expr → Run Value
  | [] => return .bool !decisive
  | e :: es => do
    match (← eval e scope).untagged with
    | .bool b => if b = decisive then return .bool b else evalLogical eval form decisive scope es
    | other => fail (.typing (.operand form ((← get).repr other)))

/-- Let a scope take over the files opened since there were `mark` unclaimed ones. -/
def claimSince (mark : Nat) (scope : Nat) : Run Unit :=
  modify fun s =>
    let fresh := s.unclaimed.length - mark
    { s with
      scopes := (s.unclaimed.take fresh).foldr (fun handle ss => ss.acquire scope handle) s.scopes
      unclaimed := s.unclaimed.drop fresh }

/-- Evaluate a `set`. -/
def evalSet (eval : Evaluator) (name : String) (ty : Option Ty) (value : Expr) (claims : Bool)
    (scope : Nat) : Run Value := do
  let mark := (← get).unclaimed.length
  let value ← eval value scope
  let value ←
    match ty with
    | some ty => requireType "set" ty value
    | none => pure value
  if claims then
    claimSince mark scope
  bindIn scope name value
  return value

/-- Evaluate the last expression of a block whose scope has to be left afterwards. -/
def evalLast (eval : Evaluator) (cast : Option Ty) (last : Expr) (scope : Nat) : Run Value := do
  let value ← eval last scope
  match cast with
  | some ty => requireType "do" ty value
  | none => return value

/-- Evaluate a block. Its last expression is in tail position, unless its value must be checked or
the scope has files to close. -/
def evalBlock (eval : Evaluator) (task : Task) (body : List Expr) (cast : Option Ty) :
    Run Progress := do
  let scope ← childScope task.scope
  match body.getLast? with
  | none => return .done .nil
  | some last =>
    match ← (evalAll eval scope body.dropLast).outcome with
    | .error stop => leaveScope scope (.error stop)
    | .ok _ =>
      if cast.isNone && !last.isClaimingSet && !(← get).scopes.holds scope then
        return .next { task with expr := last, scope }
      else
        let outcome ← (evalLast eval cast last scope).outcome
        return .done (← leaveScope scope outcome)

/-- Make a closure. -/
def newClosure (clause : Clause) (scope : Nat) : Run Value :=
  modifyGet fun s =>
    (.lambda s.closures.size, { s with closures := s.closures.push ⟨clause, scope⟩ })

/-- One step of a loop. -/
def step (eval : Evaluator) (call : Caller) (fuel : Nat) (task : Task) : Run Progress := do
  match task.expr with
  | .lit value => return .done value
  | .var name => return .done (← resolve name task.scope)
  | .cond test yes no =>
    match (← eval test task.scope).untagged with
    | .bool b => return .next { task with expr := if b then yes else no }
    | other => fail (.typing (.condition ((← get).repr other)))
  | .block body cast => evalBlock eval task body cast
  | .set name ty value claims => return .done (← evalSet eval name ty value claims task.scope)
  | .lambda params ret body =>
    return .done (← newClosure (Clause.ofLambda params ret body) task.scope)
  | .conj operands => return .done (← evalLogical eval "and" false task.scope operands)
  | .disj operands => return .done (← evalLogical eval "or" true task.scope operands)
  | .call callee args =>
    let function ← eval callee task.scope
    let arguments ← evalAll eval task.scope args
    match ← beginCall call fuel function arguments with
    | .done value => return .done value
    | .enter activation => return .next (task.enter activation)

/-- Wrap an error that leaves the body of a function. -/
def Stop.leaving (function : Option String) : Stop → Stop
  | .error e =>
    match function with
    | some name => .error (.inCall name e)
    | none => .error e
  | stop => stop

/-- Keep a value for all the calls that wait for it. -/
def rememberAll (value : Value) (slots : List Awaited) : Run Unit :=
  modify fun s =>
    { s with
      program := slots.foldl (fun p slot => p.remember slot.function slot.key value) s.program }

/-- Work on a task until it has a value; `fuel` bounds the number of steps. -/
def loop (step : Task → Run Progress) : Nat → Task → Run Value
  | 0, _ => throw .outOfFuel
  | fuel + 1, task => do
    match ← (step task).outcome with
    | .error stop => throw (stop.leaving task.function)
    | .ok (.next task) => loop step fuel task
    | .ok (.done value) =>
      rememberAll value task.pending
      return value

/-- What a machine can be asked to do. -/
inductive Request where
  /-- Work on a task. -/
  | work (task : Task)
  /-- Call a value. -/
  | call (function : Value) (arguments : List Value)
deriving Inhabited

/-- Do what is asked, on a level. -/
def exec : Nat → Nat → Request → Run Value
  | 0, _, _ => throw .outOfFuel
  | fuel + 1, level, .work task =>
    if level ≥ maxLevel then fail (.eval (.depthLimit maxLevel))
    else
      loop
        (step
          (fun e scope => exec fuel (level + 1) (.work { expr := e, scope }))
          (fun function arguments => exec fuel (level + 1) (.call function arguments))
          fuel)
        fuel task
  | fuel + 1, level, .call function arguments => do
    match ← beginCall (fun f args => exec fuel level (.call f args)) fuel function arguments with
    | .done value => return value
    | .enter activation => exec fuel level (.work activation.task)

end ClauseLisp
