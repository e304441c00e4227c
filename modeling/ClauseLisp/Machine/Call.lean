import ClauseLisp.Machine.Intrinsic
import ClauseLisp.Machine.CallKey

/-!
# Calls

A call of a function or a lambda selects a clause and gets a scope with its parameters; its body is
left to be evaluated. Everything else is done at once: type constructors, operations of the host,
builtins, and calls of memoized functions whose result is known.

Before a clause is selected, lazy lists are forced as far as literal patterns have to see them. The
memo key of a call is made after the choice, and the memo table is asked then.
-/

namespace ClauseLisp

/-- A result that a memo table waits for: the function and the key. -/
structure Awaited where
  function : String
  key : String
deriving Repr, DecidableEq, Inhabited

/-- A call whose body is to be evaluated. -/
structure Activation where
  function : String
  body : Expr
  scope : Nat
  memo : Option Awaited
deriving Inhabited

/-- What has become of a call. -/
inductive Begun where
  | done (value : Value)
  | enter (activation : Activation)
deriving Inhabited

/-- Force arguments where a literal may have to be compared with them. -/
def exposeWhere (call : Caller) (isLiteral : Nat → Bool) : Nat → List Value → Run (List Value)
  | _, [] => return []
  | position, argument :: arguments => do
    let argument ← if isLiteral position then exposeHead call argument else pure argument
    let arguments ← exposeWhere call isLiteral (position + 1) arguments
    return argument :: arguments

/-- Bind the parameters of a clause. -/
def bindArguments (scope : Nat) : List Pattern → List Value → Run Unit
  | p :: ps, argument :: arguments => do
    match p.name? with
    | some name => bindIn scope name argument
    | none => pure ()
    bindArguments scope ps arguments
  | _, _ => return ()

/-- The clause that accepts the arguments. -/
def chooseClause (name : String) (clauses : List Clause) (arguments : List Value) : Run Clause := do
  let r := (← get).program.types
  match ← Run.typing (choose? r clauses arguments) with
  | some choice => return choice.clause
  | none => fail (.dispatch name (arguments.map (← get).repr))

/-- The value itself, if it satisfies a type. -/
def requireType (context : String) (ty : Ty) (value : Value) : Run Value := do
  let r := (← get).program.types
  let (accepted, _) ← Run.typing (value.conforms r ty Dict.empty)
  if accepted then return value
  else fail (.cast context ty.text ((← get).repr value) 0)

/-- Tag a value with a declared type. -/
def tagChecked (name : String) (parent : Ty) (arguments : List Value) : Run Value := do
  match arguments with
  | [argument] =>
    let value ← requireType name parent argument
    return value.tag name
  | _ => fail (.arity 1 arguments.length none)

/-- Call a lambda. -/
def beginClosure (call : Caller) (closure : Closure) (arguments : List Value) : Run Begun := do
  let clause := closure.clause
  if clause.params.length ≠ arguments.length then
    fail (.arity clause.params.length arguments.length none)
  let arguments ← exposeWhere call clause.litAt 0 arguments
  let clause ← chooseClause "lambda" [clause] arguments
  let scope ← childScope closure.scope
  bindArguments scope clause.params arguments
  return .enter ⟨"lambda", clause.body, scope, none⟩

/-- Enter a clause of a function. -/
def beginClause (name : String) (clause : Clause) (arguments : List Value)
    (memo : Option Awaited) : Run Begun := do
  let scope ← childScope Scopes.globals
  bindArguments scope clause.params arguments
  return .enter ⟨name, clause.body, scope, memo⟩

/-- The result of a function that is kept under a key. -/
def remembered (name key : String) : Run (Option Value) := do
  return ((← get).program.function? name).bind fun f => f.memo.get? key

/-- Call a function of the program. -/
def beginFunction (call : Caller) (fuel : Nat) (name : String) (clauses : List Clause)
    (isLiteral : Nat → Bool) (arguments : List Value) : Run Begun := do
  let arguments ← exposeWhere call isLiteral 0 arguments
  let clause ← chooseClause name clauses arguments
  if clause.memoize then
    let key ← callKey call fuel arguments
    match ← remembered name key with
    | some value => return .done value
    | none => beginClause name clause arguments (some ⟨name, key⟩)
  else
    beginClause name clause arguments none

/-- Call by name: functions of the program come first, then type constructors, operations of the
host and builtins. -/
def beginByName (call : Caller) (fuel : Nat) (name : String) (arguments : List Value) :
    Run Begun := do
  let s ← get
  match s.program.function? name with
  | some f => beginFunction call fuel name f.clauses f.litAt arguments
  | none =>
    match s.program.types.parent? name with
    | some parent => return .done (← tagChecked name parent arguments)
    | none =>
      match s.hosts.get? name with
      | some host =>
        match host.arity.fault? arguments.length with
        | some error => fail error
        | none =>
          let value ← Run.mapError (Error.inOperation name)
            (Run.ofExcept (host.run s.view arguments))
          return .done (← newValue value)
      | none =>
        match Builtin.find? name with
        | some b =>
          match b.arity.fault? arguments.length with
          | some error => fail error
          | none =>
            return .done (← Run.mapError (Error.inOperation name) (b.run call fuel arguments))
        | none => fail (.unbound name)

/-- Call a value. -/
def beginCall (call : Caller) (fuel : Nat) (function : Value) (arguments : List Value) :
    Run Begun := do
  match function.untagged with
  | .lambda id =>
    match (← get).closures[id]? with
    | some closure => beginClosure call closure arguments
    | none => fail (.eval (.notFunction "#<lambda>"))
  | .func name => beginByName call fuel name arguments
  | other => fail (.eval (.notFunction ((← get).repr other)))

end ClauseLisp
