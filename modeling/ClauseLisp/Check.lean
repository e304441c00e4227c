import ClauseLisp.Operation.Builtin
import ClauseLisp.Program.Loading

/-!
# Checking programs

The checker walks a program with types where evaluation has values. Every call whose callee is known
goes through the same clause choice, over the types of its arguments. What is unknown, `any` and
lists of `any`, is accepted everywhere and left to evaluation. Checking never stops at a fault: all
diagnostics are collected, those from the body of a function wrapped with its name.
-/

namespace ClauseLisp

namespace Check

/-- The function whose clause is checked. -/
structure Context where
  function : String
  pure : Bool
deriving Repr, Inhabited

/-- The types of the variables in scope, and the diagnostics so far, last first. -/
structure Findings where
  scope : Dict Ty := {}
  diagnostics : List Error := []
deriving Inhabited

/-- Checking one part of a program after the other. -/
abbrev Checking := StateM Findings

/-- Report a diagnostic. -/
def report (context : Option Context) (error : Error) : Checking Unit :=
  modify fun f =>
    let error :=
      match context with
      | some c => .inCall c.function error
      | none => error
    { f with diagnostics := error :: f.diagnostics }

/-- Set the type of a variable. -/
def declare (name : String) (ty : Ty) : Checking Unit :=
  modify fun f => { f with scope := f.scope.insert name ty }

/-- Names that expressions will set are known from the start, so that lambdas made before can use
them. -/
def withSetNames (scope : Dict Ty) : List Expr → Dict Ty
  | [] => scope
  | .set name _ _ _ :: es => withSetNames (scope.insertNew name Ty.any) es
  | _ :: es => withSetNames scope es

/-- Work in another scope, and come back. -/
def inScope {α : Type} (scope : Dict Ty) (x : Checking α) : Checking α := do
  let outer := (← get).scope
  modify fun f => { f with scope }
  let result ← x
  modify fun f => { f with scope := outer }
  return result

/-- The type of a parameter inside the body; type variables are unknown there. -/
def assumed? : Pattern → Option (String × Ty)
  | .lit _ => none
  | .bind name => some (name, Ty.any)
  | .typed name ty => some (name, ty.erase)

/-- A scope with parameters. -/
def withParams (scope : Dict Ty) : List Pattern → Dict Ty
  | [] => scope
  | p :: ps =>
    match assumed? p with
    | some (name, ty) => withParams (scope.insert name ty) ps
    | none => withParams scope ps

/-- Whether a value of type `actual` may satisfy `expected`: it is acceptable, or it may turn out to
be. -/
def mayHave (r : Ty.Registry) (actual expected : Ty) : Bool :=
  (Ty.matches r expected.erase actual Dict.empty).1 || r.le expected.erase actual

/-- Whether a value of this type may be called. -/
def mayCall (r : Ty.Registry) (ty : Ty) : Bool := ty.isAny || r.le ty .func

/-- The type of a variable or of something that can be called by name. -/
def nameType (p : Program) (context : Option Context) (name : String) : Checking Ty := do
  match (← get).scope.get? name with
  | some ty => return ty
  | none =>
    match p.function? name with
    | some f => return f.signature
    | none =>
      match p.types.parent? name with
      | some parent => return .arrow [parent] (.named name)
      | none =>
        if (Builtin.find? name).isSome then return .func
        else
          report context (.unbound name)
          return Ty.any

/-- Report a value that cannot have the type it should have. -/
def demand (p : Program) (context : Option Context) (place : String) (actual target : Ty) :
    Checking Unit := do
  if !mayHave p.types actual target then
    report context (.cast place target.text actual.text 0)

/-- Report a call from a pure function to one that is not. -/
def demandPure (context : Option Context) (callee : String) (calleeIsPure : Bool) :
    Checking Unit := do
  match context with
  | some c =>
    if c.pure && !calleeIsPure then
      report context (.purity c.function callee)
  | none => pure ()

/-- Check the arguments of a builtin from a position on. -/
def checkArguments (p : Program) (context : Option Context) (b : Builtin) :
    Nat → Ty.Bindings → List Ty → Checking Ty.Bindings
  | _, bindings, [] => return bindings
  | position, bindings, argument :: arguments => do
    match b.signature.paramAt position with
    | none => checkArguments p context b (position + 1) bindings arguments
    | some param =>
      let (accepted, bindings) := Ty.matches p.types param argument bindings
      if !accepted && !mayHave p.types argument param then
        report context (.cast b.id (bindings.apply param).text argument.text position)
      checkArguments p context b (position + 1) bindings arguments

/-- The type of a list that is made of its elements or put together, where more is known about it
than the signature of the builtin says. -/
def listType? (r : Ty.Registry) (id : String) (arguments : List Ty) : Option Ty :=
  if id = "list" then
    match arguments with
    | [] => some Ty.listAny
    | first :: rest => some (.list (rest.foldl r.join first))
  else if id = "cons" then
    match arguments with
    | [head, .list elem] => some (.list (r.join head elem))
    | _ => none
  else none

/-- A call of a builtin. -/
def builtinCallType (p : Program) (context : Option Context) (b : Builtin) (arguments : List Ty) :
    Checking Ty := do
  match b.arity.fault? arguments.length with
  | some error =>
    report context error
    return b.signature.ret.erase
  | none =>
    match listType? p.types b.id arguments with
    | some ty => return ty
    | none =>
      let bindings ← checkArguments p context b 0 Dict.empty arguments
      return bindings.apply b.signature.ret

/-- A call of a function, type constructor or builtin by its name. -/
def namedCallType (p : Program) (context : Option Context) (name : String) (arguments : List Ty) :
    Checking Ty := do
  match p.function? name with
  | some f =>
    demandPure context name f.isPure
    match chooseStatic? p.types f.clauses arguments with
    | some choice => return choice.ret?.getD Ty.any
    | none =>
      report context (.dispatch name (arguments.map Ty.text))
      return Ty.any
  | none =>
    match p.types.parent? name with
    | some parent =>
      match arguments with
      | [argument] => demand p context name argument parent
      | _ => report context (.arity 1 arguments.length none)
      return .named name
    | none =>
      match Builtin.find? name with
      | some b =>
        demandPure context name b.pure
        builtinCallType p context b arguments
      | none =>
        report context (.unbound name)
        return Ty.any

/-- A call of a value; `name` is used in diagnostics. -/
def valueCallType (p : Program) (context : Option Context) (name : String) (callee : Ty)
    (arguments : List Ty) : Checking Ty := do
  if !mayCall p.types callee then
    report context (.typing (.notCallable callee.text))
    return Ty.any
  else
    match callee with
    | .arrow params ret =>
      let accepted := params.length = arguments.length &&
        (params.zip arguments).all fun pair => mayHave p.types pair.2 pair.1
      if accepted then return ret.erase
      else
        report context (.dispatch name (arguments.map Ty.text))
        return Ty.any
    | _ => return Ty.any

/-- Report a body that cannot have the declared type. -/
def demandResult (p : Program) (context : Option Context) (function : String) (body : Ty)
    (declared : Option Ty) : Checking Unit := do
  match declared with
  | some ret =>
    if !mayHave p.types body ret then
      report context (.typing (.bodyReturns function body.text ret.text))
  | none => pure ()

mutual

/-- The type of an expression. -/
def exprType (p : Program) (context : Option Context) : Expr → Checking Ty
  | .lit value => return value.typeAtOnce p.types
  | .var name => nameType p context name
  | .cond test yes no => do
    let test ← exprType p context test
    if !mayHave p.types test Ty.bool then
      report context (.typing (.condition test.text))
    let yes ← exprType p context yes
    let no ← exprType p context no
    return p.types.join yes no
  | .block body cast => do
    let inner := withSetNames (← get).scope body
    let last ← inScope inner (lastType p context Ty.listAny body)
    match cast with
    | some target =>
      demand p context "do" last target
      return target
    | none => return last
  | .set name ty value _ => do
    if value.isLambda then
      modify fun f => { f with scope := f.scope.insertNew name .func }
    let inferred ← exprType p context value
    match ty with
    | some declared =>
      demand p context "set" inferred declared
      declare name declared
      return declared
    | none =>
      declare name inferred
      return inferred
  | .lambda params ret body => do
    let inner := withParams (← get).scope params
    let found ← inScope inner (exprType p context body)
    demandResult p context "lambda" found ret
    match Pattern.types? params with
    | some types => return .arrow types (ret.getD found)
    | none => return .func
  | .conj operands => operandsType p context "and" operands
  | .disj operands => operandsType p context "or" operands
  | .call callee args => do
    let arguments ← exprTypes p context args
    match callee with
    | .var name =>
      if (← get).scope.contains name then
        let ty ← nameType p context name
        valueCallType p context name ty arguments
      else namedCallType p context name arguments
    | callee =>
      let ty ← exprType p context callee
      valueCallType p context "lambda" ty arguments

/-- The types of several expressions. -/
def exprTypes (p : Program) (context : Option Context) : List Expr → Checking (List Ty)
  | [] => return []
  | e :: es => do
    let ty ← exprType p context e
    let types ← exprTypes p context es
    return ty :: types

/-- The type of the last of several expressions, or `last` if there is none. -/
def lastType (p : Program) (context : Option Context) (last : Ty) : List Expr → Checking Ty
  | [] => return last
  | e :: es => do
    let ty ← exprType p context e
    lastType p context ty es

/-- The operands of `and` or `or`. -/
def operandsType (p : Program) (context : Option Context) (form : String) :
    List Expr → Checking Ty
  | [] => return Ty.bool
  | e :: es => do
    let ty ← exprType p context e
    if !mayHave p.types ty Ty.bool then
      report context (.typing (.operand form ty.text))
    operandsType p context form es

end

/-- Check a clause of a function in the scope of the variables at top level. -/
def visitClause (p : Program) (globals : Dict Ty) (function : String) (c : Clause) :
    Checking Unit := do
  let context := some { function, pure := c.pure }
  let body ← inScope (withParams globals c.params) (exprType p context c.body)
  demandResult p context function body c.ret

/-- Check several clauses, given with the names of their functions. -/
def visitClauses (p : Program) (globals : Dict Ty) : List (String × Clause) → Checking Unit
  | [] => return ()
  | (function, c) :: rest => do
    visitClause p globals function c
    visitClauses p globals rest

/-- Check what is at top level, then every clause of every function, in the order of their names. -/
def visitAll (p : Program) : Checking Unit := do
  let _ ← lastType p none Ty.listAny p.statements
  let globals := (← get).scope
  visitClauses p globals
    (p.sortedFunctions.flatMap fun f => f.clauses.map fun c => (f.name, c))

end Check

/-- The diagnostics of a program, in order. -/
def Program.check (p : Program) : List Error :=
  let start : Check.Findings := { scope := Check.withSetNames {} p.statements }
  (Check.visitAll p start).2.diagnostics.reverse

/-- Diagnostics as text, each on a line of its own. -/
def reportText (diagnostics : List Error) : String :=
  String.join (diagnostics.map fun error => error.message ++ "\n")

end ClauseLisp
