import ClauseLisp.Program.Lowering

/-!
# Loading programs

A source text is loaded as a module, after the modules that it uses. Loading runs over all of them
in order: first every type is declared, then definitions and expressions are lowered, module by
module. A module that defines a function replaces what was known under its name.

Loading works on a program that goes on being used when it fails. What was done before the fault
stays: paths count as loaded from the moment they are asked for, declarations stay declared, and the
functions of the modules that were lowered stay defined. Only the expressions at top level are added
together at the end.
-/

namespace ClauseLisp

/-- Where modules come from. -/
abbrev Loader := String → Except Stop String

/-- Modules that are kept in a table. -/
def Loader.ofTable (modules : Dict String) : Loader := fun path =>
  match modules.get? path with
  | some source => .ok source
  | none => .error (.error (.eval (.cannotLoad path "not found")))

/-- A computation that loads something into a program. -/
abbrev Loading := ExceptT Stop (StateM Program)

/-- Fail with an error, or go on. -/
def Loading.ofExcept {α : Type} : Except Error α → Loading α
  | .ok value => pure value
  | .error error => throw (.error error)

namespace Program

/-- The path that a `use` form names. -/
def usePath (form : Form) : Except Error String :=
  match form with
  | .list [_, .str path] => .ok path
  | _ => .error (form.illFormed "use")

/-- The modules that forms amount to: those they use, in order, and then their own forms; `enter`
gives the modules that a path amounts to. -/
def modulesOf (enter : String → Loading (List (List Form))) (own : List Form) :
    List Form → Loading (List (List Form))
  | [] => return [own.reverse]
  | form :: forms =>
    if form.keyword? = some "use" then do
      let path ← Loading.ofExcept (usePath form)
      if (← get).loaded.contains path then
        modulesOf enter own forms
      else
        modify fun p => { p with loaded := path :: p.loaded }
        let used ← enter path
        let others ← modulesOf enter own forms
        return used ++ others
    else modulesOf enter (form :: own) forms

/-- The modules that forms amount to; `fuel` bounds how deeply modules use each other. -/
def collect (load : Loader) : Nat → List Form → Loading (List (List Form))
  | 0, _ => throw .outOfFuel
  | fuel + 1, forms =>
    let enter (path : String) : Loading (List (List Form)) := do
      match load path with
      | .error stop => throw stop
      | .ok source =>
        let forms ← Loading.ofExcept (Form.parseAll source)
        collect load fuel forms
    modulesOf enter [] forms

/-- A type written as a name or as a mark. -/
def typeOfForm (keyword : String) (whole : Form) : Form → Except Error Ty
  | .mark ty => .ok ty
  | .sym name none => Ty.parse name
  | _ => .error (whole.illFormed keyword)

/-- The name that a declaration declares. -/
def declaredName (keyword : String) (whole name : Form) : Except Error String :=
  match name.plain? with
  | some name => .ok name
  | none => .error (whole.illFormed keyword)

/-- Declare the type or the type variable that a form declares, if it does. -/
def declare (p : Program) (form : Form) : Except Error Program :=
  match form.keyword? with
  | some "deftype" =>
    match form with
    | .list [_, name, parent] => do
      let name ← declaredName "deftype" form name
      if p.functions.contains name then
        throw (.typing (.typeCollides name))
      let parent ← typeOfForm "deftype" form parent
      let types ← p.types.declare name parent
      return { p with types }
    | _ => .error (form.illFormed "deftype")
  | some "contract" =>
    match form with
    | .list [_, name] => do
      let name ← declaredName "contract" form name
      let types ← p.types.declareVariable name none
      return { p with types }
    | .list [_, name, bound] => do
      let name ← declaredName "contract" form name
      let bound ← typeOfForm "contract" form bound
      let types ← p.types.declareVariable name (some bound)
      return { p with types }
    | _ => .error (form.illFormed "contract")
  | _ => .ok p

/-- Declare what forms declare, one after the other. -/
def declareAll : List Form → Loading Unit
  | [] => return ()
  | form :: forms => do
    let p ← Loading.ofExcept ((← get).declare form)
    set p
    declareAll forms

/-- Add a clause to the function of this name among some functions. -/
def addClause (name : String) (clause : Clause) : List Function → List Function
  | [] => [{ name, clauses := [clause] }]
  | f :: fs =>
    if f.name = name then { f with clauses := f.clauses ++ [clause] } :: fs
    else f :: addClause name clause fs

/-- The functions and the expressions of a module, after those that its first forms have given;
expressions are listed last first. -/
def lowerFrom (r : Ty.Registry) (functions : List Function) (statements : List Expr) :
    List Form → Except Error (List Function × List Expr)
  | [] => .ok (functions, statements.reverse)
  | form :: forms =>
    match form.keyword? with
    | some keyword =>
      if keyword = "def" || keyword = "def'" || keyword = "defpure" then
        match form.definition r keyword with
        | .error error => .error error
        | .ok (name, clause) =>
          if r.isDeclared name then .error (.typing (.functionCollides name))
          else lowerFrom r (addClause name clause functions) statements forms
      else if keyword = "deftype" || keyword = "contract" then
        lowerFrom r functions statements forms
      else
        match form.expr r true with
        | .error error => .error error
        | .ok statement => lowerFrom r functions (statement :: statements) forms
    | none =>
      match form.expr r true with
      | .error error => .error error
      | .ok statement => lowerFrom r functions (statement :: statements) forms

/-- Lower modules one after the other, and give their expressions. -/
def lowerAll : List (List Form) → Loading (List Expr)
  | [] => return []
  | forms :: modules => do
    let (functions, statements) ← Loading.ofExcept (lowerFrom (← get).types [] [] forms)
    modify (·.define functions)
    let others ← lowerAll modules
    return statements ++ others

/-- Load a source text, and give the expressions at top level that it adds. -/
def absorb (load : Loader) (fuel : Nat) (source : String) : Loading (List Expr) := do
  let forms ← Loading.ofExcept (Form.parseAll source)
  let modules ← collect load fuel forms
  declareAll modules.flatten
  let added ← lowerAll modules
  modify fun p => { p with statements := p.statements ++ added }
  return added

/-- Load a source text into the empty program. -/
def ofText (load : Loader) (fuel : Nat) (source : String) : Except Stop Program :=
  match absorb load fuel source {} with
  | (.ok _, p) => .ok p
  | (.error stop, _) => .error stop

end Program

end ClauseLisp
