import ClauseLisp.Form.Reader
import ClauseLisp.Program.Basic

/-!
# Lowering forms

Forms become expressions and clauses once all types are declared. Every type that a form mentions
is resolved here, special forms must have their parts, and `set` is accepted only directly inside
a block or at top level. Of several faults the one met first, from left to right, is reported.
-/

namespace ClauseLisp

open Ty (Registry)

namespace Form

/-- A special form without the parts it needs. -/
def illFormed (keyword : String) (form : Form) : Error := .parse (.illFormed keyword form.text)

mutual

/-- The value of a quoted form; names become strings. -/
def datum (r : Registry) : Form → Value
  | .int n => .int n
  | .bool b => .bool b
  | .str s => .str s
  | .sym name ty => .str (Form.sym name ty).text
  | .mark ty => .str (Form.mark ty).text
  | .list items => Value.ofList r (datums r items)
  | .quote inner => Value.ofList r [.str "quote", datum r inner]

/-- The values of several quoted forms. -/
def datums (r : Registry) : List Form → List Value
  | [] => []
  | item :: items => datum r item :: datums r items

end

/-- The pattern that a parameter is; `keyword` and `form` say where it stands. -/
def pattern (r : Registry) (keyword : String) (form : Form) : Form → Except Error Pattern
  | .int n => .ok (.lit (.int n))
  | .bool b => .ok (.lit (.bool b))
  | .str s => .ok (.lit (.str s))
  | .quote (.list []) => .ok (.lit .nil)
  | .sym name none => .ok (.bind name)
  | .sym name (some ty) =>
    match r.resolve ty with
    | .ok ty => .ok (.typed name ty)
    | .error error => .error error
  | _ => .error (illFormed keyword form)

/-- The patterns of a parameter list, after those in `done`; no name is bound twice. -/
def patternsAfter (r : Registry) (keyword : String) (form : Form) (done : List Pattern) :
    List Form → Except Error (List Pattern)
  | [] => .ok done
  | param :: params =>
    match pattern r keyword form param with
    | .error error => .error error
    | .ok p =>
      match p.name? with
      | none => patternsAfter r keyword form (done ++ [p]) params
      | some name =>
        if done.any fun q => q.name? = some name then
          .error (.parse (.duplicateParameter name))
        else patternsAfter r keyword form (done ++ [p]) params

/-- The patterns and the result type of a clause, whose body must not be empty. -/
def clauseHead (r : Registry) (keyword : String) (form params : Form) (rest : List Form) :
    Except Error (List Pattern × Option Ty) :=
  match params with
  | .list params =>
    match patternsAfter r keyword form [] params with
    | .error error => .error error
    | .ok patterns =>
      match rest with
      | [] => .error (illFormed keyword form)
      | .mark ty :: body =>
        match r.resolve ty with
        | .error error => .error error
        | .ok ty =>
          if body.isEmpty then .error (illFormed keyword form) else .ok (patterns, some ty)
      | _ => .ok (patterns, none)
  | _ => .error (illFormed keyword form)

/-- The type that ends a block, if there is one. -/
def blockCast (r : Registry) (items : List Form) : Except Error (Option Ty) :=
  match items.getLast? with
  | some (.mark ty) => r.resolve? (some ty)
  | _ => .ok none

/-- Whether a block has nothing in it beside the type that may end it. -/
def isEmptyBlock : List Form → Bool
  | [] => true
  | [.mark _] => true
  | _ => false

/-- Forms that are only allowed at top level. -/
def definitionKeywords : List String := ["def", "def'", "defpure", "deftype", "contract", "use"]

mutual

/-- The expression that a form is. -/
def expr (r : Registry) (allowSet : Bool) : Form → Except Error Expr
  | .int n => .ok (.lit (.int n))
  | .bool b => .ok (.lit (.bool b))
  | .str s => .ok (.lit (.str s))
  | .quote inner => .ok (.lit (datum r inner))
  | .sym name none => .ok (.var name)
  | .sym name (some ty) => .error (.parse (.typeNotAllowed (Form.sym name (some ty)).text))
  | .mark ty => .error (.parse (.typeNotAllowed (Form.mark ty).text))
  | .list [] => .error (.parse .emptyCall)
  | .list (head :: args) =>
    let form := Form.list (head :: args)
    match head.plain? with
    | some "if" =>
      match args with
      | [test, yes, no] => do
        let test ← expr r false test
        let yes ← expr r false yes
        let no ← expr r false no
        return .cond test yes no
      | _ => .error (.arity 3 args.length (some form.text))
    | some "do" => do
      let cast ← blockCast r args
      if isEmptyBlock args then
        throw (.parse .emptyBlock)
      let body ← blockItems r args
      return .block body cast
    | some "set" =>
      if allowSet then
        match args with
        | [.sym name ty, value] => do
          let ty ← r.resolve? ty
          let value ← expr r false value
          return .set name ty value false
        | [_, _] => .error (illFormed "set" form)
        | _ => .error (.arity 2 args.length (some form.text))
      else .error (.parse (.misplacedSet "set" form.text))
    | some "set'" =>
      if allowSet then
        match args with
        | [.sym name ty, value] => do
          let ty ← r.resolve? ty
          let value ← expr r false value
          return .set name ty value true
        | [_, _] => .error (illFormed "set'" form)
        | _ => .error (.arity 2 args.length (some form.text))
      else .error (.parse (.misplacedSet "set'" form.text))
    | some "lambda" =>
      match args with
      | [] => .error (illFormed "lambda" form)
      | params :: rest => do
        let (patterns, ret) ← clauseHead r "lambda" form params rest
        let body ← body r rest
        return .lambda patterns ret body
    | some "and" =>
      if args.isEmpty then .error (.arity 1 0 (some form.text))
      else do
        let operands ← exprs r false args
        return .conj operands
    | some "or" =>
      if args.isEmpty then .error (.arity 1 0 (some form.text))
      else do
        let operands ← exprs r false args
        return .disj operands
    | keyword =>
      match keyword.filter definitionKeywords.contains with
      | some keyword => .error (.parse (.misplacedDefinition keyword))
      | none => do
        let callee ← expr r false head
        let args ← exprs r false args
        return .call callee args

/-- The expressions that several forms are. -/
def exprs (r : Registry) (allowSet : Bool) : List Form → Except Error (List Expr)
  | [] => .ok []
  | form :: forms => do
    let e ← expr r allowSet form
    let es ← exprs r allowSet forms
    return e :: es

/-- The expressions of a block, without the type that may end it. -/
def blockItems (r : Registry) : List Form → Except Error (List Expr)
  | [] => .ok []
  | [.mark _] => .ok []
  | form :: forms => do
    let e ← expr r true form
    let es ← blockItems r forms
    return e :: es

/-- The body of a clause, after the type of its result; several expressions are a block. -/
def body (r : Registry) : List Form → Except Error Expr
  | [] => .error (.parse .emptyBlock)
  | [.mark _, single] => expr r false single
  | .mark _ :: forms => do
    let es ← exprs r true forms
    return .block es none
  | [single] => expr r false single
  | form :: forms => do
    let e ← expr r true form
    let es ← exprs r true forms
    return .block (e :: es) none

end

/-- The clause of a definition. -/
def clause (r : Registry) (keyword : String) (form params : Form) (rest : List Form) :
    Except Error Clause := do
  let (patterns, ret) ← clauseHead r keyword form params rest
  let body ← body r rest
  let memoize := keyword = "def'"
  return ⟨patterns, ret, body, memoize, memoize || keyword = "defpure"⟩

/-- The name and the clause that a definition adds. -/
def definition (r : Registry) (keyword : String) (form : Form) :
    Except Error (String × Clause) :=
  match form with
  | .list (_ :: name :: params :: rest) =>
    match name.plain? with
    | none => .error (illFormed keyword form)
    | some name =>
      match clause r keyword form params rest with
      | .ok clause => .ok (name, clause)
      | .error error => .error error
  | _ => .error (illFormed keyword form)

end Form

end ClauseLisp
