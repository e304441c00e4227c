import ClauseLisp.Clause.Choice

/-!
# Programs

A program is what has been loaded: declared types, functions and the expressions at top level, in
order. It also remembers which modules it has loaded, so that each is loaded once.
-/

namespace ClauseLisp

/-- Why a computation stopped without a result. -/
inductive Stop where
  /-- Something went wrong. -/
  | error (error : Error)
  /-- The bound on the number of steps was reached. -/
  | outOfFuel
  /-- A file is needed whose content has not been given. -/
  | unread (path : String)
deriving Repr, DecidableEq, Inhabited

/-- A loaded program. -/
structure Program where
  types : Ty.Registry := {}
  functions : Dict Function := {}
  statements : List Expr := []
  /-- Paths of the modules that have been loaded. -/
  loaded : List String := []
deriving Inhabited

namespace Program

/-- The function of this name. -/
def function? (p : Program) (name : String) : Option Function := p.functions.get? name

/-- Add functions, each in place of an earlier one of its name. -/
def define (p : Program) (functions : List Function) : Program :=
  { p with functions := functions.foldl (fun d f => d.insert f.name f) p.functions }

/-- Functions in the order of their names. -/
def sortedFunctions (p : Program) : List Function := p.functions.sorted.map (·.2)

/-- Keep a result of a function. -/
def remember (p : Program) (function key : String) (value : Value) : Program :=
  { p with
    functions := p.functions.modify function fun f => { f with memo := f.memo.insert key value } }

end Program

end ClauseLisp
