import ClauseLisp.Memo
import ClauseLisp.Value.Printer

/-!
# Expressions, clauses and functions

What forms are lowered to. A function is a list of clauses; a clause has one pattern for each
parameter, may declare the type of its result, and has a body.
-/

namespace ClauseLisp

/-- What a clause says about one parameter. -/
inductive Pattern where
  /-- The argument must equal this value. -/
  | lit (value : Value)
  /-- Any argument, under this name. -/
  | bind (name : String)
  /-- An argument of this type, under this name. -/
  | typed (name : String) (ty : Ty)
deriving Repr, DecidableEq, Inhabited

namespace Pattern

/-- The name that a pattern binds. -/
def name? : Pattern → Option String
  | .lit _ => none
  | .bind name => some name
  | .typed name _ => some name

/-- The type that a pattern declares. -/
def type? : Pattern → Option Ty
  | .typed _ ty => some ty
  | _ => none

/-- Whether a pattern is a literal. -/
def isLit : Pattern → Bool
  | .lit _ => true
  | _ => false

/-- Text of a pattern. -/
def text : Pattern → String
  | .lit value => value.repr #[]
  | .bind name => name
  | .typed name ty => name ++ ":" ++ ty.text

end Pattern

/-- Expressions. -/
inductive Expr where
  | lit (value : Value)
  | var (name : String)
  | cond (test yes no : Expr)
  /-- A block: a scope of its own, and the type that its result must have. -/
  | block (body : List Expr) (cast : Option Ty)
  /-- Bind a name in the scope around it; if it `claims`, the scope takes over the resources opened
  meanwhile. -/
  | set (name : String) (ty : Option Ty) (value : Expr) (claims : Bool)
  | lambda (params : List Pattern) (ret : Option Ty) (body : Expr)
  | call (callee : Expr) (args : List Expr)
  | conj (operands : List Expr)
  | disj (operands : List Expr)
deriving Repr, Inhabited

namespace Expr

/-- Whether an expression is a `set` that takes over resources. -/
def isClaimingSet : Expr → Bool
  | .set _ _ _ claims => claims
  | _ => false

/-- Whether an expression is a lambda. -/
def isLambda : Expr → Bool
  | .lambda _ _ _ => true
  | _ => false

end Expr

/-- The types of several patterns, if all declare one. -/
def Pattern.types? : List Pattern → Option (List Ty)
  | [] => some []
  | p :: ps =>
    match p.type?, types? ps with
    | some t, some ts => some (t :: ts)
    | _, _ => none

/-- One clause of a function. -/
structure Clause where
  params : List Pattern
  ret : Option Ty
  body : Expr
  memoize : Bool
  pure : Bool
deriving Repr, Inhabited

namespace Clause

/-- The clause of a lambda. -/
def ofLambda (params : List Pattern) (ret : Option Ty) (body : Expr) : Clause :=
  ⟨params, ret, body, false, false⟩

/-- The type of a clause that declares all its parameters and its result. -/
def signature? (c : Clause) : Option Ty :=
  match Pattern.types? c.params, c.ret with
  | some params, some ret => some (.arrow params ret)
  | _, _ => none

/-- Whether a clause has a literal at this position. -/
def litAt (c : Clause) (position : Nat) : Bool :=
  match c.params[position]? with
  | some p => p.isLit
  | none => false

end Clause

/-- A named function, with the results that its memoized clauses have given. -/
structure Function where
  name : String
  clauses : List Clause
  memo : Memo := {}
deriving Inhabited

namespace Function

/-- Whether a clause has a literal at this position. -/
def litAt (f : Function) (position : Nat) : Bool :=
  f.clauses.any fun c => c.litAt position

/-- A function is pure if one of its clauses is declared so. -/
def isPure (f : Function) : Bool := f.clauses.any (·.pure)

/-- The type of a function: what its clauses declare, if they agree, and bare `func` otherwise. -/
def signature (f : Function) : Ty :=
  match f.clauses with
  | [] => .func
  | c :: cs =>
    match c.signature? with
    | some t => if cs.all fun c' => c'.signature? = some t then t else .func
    | none => .func

end Function

end ClauseLisp
