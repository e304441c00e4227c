import ClauseLisp.Clause.Basic

/-!
# Clause choice

The first clause all of whose patterns match is selected. Choice works on values when a program
runs and on types when it is checked: `Matchable` says what it takes to match, and `choose?` is
the same for both. The bindings of type variables are made anew for each clause that is tried. A
clause with another number of parameters is passed over before anything is asked of the arguments.
-/

namespace ClauseLisp

open Ty (Registry Bindings)

/-- What clauses can be matched against. -/
class Matchable (α : Type) where
  /-- Whether the argument matches a literal. -/
  litMatch : Registry → Value → α → Bool
  /-- Whether the argument satisfies a declared type. -/
  typeMatch : Registry → Ty → α → Bindings → Typing (Bool × Bindings)

instance : Matchable Value where
  litMatch _ literal argument := argument.same literal
  typeMatch r declared argument b := argument.conforms r declared b

/-- Whether a value of this static type may satisfy a declared type; what is unknown is let
through. -/
def Ty.matches (r : Registry) (declared actual : Ty) (b : Bindings) : Bool × Bindings :=
  if actual.isAny then (true, b)
  else
    match actual, declared with
    | .list elem, .list _ => if elem.isAny then (true, b) else r.unify declared actual b
    | _, _ => r.unify declared actual b

instance : Matchable Ty where
  litMatch r literal argument :=
    r.le (literal.typeAtOnce r) argument || r.le argument (literal.typeAtOnce r)
  typeMatch r declared argument b := return Ty.matches r declared argument b

variable {α : Type} [Matchable α]

/-- Match one argument. -/
def Pattern.match₁ (r : Registry) (argument : α) (b : Bindings) :
    Pattern → Typing (Bool × Bindings)
  | .lit literal => return (Matchable.litMatch r literal argument, b)
  | .bind _ => return (true, b)
  | .typed _ declared => Matchable.typeMatch r declared argument b

/-- Match arguments one after the other, up to the first that does not match; the numbers must
agree. -/
def Pattern.matchAll (r : Registry) : List Pattern → List α → Bindings → Typing (Option Bindings)
  | [], [], b => return some b
  | p :: ps, argument :: arguments, b => do
    match ← p.match₁ r argument b with
    | (true, b) => matchAll r ps arguments b
    | (false, _) => return none
  | _, _, _ => return none

/-- Match the arguments of a call with the parameters of a clause. -/
def Clause.match? (r : Registry) (c : Clause) (arguments : List α) : Typing (Option Bindings) :=
  if c.params.length = arguments.length then Pattern.matchAll r c.params arguments Dict.empty
  else return none

/-- A selected clause. -/
structure Choice where
  /-- Position of the clause among those of the function. -/
  index : Nat
  clause : Clause
  bindings : Bindings
deriving Inhabited

/-- Type of the result that the selected clause declares. -/
def Choice.ret? (s : Choice) : Option Ty := s.clause.ret.map s.bindings.apply

/-- The first clause that matches, where `index` is the position of the first one in the list. -/
def chooseFrom (r : Registry) (arguments : List α) : Nat → List Clause → Typing (Option Choice)
  | _, [] => return none
  | index, c :: cs => do
    match ← c.match? r arguments with
    | some b => return some ⟨index, c, b⟩
    | none => chooseFrom r arguments (index + 1) cs

/-- The first clause that matches. -/
def choose? (r : Registry) (clauses : List Clause) (arguments : List α) : Typing (Option Choice) :=
  chooseFrom r arguments 0 clauses

/-- The first clause that may accept arguments of these static types. -/
def chooseStatic? (r : Registry) (clauses : List Clause) (arguments : List Ty) : Option Choice :=
  (choose? r clauses arguments #[]).1

end ClauseLisp
