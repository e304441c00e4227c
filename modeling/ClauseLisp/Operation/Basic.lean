import ClauseLisp.Value.Printer

/-!
# Operations

An operation works on arguments that have been evaluated. It may look at what is known of lazy lists
and at the declared types, and it changes nothing.

Most operations want arguments of certain kinds. `Operation.fixed1`, `Operation.rest1` and their
likes make an operation of a plain function: they count the arguments, convert them from left to
right and report the first that is of another kind. Numbers, truth values and text are found under
tags; a parameter of type `Value` takes an argument as it is. The errors do not name the
operation: whoever calls it adds its name.
-/

namespace ClauseLisp

/-- Number of arguments that an operation accepts. -/
inductive Arity where
  | exact (n : Nat)
  | atLeast (n : Nat)
  | any
deriving Repr, DecidableEq, Inhabited

/-- The error of calling an operation with this many arguments, if it is one. -/
def Arity.fault? (arity : Arity) (got : Nat) : Option Error :=
  match arity with
  | .exact n => if got = n then none else some (.arity n got none)
  | .atLeast n => if got < n then some (.arity n got none) else none
  | .any => none

/-- Static types of an operation; arguments after the fixed ones have the type `rest`. -/
structure Signature where
  params : List Ty
  rest : Option Ty
  ret : Ty
deriving Repr, DecidableEq, Inhabited

/-- Declared type of the argument at a position. -/
def Signature.paramAt (s : Signature) (position : Nat) : Option Ty :=
  (s.params[position]?).or s.rest

/-- What an operation may look at. -/
structure View where
  nodes : LazyNodes
  types : Ty.Registry
deriving Inhabited

/-- Operations on evaluated arguments. -/
abbrev Operation := View → List Value → Except Error Value

/-- An argument is not of the kind that is wanted. -/
def View.argumentError (view : View) (expected : String) (found : Value) (position : Nat) : Error :=
  .cast "" expected (found.repr view.nodes) position

/-- Kinds of arguments. -/
class Argument (α : Type) where
  /-- Name of the kind. -/
  kind : String
  /-- The argument as one of this kind. -/
  ofValue? : Value → Option α

instance : Argument Int where
  kind := "int"
  ofValue? value :=
    match value.untagged with
    | .int n => some n
    | _ => none

instance : Argument Bool where
  kind := "bool"
  ofValue? value :=
    match value.untagged with
    | .bool b => some b
    | _ => none

instance : Argument String where
  kind := "str"
  ofValue? value :=
    match value.untagged with
    | .str s => some s
    | _ => none

instance : Argument Value where
  kind := "any"
  ofValue? := some

namespace Operation

variable {α β γ : Type} [Argument α] [Argument β] [Argument γ]

/-- The argument at a position. -/
def argument (α : Type) [Argument α] (view : View) (position : Nat) (value : Value) :
    Except Error α :=
  match Argument.ofValue? value with
  | some a => .ok a
  | none => .error (view.argumentError (Argument.kind α) value position)

/-- The arguments from a position on. -/
def arguments (α : Type) [Argument α] (view : View) : Nat → List Value → Except Error (List α)
  | _, [] => .ok []
  | position, value :: values => do
    let a ← argument α view position value
    let as ← arguments α view (position + 1) values
    return a :: as

/-- An operation without arguments. -/
def fixed0 (f : View → Except Error Value) : Operation
  | view, [] => f view
  | _, args => .error (.arity 0 args.length none)

/-- An operation on one argument. -/
def fixed1 (f : View → α → Except Error Value) : Operation
  | view, [a] => do
    let a ← argument α view 0 a
    f view a
  | _, args => .error (.arity 1 args.length none)

/-- An operation on two arguments. -/
def fixed2 (f : View → α → β → Except Error Value) : Operation
  | view, [a, b] => do
    let a ← argument α view 0 a
    let b ← argument β view 1 b
    f view a b
  | _, args => .error (.arity 2 args.length none)

/-- An operation on three arguments. -/
def fixed3 (f : View → α → β → γ → Except Error Value) : Operation
  | view, [a, b, c] => do
    let a ← argument α view 0 a
    let b ← argument β view 1 b
    let c ← argument γ view 2 c
    f view a b c
  | _, args => .error (.arity 3 args.length none)

/-- An operation on any number of arguments of one kind. -/
def rest0 (f : View → List α → Except Error Value) : Operation := fun view args => do
  let rest ← arguments α view 0 args
  f view rest

/-- An operation on one argument and any number of others of one kind. -/
def rest1 (f : View → α → List β → Except Error Value) : Operation
  | view, a :: rest => do
    let a ← argument α view 0 a
    let rest ← arguments β view 1 rest
    f view a rest
  | _, [] => .error (.arity 1 0 none)

/-- An operation on two arguments and any number of others of one kind. -/
def rest2 (f : View → α → β → List γ → Except Error Value) : Operation
  | view, a :: b :: rest => do
    let a ← argument α view 0 a
    let b ← argument β view 1 b
    let rest ← arguments γ view 2 rest
    f view a b rest
  | _, args => .error (.arity 2 args.length none)

end Operation

end ClauseLisp
