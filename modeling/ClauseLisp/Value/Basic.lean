import ClauseLisp.Ty.Unify

/-!
# Values

Numbers, truth values, text, functions and lists. A list is a chain of strict cells that ends in
the empty list or goes on in a *lazy node*, a position whose element is worked out when it is
asked for. Lazy nodes and the closures behind lambdas live in tables of their own, and a value
refers to them by number; two such values are the same when the numbers are. A value may carry the
name of a declared type as its tag.

The element type of a list is the join of the types in its strict part. It is worked out when
somebody first asks for it, and stands from then on. For nearly all lists the moment makes no
difference: a tag is the name of a declared type, and later declarations do not move it. Such a
cell carries its type from the start, so nothing has to be walked. A host, however, can hand in
tags that are declared only afterwards, or never. A cell whose type hangs on them has a place in a
table, `AskedTypes`, where its type is written down when it is asked for.
-/

namespace ClauseLisp

open Ty (Registry Bindings)

/-- What a strict cell knows of the join of the types in its strict part. -/
inductive ElemType where
  /-- The type, which no declaration to come can change. -/
  | fixed (ty : Ty)
  /-- The type depends on when it is asked for; the cell may have a place in a table for it. -/
  | pending (place : Option Nat)
deriving Repr, DecidableEq, Inhabited

/-- The element types of cells that have a place, as far as they have been asked for. -/
abbrev AskedTypes := Array (Option Ty)

/-- Computations that may ask for types. -/
abbrev Typing := StateM AskedTypes

namespace ElemType

/-- The type, if it is fixed or has been asked for. -/
def known? (asked : AskedTypes) : ElemType → Option Ty
  | .fixed ty => some ty
  | .pending (some place) => (asked[place]?).join
  | .pending none => none

/-- Write a type down, if there is a place for it. -/
def note (ty : Ty) : ElemType → Typing Unit
  | .pending (some place) => modify fun asked => asked.modify place fun _ => some ty
  | _ => return ()

end ElemType

/-- Values of the language. -/
inductive Value where
  | int (n : Int)
  | bool (b : Bool)
  | str (s : String)
  /-- The empty list. -/
  | nil
  /-- A strict cell, with what it knows of its element type. -/
  | cell (head tail : Value) (elem : ElemType)
  /-- A position in a lazy list. -/
  | lazy (node : Nat)
  /-- A function, builtin or type constructor, found by its name when it is called. -/
  | func (name : String)
  /-- A lambda, with the number of its closure. -/
  | lambda (closure : Nat)
  /-- A value tagged with a type. -/
  | tagged (tag : String) (value : Value)
deriving Repr, DecidableEq, Inhabited

namespace Value

/-- The value under a tag. -/
def untagged : Value → Value
  | .tagged _ value => value
  | value => value

/-- Tag a value, in place of the tag that it has. -/
def tag (name : String) (value : Value) : Value := .tagged name value.untagged

/-- The type of a value that is no cell. -/
def plainType : Value → Ty
  | .int _ => Ty.int
  | .bool _ => Ty.bool
  | .str _ => Ty.str
  | .func _ => .func
  | .lambda _ => .func
  | .tagged name _ => .named name
  | _ => Ty.listAny

/-- The type of a value; for a cell, that of its strict part from here on. -/
def typeOf (r : Registry) : Value → Typing Ty
  | .cell head tail elem => do
    match elem.known? (← get) with
    | some ty => return .list ty
    | none =>
      let after ← typeOf r tail
      let first ← typeOf r head
      let ty :=
        match tail, after with
        | .cell _ _ _, .list others => r.join first others
        | _, _ => first
      elem.note ty
      return .list ty
  | value => return value.plainType

/-- The type of a value of which nothing has been asked before. -/
def typeAtOnce (r : Registry) (value : Value) : Ty := (value.typeOf r #[]).1

/-- The type of a value, if it does not depend on when it is asked for. -/
def fixedType? : Value → Option Ty
  | .cell _ _ (.fixed ty) => some (.list ty)
  | .cell _ _ (.pending _) => none
  | value => some value.plainType

/-- What a cell in front of a tail knows of its element type. -/
def elemTypeOf (r : Registry) (head tail : Value) : ElemType :=
  match head.fixedType?, tail with
  | some first, .cell _ _ (.fixed others) =>
    match r.fixedJoin? first others with
    | some ty => .fixed ty
    | none => .pending none
  | _, .cell _ _ (.pending _) => .pending none
  | some first, _ => .fixed first
  | none, _ => .pending none

/-- A strict cell in front of a tail. It has no place for a pending type yet. -/
def cons (r : Registry) (head tail : Value) : Value := .cell head tail (elemTypeOf r head tail)

/-- Give places to the first cells of a list, as far as their types are pending and they have
none. -/
def place : Value → Typing Value
  | .cell head tail (.pending none) => do
    let tail ← place tail
    modifyGet fun asked => (.cell head tail (.pending (some asked.size)), asked.push none)
  | value => return value

/-- Strict cells in front of a tail. -/
def append (r : Registry) (items : List Value) (tail : Value) : Value :=
  items.foldr (cons r) tail

/-- The strict list of some values. -/
def ofList (r : Registry) (items : List Value) : Value := append r items .nil

/-- Whether a value is the empty list, under its tag. -/
def isNil (value : Value) : Bool :=
  match value.untagged with
  | .nil => true
  | _ => false

/-- Whether a value is a list, under its tag. -/
def isList (value : Value) : Bool :=
  match value.untagged with
  | .nil => true
  | .cell _ _ _ => true
  | .lazy _ => true
  | _ => false

/-- Whether a value is a function and carries no tag. -/
def isCallable : Value → Bool
  | .func _ => true
  | .lambda _ => true
  | _ => false

/-- The heads of the strict cells of a chain, last first, and what follows them. -/
def strictPart (done : List Value) : Value → List Value × Value
  | .cell head tail _ => strictPart (head :: done) tail
  | rest => (done, rest)

/-- The elements of a list that is strict to its end. -/
def items? (value : Value) : Option (List Value) :=
  match strictPart [] value.untagged with
  | (done, .nil) => some done.reverse
  | _ => none

/-- Whether a value satisfies a declared type, and what its variables stand for afterwards. The
elements of a lazy list are not looked at, so it satisfies every list type. -/
def conforms (r : Registry) (declared : Ty) (value : Value) (b : Bindings) :
    Typing (Bool × Bindings) := do
  match value, declared, ← value.typeOf r with
  | .nil, .list _, _ => return (true, b)
  | .lazy _, .list _, _ => return (true, b)
  | .cell _ _ _, .list d, .list elem => return r.unify d elem b
  | _, declared, ty => return r.unify declared ty b

/-- Equality of strict data. Tags are looked through; lazy nodes and lambdas are equal to themselves
only. -/
def same : Value → Value → Bool
  | .tagged _ a, b => same a b
  | .cell h t _, b =>
    match b.untagged with
    | .cell h' t' _ => same h h' && same t t'
    | _ => false
  | .int m, b =>
    match b.untagged with
    | .int n => m = n
    | _ => false
  | .bool p, b =>
    match b.untagged with
    | .bool q => p = q
    | _ => false
  | .str s, b =>
    match b.untagged with
    | .str t => s = t
    | _ => false
  | .nil, b => b.isNil
  | .lazy m, b =>
    match b.untagged with
    | .lazy n => m = n
    | _ => false
  | .func m, b =>
    match b.untagged with
    | .func n => m = n
    | _ => false
  | .lambda m, b =>
    match b.untagged with
    | .lambda n => m = n
    | _ => false

end Value

end ClauseLisp
