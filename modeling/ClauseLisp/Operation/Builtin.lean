import ClauseLisp.Operation.Arithmetic

/-!
# Builtins

The operations that every program has, in one table: name, number of arguments, whether they are
free of side effects, and the static types that the checker uses. Some work on their arguments
alone; the others need the machine, because they make or force lazy lists, print, or read files.

Of the former, `list` and `cons` make strict cells; what is consed onto a tagged list is a plain
list. `str` puts the texts of its arguments together, and `error` fails with them.
-/

namespace ClauseLisp

/-! ## Lists, text and errors -/

namespace Operation

/-- `list` -/
def list : Operation := rest0 fun view items => .ok (Value.ofList view.types items)

/-- `cons` -/
def cons : Operation := fixed2 fun view (head tail : Value) =>
  if tail.isList then .ok (Value.cons view.types head tail.untagged)
  else .error (view.argumentError "list" tail 1)

/-- `str` -/
def str : Operation := rest0 fun view (items : List Value) =>
  .ok (.str (String.join (items.map (·.display view.nodes))))

/-- `error` -/
def error : Operation := rest0 fun view (items : List Value) =>
  .error (.eval (.raised
    (if items.isEmpty then "Error"
     else " ".intercalate (items.map (·.display view.nodes)))))

end Operation

/-! ## The table -/

/-- Builtins that need the machine. -/
inductive Intrinsic where
  | equal
  | head
  | tail
  | isEmpty
  | gen
  | concat
  | print
  | openFile
  | readChar
deriving Repr, DecidableEq, Inhabited

/-- How a builtin works. -/
inductive Builtin.Body where
  | operation (run : Operation)
  | machine (intrinsic : Intrinsic)

/-- An operation that every program has. -/
structure Builtin where
  id : String
  body : Builtin.Body
  arity : Arity
  /-- Whether it is free of side effects. -/
  pure : Bool
  signature : Signature

namespace Builtin

/-- Whether a builtin forces lazy lists, prints or reads. Making a lazy list does none of it. -/
def isIntrinsic (b : Builtin) : Bool :=
  match b.body with
  | .operation _ => false
  | .machine .gen => false
  | .machine _ => true

/-- Name of the iterator behind the lists of characters that files are read as. -/
def readCharName : String := "%read-char"

/-- Numbers only, one at least. -/
def arithmetic : Signature := ⟨[Ty.int], some Ty.int, Ty.int⟩

/-- A truth value about numbers. -/
def comparing : Signature := ⟨[Ty.int], some Ty.int, Ty.bool⟩

/-- All builtins. -/
def table : List Builtin := [
  ⟨"+", .operation Operation.add, .any, true, ⟨[], some Ty.int, Ty.int⟩⟩,
  ⟨"-", .operation Operation.sub, .atLeast 1, true, arithmetic⟩,
  ⟨"*", .operation Operation.mul, .atLeast 1, true, arithmetic⟩,
  ⟨"/", .operation Operation.div, .exact 2, true, ⟨[Ty.int, Ty.int], none, Ty.int⟩⟩,
  ⟨"%", .operation Operation.mod, .exact 2, true, ⟨[Ty.int, Ty.int], none, Ty.int⟩⟩,
  ⟨"<", .operation Operation.less, .atLeast 2, true, comparing⟩,
  ⟨">", .operation Operation.greater, .atLeast 2, true, comparing⟩,
  ⟨"<=", .operation Operation.lessEqual, .atLeast 2, true, comparing⟩,
  ⟨">=", .operation Operation.greaterEqual, .atLeast 2, true, comparing⟩,
  ⟨"=", .machine .equal, .atLeast 2, true, ⟨[Ty.any], some Ty.any, Ty.bool⟩⟩,
  ⟨"not", .operation Operation.negation, .exact 1, true, ⟨[Ty.bool], none, Ty.bool⟩⟩,
  ⟨"list", .operation Operation.list, .any, true, ⟨[], some Ty.any, Ty.listAny⟩⟩,
  ⟨"cons", .operation Operation.cons, .exact 2, true, ⟨[Ty.any, Ty.listAny], none, Ty.listAny⟩⟩,
  ⟨"head", .machine .head, .exact 1, true, ⟨[.list (.var "a")], none, .var "a"⟩⟩,
  ⟨"tail", .machine .tail, .exact 1, true, ⟨[.list (.var "a")], none, .list (.var "a")⟩⟩,
  ⟨"empty?", .machine .isEmpty, .exact 1, true, ⟨[Ty.listAny], none, Ty.bool⟩⟩,
  ⟨"gen", .machine .gen, .exact 2, true, ⟨[.func, Ty.any], none, Ty.listAny⟩⟩,
  ⟨"concat", .machine .concat, .any, true, ⟨[], some Ty.any, Ty.any⟩⟩,
  ⟨"str", .operation Operation.str, .any, true, ⟨[], some Ty.any, Ty.str⟩⟩,
  ⟨"error", .operation Operation.error, .any, true, ⟨[], some Ty.any, Ty.any⟩⟩,
  ⟨"print", .machine .print, .any, false, ⟨[], some Ty.any, Ty.listAny⟩⟩,
  ⟨"open", .machine .openFile, .exact 1, false, ⟨[Ty.str], none, .list Ty.str⟩⟩,
  ⟨readCharName, .machine .readChar, .exact 1, false, ⟨[Ty.int], none, Ty.listAny⟩⟩]

/-- The builtin of this name. -/
def find? (name : String) : Option Builtin := table.find? fun b => b.id = name

end Builtin

end ClauseLisp
