import ClauseLisp.Form.Printer
import ClauseLisp.Value.Lazy

/-!
# Text of values

`Value.repr` is the text of a value inside lists and messages, with strings quoted;
`Value.display` is the same with a string on its own left as it is. Lists show their strict cells
and what is known of their lazy nodes; `...` stands for what has not been forced. Tags are not
shown.
-/

namespace ClauseLisp.Value

/-- Texts with single spaces between them, in parentheses. -/
def parenthesized (items : List (List Char)) : List Char :=
  '(' :: ((items.intersperse [' ']).flatten ++ [')'])

mutual

/-- Text of a value, where `expand` puts the texts of a lazy list, last first, onto others. -/
def reprWith (expand : List (List Char) → Nat → List (List Char)) : Value → List Char
  | .int n => Number.text n
  | .bool b => boolChars b
  | .str s => Text.quoted s.toList
  | .nil => ['(', ')']
  | .cell head tail _ => parenthesized (itemsWith expand [reprWith expand head] tail).reverse
  | .lazy node => parenthesized (expand [] node).reverse
  | .func name => "#<function ".toList ++ name.toList ++ ['>']
  | .lambda _ => "#<lambda>".toList
  | .tagged _ value => reprWith expand value

/-- Texts of the elements of a list, last first, onto others. -/
def itemsWith (expand : List (List Char) → Nat → List (List Char)) (done : List (List Char)) :
    Value → List (List Char)
  | .cell head tail _ => itemsWith expand (reprWith expand head :: done) tail
  | .lazy node => expand done node
  | _ => done

end

/-- Texts of what is known of a lazy list, last first, onto others; `hops` bounds the number of lazy
nodes on the way. -/
def expandWithin (nodes : LazyNodes) : Nat → List (List Char) → Nat → List (List Char)
  | 0, done, _ => "...".toList :: done
  | hops + 1, done, node =>
    match nodes.outcome? node with
    | none => "...".toList :: done
    | some .ended => done
    | some (.item head next) =>
      itemsWith (expandWithin nodes hops) (reprWith (expandWithin nodes hops) head :: done) next

/-- Text of a value, with strings quoted. -/
def repr (nodes : LazyNodes) (value : Value) : String :=
  String.ofList (reprWith (expandWithin nodes (nodes.size + 1)) value)

/-- Text of a value; a string is shown as it is. -/
def display (nodes : LazyNodes) (value : Value) : String :=
  match value.untagged with
  | .str s => s
  | value => value.repr nodes

/-- Text of a value that shows its tag. -/
def debug (nodes : LazyNodes) : Value → String
  | .tagged name value => name ++ "(" ++ value.repr nodes ++ ")"
  | value => value.repr nodes

end ClauseLisp.Value
