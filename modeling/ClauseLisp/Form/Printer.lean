import ClauseLisp.Form.Basic
import ClauseLisp.Number
import ClauseLisp.Text.Quoted
import ClauseLisp.Ty.Printer

/-!
# Text of forms

Forms are written as the reader reads them: lists in parentheses with single spaces, strings quoted,
types after a colon.
-/

namespace ClauseLisp

/-- Text of a truth value. -/
def boolChars (b : Bool) : List Char :=
  if b then ['t', 'r', 'u', 'e'] else ['f', 'a', 'l', 's', 'e']

namespace Form

mutual

/-- Text of a form. -/
def chars : Form → List Char
  | .int n => Number.text n
  | .bool b => boolChars b
  | .str s => Text.quoted s.toList
  | .sym name none => name.toList
  | .sym name (some ty) => name.toList ++ ':' :: ty.chars
  | .mark ty => ':' :: ty.chars
  | .list items => '(' :: (itemChars items ++ [')'])
  | .quote inner => '\'' :: chars inner

/-- Texts of the items of a list, with single spaces between them. -/
def itemChars : List Form → List Char
  | [] => []
  | [item] => chars item
  | item :: items => chars item ++ ' ' :: itemChars items

end

/-- Text of a form. -/
def text (form : Form) : String := String.ofList (chars form)

end Form

end ClauseLisp
