import ClauseLisp.Text.Character
import ClauseLisp.Ty.Basic

/-!
# Forms

What the reader makes of a text: atoms, lists and quoted forms. A symbol may carry a type
(`n:int`), and a type may stand alone (`:int`, `list[int]`) where a result type or a cast is meant.
-/

namespace ClauseLisp

/-- A form of the language, as read. -/
inductive Form where
  | int (n : Int)
  | bool (b : Bool)
  | str (s : String)
  /-- A name, with the type that follows it after a colon. -/
  | sym (name : String) (ty : Option Ty)
  /-- A type that stands alone. -/
  | mark (ty : Ty)
  | list (items : List Form)
  | quote (inner : Form)
deriving Repr, BEq, Inhabited

/-- Signs that names may contain beside letters and digits. -/
def nameSigns : List Char := ['+', '-', '*', '/', '%', '<', '>', '=', '!', '?', '_', '$', '\'']

/-- Characters of names. -/
def isNameChar (c : Char) : Bool := Text.isAlphanumeric c || nameSigns.contains c

/-- Names do not start with a digit, with an apostrophe or like a negative number. -/
def isName : List Char → Bool
  | [] => false
  | '-' :: c :: rest => !c.isDigit && (c :: rest).all isNameChar
  | c :: rest => !c.isDigit && c != '\'' && (c :: rest).all isNameChar

namespace Form

/-- The name of a symbol, whatever type it carries. -/
def symbol? : Form → Option String
  | .sym name _ => some name
  | _ => none

/-- The name of a symbol that carries no type. -/
def plain? : Form → Option String
  | .sym name none => some name
  | _ => none

/-- Whether a form is the empty list. -/
def isNil : Form → Bool
  | .list [] => true
  | _ => false

/-- The plain symbol at the head of a list. -/
def keyword? : Form → Option String
  | .list (head :: _) => head.plain?
  | _ => none

end Form

end ClauseLisp
