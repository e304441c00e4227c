import ClauseLisp.Error
import ClauseLisp.Form.Printer
import ClauseLisp.Text.Character
import ClauseLisp.Ty.Reader

/-!
# Reading forms

The reader tries the shapes of a form in a fixed order: a quoted form, a list, a number, a truth
value, a string, a type, a symbol. A shape that is stuck gives way to the next one, so what is
reported is where the last shape, the symbol, was stuck; the other faults end the reading.

Atoms end at a blank, a parenthesis or a comment. Forms nest at most `maxNesting` deep: `read`
counts the levels that are left, and that count is what its recursion descends on.
-/

namespace ClauseLisp

namespace Form

/-- Number of levels on which forms may stand. -/
def maxNesting : Nat := 256

/-- Skip spacing and comments, which run from a semicolon to the end of the line. -/
def skipTrivia (inComment : Bool) : List Char → List Char
  | [] => []
  | c :: cs =>
    if inComment then skipTrivia (c != '\n') cs
    else if Text.isSpacing c then skipTrivia false cs
    else if c = ';' then skipTrivia true cs
    else c :: cs

/-- Whether an atom may end in front of this text. -/
def atBoundary : List Char → Bool
  | [] => true
  | c :: _ => Text.isBlank c || c = '(' || c = ')' || c = ';'

/-- An atom, if it ends where it should. -/
def atom (form : Form) (rest : List Char) : Reading Form :=
  if atBoundary rest then .ok (form, rest) else .error (.stuck rest)

/-- `#x` and hexadecimal digits. -/
def readHexadecimal (cs : List Char) : Reading Form :=
  match cs with
  | '#' :: x :: rest =>
    let digits := rest.takeWhile Number.isHexDigit
    if (x = 'x' || x = 'X') && !digits.isEmpty then
      match Number.checked? (Number.ofDigits 16 Number.hexDigit digits) with
      | some n => atom (.int n) (rest.dropWhile Number.isHexDigit)
      | none => .error (.stuck cs)
    else .error (.stuck cs)
  | _ => .error (.stuck cs)

/-- Decimal digits, after a minus sign or without. -/
def readDecimal (cs : List Char) : Reading Form :=
  let (negative, unsigned) :=
    match cs with
    | '-' :: rest => (true, rest)
    | _ => (false, cs)
  let digits := unsigned.takeWhile Char.isDigit
  if digits.isEmpty then .error (.stuck cs)
  else
    let size : Int := Number.ofDigits 10 Number.decimalDigit digits
    match Number.checked? (if negative then -size else size) with
    | some n => atom (.int n) (unsigned.dropWhile Char.isDigit)
    | none => .error (.stuck cs)

/-- `#t` or `#f`. -/
def readBool (cs : List Char) : Reading Form :=
  match cs with
  | '#' :: 't' :: rest => atom (.bool true) rest
  | '#' :: 'f' :: rest => atom (.bool false) rest
  | _ => .error (.stuck cs)

/-- A string literal. -/
def readString (cs : List Char) : Reading Form :=
  match cs with
  | '"' :: inside =>
    match Text.decode inside with
    | some (s, rest) => .ok (.str (String.ofList s), rest)
    | none => .error (.stuck cs)
  | _ => .error (.stuck cs)

/-- A type that stands alone after a colon. -/
def readMark (cs : List Char) : Reading Form :=
  match cs with
  | ':' :: rest =>
    match Ty.read rest with
    | .ok (ty, rest) => atom (.mark ty) rest
    | .error fault => .error fault
  | _ => .error (.stuck cs)

/-- The symbol, or truth value, that a name and the type after it make. -/
def ofName (name : String) (ty : Option Ty) : Form :=
  match ty with
  | some ty => .sym name (some ty)
  | none =>
    if name = "true" then .bool true
    else if name = "false" then .bool false
    else .sym name none

/-- A symbol with the type after it, or a type such as `list[int]`. -/
def readSymbol (cs : List Char) : Reading Form :=
  let name := cs.takeWhile isNameChar
  let rest := cs.dropWhile isNameChar
  if isName name then
    match rest with
    | '[' :: _ =>
      match Ty.read cs with
      | .ok (ty, rest) => atom (.mark ty) rest
      | .error fault => .error fault
    | ':' :: afterColon =>
      match Ty.read afterColon with
      | .ok (ty, rest) => atom (ofName (String.ofList name) (some ty)) rest
      | .error (.stuck _) => atom (ofName (String.ofList name) none) rest
      | .error fault => .error fault
    | _ => atom (ofName (String.ofList name) none) rest
  else .error (.stuck cs)

/-- Take the first reading that is not stuck; the last one counts in any case. -/
def firstOf : List (List Char → Reading Form) → List Char → Reading Form
  | [], cs => .error (.stuck cs)
  | [shape], cs => shape cs
  | shape :: shapes, cs =>
    match shape cs with
    | .error (.stuck _) => firstOf shapes cs
    | reading => reading

/-- Items up to the closing parenthesis; `fuel` bounds their number. -/
def readItems (read : List Char → Reading Form) : Nat → List Char → Reading (List Form)
  | 0, cs => .error (.stuck cs)
  | fuel + 1, cs =>
    match skipTrivia false cs with
    | ')' :: rest => .ok ([], rest)
    | rest =>
      match read rest with
      | .error fault => .error fault
      | .ok (item, rest) =>
        match readItems read fuel rest with
        | .ok (items, rest) => .ok (item :: items, rest)
        | .error fault => .error fault

/-- The form that a list of items is: `(quote x)` is a quoted form. -/
def ofItems : List Form → Form
  | [.sym "quote" none, inner] => .quote inner
  | items => .list items

/-- A list in parentheses. -/
def readList (read : List Char → Reading Form) (cs : List Char) : Reading Form :=
  match cs with
  | '(' :: inside =>
    match readItems read (inside.length + 1) inside with
    | .ok (items, rest) => .ok (ofItems items, rest)
    | .error fault => .error fault
  | _ => .error (.stuck cs)

/-- A form after an apostrophe. -/
def readQuote (read : List Char → Reading Form) (cs : List Char) : Reading Form :=
  match cs with
  | '\'' :: rest =>
    match read rest with
    | .ok (inner, rest) => .ok (.quote inner, rest)
    | .error fault => .error fault
  | _ => .error (.stuck cs)

/-- Read a form, in front of which there may be spacing and comments, with so many levels left. -/
def read : Nat → List Char → Reading Form
  | 0, _ => .error .tooDeep
  | levels + 1, cs =>
    firstOf
      [readQuote (read levels), readList (read levels), readHexadecimal, readDecimal, readBool,
        readString, readMark, readSymbol]
      (skipTrivia false cs)

/-- What is reported about a fault in a text. -/
def fault (input : List Char) : Fault → ParseCause
  | .tooDeep => .tooDeep maxNesting
  | .badType rest => .badTypeAt (Text.byteLength input - Text.byteLength rest)
  | .stuck rest =>
    let position := Text.byteLength input - Text.byteLength rest
    if position < Text.byteLength input then
      .near (String.ofList ((input.drop position).take 10))
    else .endOfInput

/-- Read forms to the end of the text; `fuel` bounds their number. -/
def readAllWith : Nat → List Char → Except Fault (List Form)
  | 0, cs => .error (.stuck cs)
  | fuel + 1, cs =>
    match skipTrivia false cs with
    | [] => .ok []
    | cs =>
      match read maxNesting cs with
      | .error fault => .error fault
      | .ok (form, rest) =>
        match readAllWith fuel rest with
        | .ok forms => .ok (form :: forms)
        | .error fault => .error fault

/-- Read a text to its end. -/
def readAll (cs : List Char) : Except Fault (List Form) := readAllWith (cs.length + 1) cs

/-- The forms of a program text. -/
def parseAll (source : String) : Except Error (List Form) :=
  match readAll source.toList with
  | .ok forms => .ok forms
  | .error f => .error (.parse (fault source.toList f))

/-- The one form of a text. -/
def parse (source : String) : Except Error Form :=
  match parseAll source with
  | .error error => .error error
  | .ok [] => .error (.parse .endOfInput)
  | .ok [form] => .ok form
  | .ok (form :: _) => .error (.parse (.moreAfter form.text))

end Form

/-- The type that a whole text is, apart from blanks around it. -/
def Ty.parse (text : String) : Except Error Ty :=
  match Ty.read (Text.trim text.toList) with
  | .ok (ty, []) => .ok ty
  | .ok (_, rest) => .error (.parse (.typeTrailing (String.ofList rest)))
  | .error _ => .error (.parse (.typeInvalid text))

end ClauseLisp
