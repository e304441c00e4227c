import ClauseLisp.Text.Character
import ClauseLisp.Ty.Basic

/-!
# Reading types

A type is a name, or `list` or `func` with types in square brackets, separated by commas. Names are
taken as they stand; `Registry.resolve` later finds out which are variables and which are known.

A reader either succeeds with a value and the rest of the text or says where it stopped.
`Fault.stuck` lets the caller try something else, the other faults end the reading of the whole
text.
-/

namespace ClauseLisp

/-- Why a text could not be read. -/
inductive Fault where
  /-- Nothing that can be read starts here. -/
  | stuck (rest : List Char)
  /-- The type that starts here has arguments that it cannot take. -/
  | badType (rest : List Char)
  /-- Forms are nested too deeply. -/
  | tooDeep
deriving Repr, DecidableEq

/-- What a reader makes of a text: a value and the rest of the text, or a fault. -/
abbrev Reading (α : Type) := Except Fault (α × List Char)

namespace Ty

/-- Characters of type names. -/
def isNameChar (c : Char) : Bool := Text.isAlphanumeric c || c = '_' || c = '-'

/-- The types after the first in square brackets; `fuel` bounds their number. -/
def readMore (read : List Char → Reading Ty) : Nat → List Char → Reading (List Ty)
  | 0, cs => .ok ([], cs)
  | fuel + 1, cs =>
    match Text.dropSpacing cs with
    | ',' :: rest =>
      match read (Text.dropSpacing rest) with
      | .ok (t, rest) =>
        match readMore read fuel rest with
        | .ok (ts, rest) => .ok (t :: ts, rest)
        | .error fault => .error fault
      | .error (.stuck _) => .ok ([], cs)
      | .error fault => .error fault
    | _ => .ok ([], cs)

/-- One or more types in square brackets. -/
def readArguments (read : List Char → Reading Ty) : List Char → Reading (List Ty)
  | '[' :: cs =>
    match read (Text.dropSpacing cs) with
    | .error fault => .error fault
    | .ok (t, rest) =>
      match readMore read rest.length rest with
      | .error fault => .error fault
      | .ok (ts, rest) =>
        match Text.dropSpacing rest with
        | ']' :: rest => .ok (t :: ts, rest)
        | rest => .error (.stuck rest)
  | cs => .error (.stuck cs)

/-- The type that a name and its arguments make, if they make one. -/
def ofParts? (name : String) : Option (List Ty) → Option Ty
  | none =>
    if name = "list" then some listAny
    else if name = "func" then some .func
    else some (.named name)
  | some args =>
    if name = "list" then
      match args with
      | [elem] => some (.list elem)
      | _ => none
    else if name = "func" then args.getLast?.map fun ret => .arrow args.dropLast ret
    else none

/-- Read a type; `fuel` bounds how deeply square brackets are nested. -/
def readWith : Nat → List Char → Reading Ty
  | 0, cs => .error (.stuck cs)
  | fuel + 1, cs =>
    let name := cs.takeWhile isNameChar
    let rest := cs.dropWhile isNameChar
    if name.isEmpty then .error (.stuck cs)
    else
      let finish (args : Option (List Ty)) (rest : List Char) : Reading Ty :=
        match ofParts? (String.ofList name) args with
        | some t => .ok (t, rest)
        | none => .error (.badType cs)
      match readArguments (readWith fuel) rest with
      | .ok (args, rest) => finish (some args) rest
      | .error (.stuck _) => finish none rest
      | .error fault => .error fault

/-- Read a type at the front of a text. -/
def read (cs : List Char) : Reading Ty := readWith (cs.length + 1) cs

end Ty

end ClauseLisp
