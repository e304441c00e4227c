import ClauseLisp.Machine.Lazy

/-!
# Memo keys

The key of a call is the text of its arguments, each followed by a space. Lists are forced to their
ends and written element by element, so a lazy list and a strict one with the same elements have the
same key. Tags count, and lambdas are told apart by their closures.
-/

namespace ClauseLisp

/-- Write the elements of a list, each followed by a space; `fuel` bounds their number. -/
def listKeyOnto (call : Caller) (key : Value → Run String) : Nat → String → Value → Run String
  | 0, _, _ => throw .outOfFuel
  | fuel + 1, done, value => do
    match ← uncons call "memo" value with
    | none => return done
    | some (head, tail) =>
      let k ← key head
      listKeyOnto call key fuel (done ++ k ++ " ") tail

/-- The key of one value; `fuel` bounds how deeply lists are nested and how long they are. -/
def valueKey (call : Caller) : Nat → Value → Run String
  | 0, _ => throw .outOfFuel
  | fuel + 1, value =>
    match value with
    | .int n => return String.ofList (Number.text n)
    | .bool b => return "#" ++ String.ofList (boolChars b)
    | .str s => return String.ofList (Text.quoted s.toList)
    | .func name => return "#<function " ++ name ++ ">"
    | .lambda closure => return "#<lambda " ++ toString closure ++ ">"
    | .tagged name value => do
      let k ← valueKey call fuel value
      return name ++ ":" ++ k
    | list => do
      let items ← listKeyOnto call (valueKey call fuel) fuel "(" list
      return items ++ ")"

/-- The key of a call, after the keys of its first arguments. -/
def callKeyOnto (call : Caller) (fuel : Nat) (done : String) : List Value → Run String
  | [] => return done
  | argument :: arguments => do
    let k ← valueKey call fuel argument
    callKeyOnto call fuel (done ++ k ++ " ") arguments

/-- The key of a call. -/
def callKey (call : Caller) (fuel : Nat) (arguments : List Value) : Run String :=
  callKeyOnto call fuel "" arguments

end ClauseLisp
