import ClauseLisp.Machine.Lazy

/-!
# Builtins that need the machine

They make or force lazy lists, print, or read files. `=` compares lists element by element and
forces them as far as the comparison needs; `concat` forces all its lists but the last, which
stays as it is.
-/

namespace ClauseLisp

/-- The list argument at a position. -/
def listArgument (arguments : List Value) (position : Nat) : Run Value := do
  match arguments[position]? with
  | none => fail (.arity (position + 1) arguments.length none)
  | some value =>
    if value.isList then return value
    else fail ((← get).view.argumentError "list" value position)

/-- Equality of two lists, where `equal` compares elements; `fuel` bounds their number. -/
def listsEqual (call : Caller) (equal : Value → Value → Run Bool) :
    Nat → Value → Value → Run Bool
  | 0, _, _ => throw .outOfFuel
  | fuel + 1, left, right => do
    match ← uncons call "=" left, ← uncons call "=" right with
    | none, none => return true
    | some (lhead, ltail), some (rhead, rtail) =>
      if ← equal lhead rhead then listsEqual call equal fuel ltail rtail else return false
    | _, _ => return false

/-- Equality of two values, forcing lists; `fuel` bounds how deeply lists are nested and how long
they are. -/
def equalForced (call : Caller) : Nat → Value → Value → Run Bool
  | 0, _, _ => throw .outOfFuel
  | fuel + 1, left, right =>
    if left.isList && right.isList then
      listsEqual call (equalForced call fuel) fuel left right
    else return left.same right

/-- Whether neighbours are equal. -/
def allEqual (call : Caller) (fuel : Nat) : List Value → Run Bool
  | left :: right :: rest => do
    if ← equalForced call fuel left right then allEqual call fuel (right :: rest) else return false
  | _ => return true

/-- The first argument that is not a list, and its position. -/
def firstNonList : Nat → List Value → Option (Nat × Value)
  | _, [] => none
  | position, value :: values =>
    if value.isList then firstNonList (position + 1) values else some (position, value)

/-- The elements of several lists, one list after the other. -/
def elementsOfAll (call : Caller) (fuel : Nat) (context : String) :
    List Value → Run (List Value)
  | [] => return []
  | value :: values => do
    let items ← elements call fuel context value
    let others ← elementsOfAll call fuel context values
    return items ++ others

/-- The text under a tag. -/
def textOf? (value : Value) : Option String :=
  match value.untagged with
  | .str s => some s
  | _ => none

/-- The texts of several values, if all are text. -/
def textsOf? : List Value → Option (List String)
  | [] => some []
  | value :: values =>
    match textOf? value, textsOf? values with
    | some s, some ss => some (s :: ss)
    | _, _ => none

/-- `concat` -/
def concatAll (call : Caller) (fuel : Nat) (arguments : List Value) : Run Value := do
  match arguments.getLast?, textsOf? arguments with
  | none, _ => return .nil
  | some _, some texts => return .str (String.join texts)
  | some last, none =>
    match firstNonList 0 arguments with
    | some (position, value) => fail ((← get).view.argumentError "list" value position)
    | none =>
      let items ← elementsOfAll call fuel "concat" arguments.dropLast
      newValue (Value.append (← get).program.types items last.untagged)

/-- Force the lists among some values to their ends. -/
def forceLists (call : Caller) (fuel : Nat) (context : String) : List Value → Run Unit
  | [] => return ()
  | value :: values => do
    if value.isList then
      let _ ← elements call fuel context value
    forceLists call fuel context values

/-- Print a line. -/
def printLine (line : String) : Run Unit :=
  modify fun s => { s with output := s.output ++ line ++ "\n" }

/-- `print` -/
def printAll (call : Caller) (fuel : Nat) (arguments : List Value) : Run Value := do
  forceLists call fuel "print" arguments
  let nodes := (← get).nodes
  printLine (" ".intercalate (arguments.map (·.display nodes)))
  return .nil

/-- Open a file, as a lazy list of its characters. -/
def openPath (path : String) : Run Value := do
  match (← get).files.find path with
  | none => throw (.unread path)
  | some entry =>
    match Stream.open? path entry with
    | .error cause => fail (.eval cause)
    | .ok stream =>
      let handle := (← get).streams.size
      modify fun s =>
        { s with streams := s.streams.push stream, unclaimed := handle :: s.unclaimed }
      newNode (.func Builtin.readCharName) (.int handle)

/-- The index of a handle among the open files. -/
def handleIndex? (handle : Int) : Option Nat :=
  match handle with
  | .ofNat index => some index
  | .negSucc _ => none

/-- Read one character of a file: the step of an iterator. -/
def readNext (handle : Int) : Run Value := do
  match handleIndex? handle with
  | none => fail (.eval (.invalidHandle handle))
  | some index =>
    match (← get).streams[index]? with
    | none => fail (.eval (.invalidHandle handle))
    | some stream =>
      let (result, stream) := stream.read
      modify fun s => { s with streams := s.streams.modify index fun _ => stream }
      match result with
      | .error cause => fail (.eval cause)
      | .ok none => return .nil
      | .ok (some c) =>
        newValue (Value.ofList (← get).program.types [.str (String.singleton c), .int handle])

/-- Make a lazy list. -/
def makeLazy (arguments : List Value) : Run Value := do
  match arguments with
  | [iterator, state] =>
    if iterator.untagged.isCallable then newNode iterator state
    else fail ((← get).view.argumentError "func" iterator 0)
  | _ => fail (.arity 2 arguments.length none)

/-- Run a builtin that needs the machine. -/
def Intrinsic.run (call : Caller) (fuel : Nat) (arguments : List Value) : Intrinsic → Run Value
  | .equal => do
    return .bool (← allEqual call fuel arguments)
  | .head => do
    match ← uncons call "head" (← listArgument arguments 0) with
    | some (first, _) => return first
    | none => fail (.eval .emptyHead)
  | .tail => do
    match ← uncons call "tail" (← listArgument arguments 0) with
    | some (_, rest) => return rest
    | none => return .nil
  | .isEmpty => do
    return .bool (← uncons call "empty?" (← listArgument arguments 0)).isNone
  | .gen => makeLazy arguments
  | .concat => concatAll call fuel arguments
  | .print => printAll call fuel arguments
  | .openFile =>
    match arguments with
    | [argument] =>
      match argument.untagged with
      | .str path => openPath path
      | other => do fail ((← get).view.argumentError "str" other 0)
    | _ => fail (.arity 1 arguments.length none)
  | .readChar =>
    match arguments with
    | [.int handle] => readNext handle
    | [other] => do fail ((← get).view.argumentError "int" other 0)
    | _ => fail (.arity 1 arguments.length none)

/-- Run a builtin; its errors do not name it. -/
def Builtin.run (call : Caller) (fuel : Nat) (b : Builtin) (arguments : List Value) : Run Value :=
  match b.body with
  | .operation operation => do
    let value ← Run.ofExcept (operation (← get).view arguments)
    newValue value
  | .machine intrinsic => intrinsic.run call fuel arguments

end ClauseLisp
