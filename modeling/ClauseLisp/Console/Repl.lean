import ClauseLisp.Check
import ClauseLisp.Machine.Session

/-!
# The interactive session

Lines are collected into an entry until its parentheses and quotes are balanced; then it is loaded
as a module of its own and evaluated, and its value is shown unless it is the empty list. A few
commands start with a colon. `Repl.feed` takes one line and says what to show.
-/

namespace ClauseLisp

/-- What has been seen of an entry that may go on. -/
structure Balance where
  /-- Parentheses opened and not closed. -/
  depth : Int := 0
  inString : Bool := false
  escaped : Bool := false
  inComment : Bool := false
deriving Repr, DecidableEq, Inhabited

namespace Balance

/-- See one more character. -/
def next (b : Balance) (c : Char) : Balance :=
  if b.inComment then { b with inComment := c != '\n' }
  else if b.escaped then { b with escaped := false }
  else if c = '\\' && b.inString then { b with escaped := true }
  else if c = '"' then { b with inString := !b.inString }
  else if b.inString then b
  else if c = ';' then { b with inComment := true }
  else if c = '(' then { b with depth := b.depth + 1 }
  else if c = ')' then { b with depth := b.depth - 1 }
  else b

/-- Whether a text goes on: a parenthesis or a string is still open. -/
def goesOn (cs : List Char) : Bool :=
  let b := cs.foldl next {}
  b.depth > 0 || b.inString

end Balance

/-- An interactive session: the machine, and the lines of an entry that goes on. -/
structure Repl where
  state : State := {}
  pending : String := ""
deriving Inhabited

/-- What a line brings about. -/
inductive Repl.Reply where
  /-- Show a text and go on. -/
  | say (text : String) (repl : Repl)
  /-- Show a text and end. -/
  | quit (text : String)
  /-- The line cannot be worked on. -/
  | stop (reason : Stop)
deriving Inhabited

namespace Repl

/-- What is shown at the start. -/
def banner : String :=
  "clausal interactive session\nEnter expressions like: (+ 1 2)\n" ++
    "Type :help for more commands, or Ctrl+D to exit.\n\n"

/-- What is shown at the end. -/
def farewell : String := "Goodbye!\n"

/-- What `:help` shows. -/
def help : String := "\n".intercalate [
  "Commands:",
  "  :help      - Show this help message",
  "  :env       - Show user functions and global bindings",
  "  :check     - Type-check everything entered so far",
  "  :quit      - Exit the session",
  "  :exit      - Exit the session",
  "  Ctrl+D     - Exit the session",
  "",
  "Each entry is loaded as its own module: re-entering a function",
  "replaces it, so give all clauses of a function in one entry.",
  "An entry with unbalanced parentheses continues on the next line.",
  "",
  "Examples:",
  "  (def fact (0) 1) (def fact (n:int) :int (* n (fact (- n 1))))",
  "  (fact 10)",
  "  (def nat (n) (list n (+ n 1)))",
  "  (head (tail (gen nat 0)))",
  "",
  ""]

/-- Text filled up with spaces to a width. -/
def padRight (width : Nat) (text : String) : String :=
  text ++ String.ofList (List.replicate (width - text.length) ' ')

/-- Names in rows of four. -/
def rows : Nat → List String → String
  | 0, _ => ""
  | fuel + 1, names =>
    if names.isEmpty then ""
    else
      String.join ((names.take 4).map fun name => "  " ++ padRight 15 name) ++ "\n" ++
        rows fuel (names.drop 4)

/-- What `:env` shows about the functions of a program. -/
def functionsText (functions : List Function) : String :=
  if functions.isEmpty then ""
  else
    "User functions (" ++ toString functions.length ++ "):\n" ++
      String.join (functions.map fun f =>
        "  " ++ f.name ++ " (" ++ toString f.clauses.length ++ " clauses) : " ++
          f.signature.text ++ "\n") ++ "\n"

/-- What `:env` shows about the variables at top level. -/
def globalsText (s : State) : String :=
  let names := s.scopes.names Scopes.globals
  if names.isEmpty then ""
  else
    "Global bindings (" ++ toString names.length ++ "):\n" ++
      String.join (names.map fun name =>
        match s.scopes.get? Scopes.globals name with
        | some value => "  " ++ name ++ " = " ++ s.repr value ++ "\n"
        | none => "")

/-- What `:env` shows. -/
def environment (s : State) : String :=
  let builtins := Builtin.table.map (·.id)
  "Built-in functions (" ++ toString builtins.length ++ "):\n" ++
    rows builtins.length builtins ++ "\n" ++
    functionsText s.program.sortedFunctions ++ globalsText s

/-- What is shown of the outcome of an entry. -/
def outcomeText (s : State) : Except Error Value → String
  | .ok .nil => ""
  | .ok value => s.repr value ++ "\n"
  | .error error => "Error: " ++ error.message ++ "\n"

/-- Work on a complete entry. -/
def enter (fuel : Nat) (state : State) (entry : String) : Reply :=
  match Session.evalText (state.files.loader ".") fuel entry { state with output := "" } with
  | (.ok value, s) => .say (s.output ++ outcomeText s (.ok value)) { state := s }
  | (.error (.error error), s) => .say (s.output ++ outcomeText s (.error error)) { state := s }
  | (.error stop, _) => .stop stop

/-- Work on one line. -/
def feed (fuel : Nat) (repl : Repl) (line : String) : Reply :=
  let proceed : Reply :=
    let entry := repl.pending ++ line ++ "\n"
    if Balance.goesOn entry.toList then .say "" { repl with pending := entry }
    else enter fuel repl.state entry
  if repl.pending.isEmpty then
    match String.ofList (Text.trim line.toList) with
    | "" => .say "" repl
    | ":help" => .say help repl
    | ":env" => .say (environment repl.state) repl
    | ":check" => .say (reportText repl.state.program.check) repl
    | ":quit" => .quit farewell
    | ":exit" => .quit farewell
    | _ => proceed
  else proceed

/-- What is shown for several lines, up to the end of the input; what stands in front of it is
`shown`. -/
def transcriptAfter (fuel : Nat) (shown : String) (repl : Repl) : List String → Except Stop String
  | [] => .ok (shown ++ farewell)
  | line :: lines =>
    match feed fuel repl line with
    | .say text repl => transcriptAfter fuel (shown ++ text) repl lines
    | .quit text => .ok (shown ++ text)
    | .stop reason => .error reason

/-- What a whole session shows. -/
def transcript (fuel : Nat) (files : Files) (lines : List String) : Except Stop String :=
  transcriptAfter fuel banner { state := { files } } lines

end Repl

end ClauseLisp
