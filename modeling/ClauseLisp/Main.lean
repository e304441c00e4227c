import ClauseLisp.Console.Command

/-!
# The command line

Commands are worked out without touching the outside world: they stop at the first file whose
content is not known. The loops here read that file, go back and try again, and print what comes
out.
-/

namespace ClauseLisp.Main

/-- The text of an error of the system, with its number. -/
def systemText (code : UInt32) (details : String) : String :=
  details ++ " (os error " ++ toString code ++ ")"

/-- The reason that the system gives for not opening a file. -/
def reason : IO.Error → String
  | .noFileOrDirectory _ code details => systemText code details
  | .inappropriateType _ code details => systemText code details
  | .invalidArgument _ code details => systemText code details
  | .permissionDenied _ code details => systemText code details
  | error => toString error

/-- What an opened path gives; what cannot be read is a directory. -/
def readOpened (handle : IO.FS.Handle) : IO Entry := do
  try
    let content ← handle.readBinToEnd
    return .file content.toList
  catch _ => return .directory

/-- What stands under a path. -/
def readEntry (path : String) : IO Entry := do
  if path.toList.contains '\x00' then return .fault Files.zeroInPath
  try
    let handle ← IO.FS.Handle.mk path .read
    readOpened handle
  catch error => return .fault (reason error)

/-- The files that have been read. -/
def filesOf (known : Dict Entry) : Files := ⟨known.get?⟩

/-- Print a text at once. -/
def printNow (text : String) : IO Unit := do
  let out ← IO.getStdout
  out.putStr text
  out.flush

/-- Work on a command, reading files as they are needed. -/
partial def perform (command : Command) (known : Dict Entry) : IO UInt32 := do
  match command.transcript (filesOf known) Session.unlimited [] with
  | .ok transcript =>
    printNow transcript.out
    IO.eprint transcript.err
    return transcript.code.toUInt32
  | .error (.unread path) => perform command (known.insert path (← readEntry path))
  | .error _ => return 1

/-- Work on one line of the interactive session, reading files as they are needed. -/
partial def answer (repl : Repl) (line : String) (known : Dict Entry) :
    IO (Repl.Reply × Dict Entry) := do
  let repl := { repl with state := { repl.state with files := filesOf known } }
  match repl.feed Session.unlimited line with
  | .stop (.unread path) => answer repl line (known.insert path (← readEntry path))
  | reply => return (reply, known)

/-- The interactive session. -/
partial def converse (repl : Repl) (known : Dict Entry) : IO UInt32 := do
  let line ← (← IO.getStdin).getLine
  match inputLines line with
  | [] =>
    printNow Repl.farewell
    return 0
  | line :: _ =>
    let (reply, known) ← answer repl line known
    match reply with
    | .say text repl =>
      printNow text
      converse repl known
    | .quit text =>
      printNow text
      return 0
    | .stop _ => return 1

end ClauseLisp.Main

open ClauseLisp in
/-- Run the command that the arguments ask for. -/
def main (arguments : List String) : IO UInt32 := do
  match Command.ofArguments? arguments with
  | some .repl =>
    Main.printNow Repl.banner
    Main.converse {} {}
  | some command => Main.perform command {}
  | none =>
    IO.eprintln "usage: clausal run [--check] FILE | check FILE | repl"
    return 2
