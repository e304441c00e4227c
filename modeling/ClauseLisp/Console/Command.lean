import ClauseLisp.Console.Line
import ClauseLisp.Console.Repl

/-!
# Commands

`run` loads a file and runs it, `check` loads it and reports diagnostics, `repl` is the interactive
session. Modules are looked for beside the file that is loaded. What a command prints, what it
complains about and its exit code make its transcript.
-/

namespace ClauseLisp

/-- What can be asked for on the command line. -/
inductive Command where
  /-- Run a file, after checking it or at once. -/
  | run (file : String) (check : Bool)
  | check (file : String)
  | repl
deriving Repr, DecidableEq, Inhabited

/-- What a command prints, what it complains about, and its exit code. -/
structure Transcript where
  out : String := ""
  err : String := ""
  code : Nat := 0
deriving Repr, DecidableEq, Inhabited

namespace Command

/-- The command that arguments mean. -/
def ofArguments? : List String → Option Command
  | ["run", "--check", file] => some (.run file true)
  | ["run", file, "--check"] => some (.run file true)
  | ["run", file] => some (.run file false)
  | ["check", file] => some (.check file)
  | ["repl"] => some .repl
  | _ => none

/-- Load a file with the modules that it uses. -/
def loadFile (files : Files) (fuel : Nat) (file : String) : Except Stop Program :=
  match files.readText file with
  | none => .error (.unread file)
  | some (.error reason) => .error (.error (.eval (.cannotRead file reason)))
  | some (.ok source) =>
    Program.ofText (files.loader ((Path.parent? file).getD ".")) fuel source

/-- The transcript of a command that failed, after it had printed something. -/
def failed (out : String) (error : Error) : Transcript :=
  { out, err := "Error: " ++ error.message ++ "\n", code := 1 }

/-- Run a loaded program. -/
def runProgram (files : Files) (fuel : Nat) (program : Program) : Except Stop Transcript :=
  match Session.run fuel { program, files } with
  | (.ok _, s) => .ok { out := s.output }
  | (.error (.error error), s) => .ok (failed s.output error)
  | (.error stop, _) => .error stop

/-- What a command does; `lines` is what the interactive session reads. -/
def transcript (files : Files) (fuel : Nat) (lines : List String) :
    Command → Except Stop Transcript
  | .run file checkFirst =>
    match loadFile files fuel file with
    | .error (.error error) => .ok (failed "" error)
    | .error stop => .error stop
    | .ok program =>
      let diagnostics := if checkFirst then program.check else []
      if diagnostics.isEmpty then runProgram files fuel program
      else .ok { err := reportText diagnostics, code := 1 }
  | .check file =>
    match loadFile files fuel file with
    | .error (.error error) => .ok (failed "" error)
    | .error stop => .error stop
    | .ok program =>
      let diagnostics := program.check
      if diagnostics.isEmpty then .ok {}
      else
        .ok
          { out := reportText diagnostics
            err := toString diagnostics.length ++ " diagnostic(s)\n"
            code := 1 }
  | .repl =>
    match Repl.transcript fuel files lines with
    | .ok out => .ok { out }
    | .error stop => .error stop

end Command

end ClauseLisp
