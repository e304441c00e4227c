import ClauseLisp.Files.Path
import ClauseLisp.Program.Loading
import ClauseLisp.Text.Utf8

/-!
# Files

A program sees files through `Files`, which says what stands under a path. A path whose entry is not
known yet stops the computation with `Stop.unread`, so that whoever runs it can supply the entry and
run it again; `Files.ofTree` knows everything below one directory and nothing else.
-/

namespace ClauseLisp

/-- What stands under a path. -/
inductive Entry where
  | file (content : List UInt8)
  | directory
  /-- The path cannot be opened, for this reason. -/
  | fault (reason : String)
deriving Repr, DecidableEq, Inhabited

/-- What is known of the files. -/
structure Files where
  find : String → Option Entry

namespace Files

/-- No entry has this path. -/
def noEntry : String := "No such file or directory (os error 2)"

/-- A part of the path is a file, where a directory is needed. -/
def notDirectory : String := "Not a directory (os error 20)"

/-- A directory cannot be read as a file. -/
def isDirectory : String := "Is a directory (os error 21)"

/-- A part of the path or all of it has too many bytes. -/
def tooLong : String := "File name too long (os error 36)"

/-- A path cannot contain a zero character. -/
def zeroInPath : String := "file name contained an unexpected NUL byte"

/-- A text was wanted. -/
def notText : String := "stream did not contain valid UTF-8"

/-- A file ended inside a character. -/
def cutShort : String := "failed to fill whole buffer"

instance : Inhabited Files := ⟨⟨fun _ => some (.fault noEntry)⟩⟩

/-- The entry below a directory that the names lead to, in a list of files by their names. -/
def lookupTree (tree : List (List String × List UInt8)) (names : List String) : Entry :=
  match tree.find? fun file => file.1 = names with
  | some file => .file file.2
  | none =>
    if names.isEmpty || tree.any fun file => names.isPrefixOf file.1 then .directory
    else .fault noEntry

/-- Number of bytes that a part of a path may have. -/
def maxPartSize : Nat := 255

/-- Number of bytes that a path may have. -/
def maxPathSize : Nat := 4095

/-- Follow the parts of a path from a directory, whose names are given last first. `none` is a
directory above the one that the files are in. -/
def follow (tree : List (List String × List UInt8)) : Option (List String) → List String → Entry
  | at?, [] =>
    match at? with
    | some names => lookupTree tree names.reverse
    | none => .directory
  | at?, part :: parts =>
    match at? with
    | none =>
      if part = "" || part = "." || part = ".." then follow tree none parts
      else if part.utf8ByteSize > maxPartSize then .fault tooLong
      else .fault noEntry
    | some names =>
      match lookupTree tree names.reverse with
      | .fault reason => .fault reason
      | .file _ => .fault notDirectory
      | .directory =>
        if part = "" || part = "." then follow tree (some names) parts
        else if part = ".." then
          match names with
          | [] => follow tree none parts
          | _ :: names => follow tree (some names) parts
        else if part.utf8ByteSize > maxPartSize then .fault tooLong
        else follow tree (some (part :: names)) parts

/-- The files below the working directory, by their paths. -/
def ofTree (files : List (String × List UInt8)) : Files :=
  let tree := files.map fun file =>
    ((Path.parts file.1).filter fun part => part != "" && part != ".", file.2)
  ⟨fun path =>
    if path.isEmpty then some (.fault noEntry)
    else if path.toList.contains '\x00' then some (.fault zeroInPath)
    else if path.utf8ByteSize > maxPathSize then some (.fault tooLong)
    else if path.startsWith "/" then some (follow tree none (Path.parts path))
    else some (follow tree (some []) (Path.parts path))⟩

/-- The text of a file or the reason why there is none; `none` if its entry is not known. -/
def readText (files : Files) (path : String) : Option (Except String String) :=
  match files.find path with
  | none => none
  | some (.fault reason) => some (.error reason)
  | some .directory => some (.error isDirectory)
  | some (.file content) =>
    match Text.utf8Text? content with
    | some cs => some (.ok (String.ofList cs))
    | none => some (.error notText)

/-- Modules that are files, as seen from a directory. -/
def loader (files : Files) (directory : String) : Loader := fun path =>
  let full := Path.join directory path
  match files.readText full with
  | none => .error (.unread full)
  | some (.ok source) => .ok source
  | some (.error reason) => .error (.error (.eval (.cannotLoad full reason)))

end Files

end ClauseLisp
