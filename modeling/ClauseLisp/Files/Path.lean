/-!
# File paths

Paths are text with `/` between their parts. An absolute path stands for itself; any other is joined
to a directory. Parts `.` and doubled slashes mean nothing at the end of a path.
-/

namespace ClauseLisp.Path

/-- A path as seen from a directory. -/
def join (directory path : String) : String :=
  if path.startsWith "/" then path
  else if directory.isEmpty || directory.endsWith "/" then directory ++ path
  else directory ++ "/" ++ path

/-- Drop slashes and parts `.` from the end of a path, which is given backwards. -/
def trimBack : List Char → List Char
  | '/' :: cs => trimBack cs
  | '.' :: '/' :: cs => trimBack cs
  | cs => cs

/-- The directory of a path: the path without its last part. -/
def parent? (path : String) : Option String :=
  match trimBack path.toList.reverse with
  | [] => none
  | back =>
    let before := back.dropWhile (· != '/')
    if before.isEmpty then some ""
    else
      match trimBack before with
      | [] => some "/"
      | dir => some (String.ofList dir.reverse)

/-- The parts of a path between slashes. -/
def partsOnto (part : List Char) : List Char → List String
  | [] => [String.ofList part.reverse]
  | '/' :: cs => String.ofList part.reverse :: partsOnto [] cs
  | c :: cs => partsOnto (c :: part) cs

/-- The parts of a path between slashes; some may be empty. -/
def parts (path : String) : List String := partsOnto [] path.toList

end ClauseLisp.Path
