import ClauseLisp.Text.Cluster.Split

/-!
# Lines of input

The interactive session reads lines. A line ends with a line feed, which a carriage return may
precede; the last one may lack it. A backspace in a line takes back what was typed last, one
cluster at a time, so a letter goes together with its marks.

The size of a cluster is noted in one byte. A cluster of 256 bytes or more therefore loses only what
its size leaves over.
-/

namespace ClauseLisp

/-- What has been typed of a line. -/
structure Typed where
  /-- The characters, last first. -/
  back : List Char := []
  /-- The sizes of the clusters that can be taken back, last first. -/
  sizes : List Nat := []
deriving Repr, DecidableEq, Inhabited

namespace Typed

/-- Number of bytes of a text. -/
def byteSize (cs : List Char) : Nat := cs.foldl (fun size c => size + c.utf8Size) 0

/-- Take so many bytes off a text that is given backwards. -/
def dropBytes : Nat → List Char → List Char
  | 0, cs => cs
  | _, [] => []
  | size, c :: cs => dropBytes (size - c.utf8Size) cs

/-- Type one more cluster, or take the last one back. -/
def type (t : Typed) (cluster : List Char) : Typed :=
  if cluster = ['\x08'] then
    match t.sizes with
    | [] => t
    | size :: sizes => ⟨dropBytes size t.back, sizes⟩
  else ⟨cluster.reverse ++ t.back, byteSize cluster % 256 :: t.sizes⟩

/-- The text. -/
def text (t : Typed) : List Char := t.back.reverse

end Typed

/-- A line as its backspaces leave it. -/
def afterBackspaces (line : List Char) : List Char :=
  ((Text.clusters line).foldl Typed.type {}).text

/-- The lines of a text as they stand, the first of which starts with `line`, given backwards. -/
def rawLinesOnto (line : List Char) : List Char → List (List Char)
  | [] => if line.isEmpty then [] else [line.reverse]
  | '\r' :: '\n' :: cs => line.reverse :: rawLinesOnto [] cs
  | '\n' :: cs => line.reverse :: rawLinesOnto [] cs
  | c :: cs => rawLinesOnto (c :: line) cs

/-- The lines of a text. -/
def inputLines (text : String) : List String :=
  (rawLinesOnto [] text.toList).map fun line => String.ofList (afterBackspaces line)

end ClauseLisp
