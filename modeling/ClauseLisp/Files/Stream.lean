import ClauseLisp.Files.Basic

/-!
# File streams

An open file is read one character at a time, from what is left of its bytes. A directory can be
opened too, but every attempt to read it fails. A stream is closed once and for all.
-/

namespace ClauseLisp

/-- What an open file still has to give. -/
inductive Source where
  | bytes (rest : List UInt8)
  | directory
deriving Repr, DecidableEq, Inhabited

/-- A file that has been opened; without a source, it is closed. -/
structure Stream where
  path : String
  source : Option Source
deriving Repr, DecidableEq, Inhabited

namespace Stream

/-- Open an entry. -/
def open? (path : String) : Entry → Except EvalCause Stream
  | .file content => .ok ⟨path, some (.bytes content)⟩
  | .directory => .ok ⟨path, some .directory⟩
  | .fault reason => .error (.cannotOpen path reason)

/-- Close a stream. -/
def close (s : Stream) : Stream := { s with source := none }

/-- Whether a stream is open. -/
def isOpen (s : Stream) : Bool := s.source.isSome

/-- Read one character; at the end of the file there is none. -/
def read (s : Stream) : Except EvalCause (Option Char) × Stream :=
  match s.source with
  | none => (.error (.closedFile s.path), s)
  | some .directory => (.error (.cannotRead s.path Files.isDirectory), s)
  | some (.bytes bytes) =>
    match Text.decodeUtf8 bytes with
    | .finished => (.ok none, s)
    | .char c rest => (.ok (some c), { s with source := some (.bytes rest) })
    | .invalid rest => (.error (.invalidText s.path), { s with source := some (.bytes rest) })
    | .cut => (.error (.cannotRead s.path Files.cutShort), { s with source := some (.bytes []) })

end Stream

end ClauseLisp
