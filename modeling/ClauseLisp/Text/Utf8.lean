/-!
# UTF-8, one character at a time

A byte stream is decoded by its first byte: it announces how many bytes the character takes, that
many are taken from the stream, and they must be a well-formed encoding (shortest form, no
surrogate, at most U+10FFFF). The outcome tells the three ways of failing apart because they leave
the stream in different places: a byte that cannot start a character is not taken, a stream that
ends early is used up, and ill-formed bytes are taken.
-/

namespace ClauseLisp.Text

/-- Number of bytes that a first byte announces. -/
def announced? (first : UInt8) : Option Nat :=
  let b := first.toNat
  if b < 0x80 then some 1
  else if b < 0xc0 then none
  else if b < 0xe0 then some 2
  else if b < 0xf0 then some 3
  else if b < 0xf8 then some 4
  else none

/-- Six payload bits of a continuation byte. -/
def continuation? (byte : UInt8) : Option Nat :=
  let b := byte.toNat
  if 0x80 ≤ b ∧ b < 0xc0 then some (b - 0x80) else none

/-- The character with this number, if there is one and the number is at least `least`. -/
def scalar? (least n : Nat) : Option Char :=
  if least ≤ n ∧ n.isValidChar then some (Char.ofNat n) else none

/-- The character that exactly these bytes encode. -/
def utf8Char? : List UInt8 → Option Char
  | [a] => if a.toNat < 0x80 then some (Char.ofNat a.toNat) else none
  | [a, b] => do
    let b ← continuation? b
    scalar? 0x80 ((a.toNat - 0xc0) * 64 + b)
  | [a, b, c] => do
    let b ← continuation? b
    let c ← continuation? c
    scalar? 0x800 (((a.toNat - 0xe0) * 64 + b) * 64 + c)
  | [a, b, c, d] => do
    let b ← continuation? b
    let c ← continuation? c
    let d ← continuation? d
    scalar? 0x10000 ((((a.toNat - 0xf0) * 64 + b) * 64 + c) * 64 + d)
  | _ => none

/-- What taking one character off a byte stream gives. -/
inductive Decoded where
  /-- The stream is at its end. -/
  | finished
  /-- A character, and the bytes after it. -/
  | char (c : Char) (rest : List UInt8)
  /-- The bytes announced are no character; `rest` follows them. -/
  | invalid (rest : List UInt8)
  /-- The stream ends inside a character. -/
  | cut
deriving Repr, DecidableEq

/-- Take one character off a byte stream. -/
def decodeUtf8 : List UInt8 → Decoded
  | [] => .finished
  | first :: rest =>
    match announced? first with
    | none => .invalid (first :: rest)
    | some width =>
      let bytes := (first :: rest).take width
      if bytes.length < width then .cut
      else
        match utf8Char? bytes with
        | some c => .char c ((first :: rest).drop width)
        | none => .invalid ((first :: rest).drop width)

/-- Decode a whole byte string; `fuel` bounds the number of characters. -/
def utf8TextWith : Nat → List Char → List UInt8 → Option (List Char)
  | 0, _, _ => none
  | fuel + 1, done, bytes =>
    match decodeUtf8 bytes with
    | .finished => some done.reverse
    | .char c rest => utf8TextWith fuel (c :: done) rest
    | .invalid _ => none
    | .cut => none

/-- The text that a byte string encodes, if it is well-formed UTF-8. -/
def utf8Text? (bytes : List UInt8) : Option (List Char) := utf8TextWith (bytes.length + 1) [] bytes

end ClauseLisp.Text
