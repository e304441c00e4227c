import ClauseLisp.Text.Hidden

/-!
# Quoted text

A string literal stands between double quotes. Five characters are written as a backslash and a
letter or sign, everything else as itself. `encode` writes the inside of a literal, `decode` reads
it up to the closing quote and returns what follows; any other escape, and a missing closing quote,
is refused.

A summary *spells* a text so that all of it can be seen: between double quotes, with the escapes
of a string literal, a zero character as `\0`, and any other hidden character by its code point, in
hexadecimal digits between braces. Unlike a string literal it is not meant to be read back.
-/

namespace ClauseLisp.Text

/-! ## String literals -/

/-- One character inside a string literal. -/
def encodeChar : Char → List Char
  | '"' => ['\\', '"']
  | '\\' => ['\\', '\\']
  | '\n' => ['\\', 'n']
  | '\t' => ['\\', 't']
  | '\r' => ['\\', 'r']
  | c => [c]

/-- The inside of a string literal. -/
def encode (cs : List Char) : List Char := cs.flatMap encodeChar

/-- A whole string literal, with its quotes. -/
def quoted (cs : List Char) : List Char := '"' :: (encode cs ++ ['"'])

/-- The character that an escape letter stands for. -/
def escape? : Char → Option Char
  | 'n' => some '\n'
  | 't' => some '\t'
  | 'r' => some '\r'
  | '\\' => some '\\'
  | '"' => some '"'
  | _ => none

/-- Read the inside of a literal up to its closing quote; `done` holds what was read, last first. -/
def decodeOnto (done : List Char) : List Char → Option (List Char × List Char)
  | [] => none
  | '"' :: rest => some (done.reverse, rest)
  | ['\\'] => none
  | '\\' :: c :: rest =>
    match escape? c with
    | some d => decodeOnto (d :: done) rest
    | none => none
  | c :: rest => decodeOnto (c :: done) rest

/-- Read the inside of a literal: its text, and what follows the closing quote. -/
def decode (cs : List Char) : Option (List Char × List Char) := decodeOnto [] cs

/-! ## Spelled text -/

/-- A character by its code point. -/
def codePoint (c : Char) : List Char :=
  ['\\', 'u', '\x7b'] ++ Nat.toDigits 16 c.toNat ++ ['\x7d']

/-- One character of a spelled text. -/
def spellChar (c : Char) : List Char :=
  if c = '\x00' then ['\\', '0']
  else
    match encodeChar c with
    | [c] => if isHidden c then codePoint c else [c]
    | escaped => escaped

/-- A text between quotes, with nothing hidden in it. -/
def spelled (cs : List Char) : List Char := '"' :: (cs.flatMap spellChar ++ ['"'])

end ClauseLisp.Text
