/-!
# Numbers

The numbers of the language are the integers from −2⁶³ to 2⁶³ − 1. Arithmetic is exact: a result
outside this range is refused, never wrapped, so numbers are plain integers and `Number.checked?`
decides whether a result is one.
-/

namespace ClauseLisp

/-- Least number. -/
def Number.least : Int := -9223372036854775808

/-- Greatest number. -/
def Number.greatest : Int := 9223372036854775807

/-- Numbers are the integers that fit in 64 bits with a sign. -/
def Number.inRange (n : Int) : Bool := Number.least ≤ n && n ≤ Number.greatest

/-- The integer itself, if it is a number. -/
def Number.checked? (n : Int) : Option Int := if Number.inRange n then some n else none

/-- Value of a run of digits in a base. -/
def Number.ofDigits (base : Nat) (digit : Char → Nat) (cs : List Char) : Nat :=
  cs.foldl (fun n c => n * base + digit c) 0

/-- Value of a decimal digit. -/
def Number.decimalDigit (c : Char) : Nat := c.toNat - '0'.toNat

/-- Value of a hexadecimal digit, of either case. -/
def Number.hexDigit (c : Char) : Nat :=
  if c.isDigit then c.toNat - '0'.toNat
  else if c.isLower then c.toNat - 'a'.toNat + 10
  else c.toNat - 'A'.toNat + 10

/-- Hexadecimal digits of either case. -/
def Number.isHexDigit (c : Char) : Bool :=
  c.isDigit || ('a' ≤ c && c ≤ 'f') || ('A' ≤ c && c ≤ 'F')

/-- Decimal text of a number. -/
def Number.text (n : Int) : List Char :=
  match n with
  | .ofNat m => Nat.toDigits 10 m
  | .negSucc m => '-' :: Nat.toDigits 10 (m + 1)

end ClauseLisp
