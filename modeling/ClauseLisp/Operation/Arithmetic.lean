import ClauseLisp.Number
import ClauseLisp.Operation.Basic

/-!
# Arithmetic

Sums, differences and products are worked out from left to right, and every intermediate result must
be a number. Division goes toward zero, and the remainder has the sign of the dividend. A comparison
of several numbers holds when it holds between neighbours.
-/

namespace ClauseLisp.Operation

/-- A result that must be a number. -/
def checked (operation : String) (n : Int) : Except Error Int :=
  match Number.checked? n with
  | some n => .ok n
  | none => .error (.eval (.overflow operation))

/-- Work through numbers from left to right. -/
def foldChecked (operation : String) (f : Int → Int → Int) : Int → List Int → Except Error Int
  | n, [] => .ok n
  | n, m :: ms =>
    match checked operation (f n m) with
    | .ok n => foldChecked operation f n ms
    | .error error => .error error

/-- Sum of numbers. -/
def sum (ns : List Int) : Except Error Int := foldChecked "addition" (· + ·) 0 ns

/-- Difference of numbers; of one number, its negation. -/
def difference (n : Int) : List Int → Except Error Int
  | [] => checked "negation" (-n)
  | ms => foldChecked "subtraction" (· - ·) n ms

/-- Product of numbers. -/
def product (n : Int) (ms : List Int) : Except Error Int :=
  foldChecked "multiplication" (· * ·) n ms

/-- Quotient, toward zero. -/
def quotient (n d : Int) : Except Error Int :=
  if d = 0 then .error (.eval .divisionByZero) else checked "division" (n.tdiv d)

/-- Remainder of the division toward zero; it is refused where the quotient is no number. -/
def remainder (n d : Int) : Except Error Int :=
  if d = 0 then .error (.eval .moduloByZero)
  else
    match checked "modulo" (n.tdiv d) with
    | .ok _ => .ok (n.tmod d)
    | .error error => .error error

/-- Whether a relation holds between neighbours. -/
def chained (holds : Int → Int → Bool) : Int → List Int → Bool
  | _, [] => true
  | n, m :: ms => holds n m && chained holds m ms

/-- A number as the result of an operation. -/
def intResult : Except Error Int → Except Error Value
  | .ok n => .ok (.int n)
  | .error error => .error error

/-- `+` -/
def add : Operation := rest0 fun _ ns => intResult (sum ns)

/-- `-` -/
def sub : Operation := rest1 fun _ n ms => intResult (difference n ms)

/-- `*` -/
def mul : Operation := rest1 fun _ n ms => intResult (product n ms)

/-- `/` -/
def div : Operation := fixed2 fun _ n d => intResult (quotient n d)

/-- `%` -/
def mod : Operation := fixed2 fun _ n d => intResult (remainder n d)

/-- A comparison of neighbours. -/
def comparison (holds : Int → Int → Bool) : Operation :=
  rest1 fun _ n ms => .ok (.bool (chained holds n ms))

/-- `<` -/
def less : Operation := comparison fun m n => m < n

/-- `>` -/
def greater : Operation := comparison fun m n => m > n

/-- `<=` -/
def lessEqual : Operation := comparison fun m n => m ≤ n

/-- `>=` -/
def greaterEqual : Operation := comparison fun m n => m ≥ n

/-- `not` -/
def negation : Operation := fixed1 fun _ (b : Bool) => .ok (.bool !b)

end ClauseLisp.Operation
