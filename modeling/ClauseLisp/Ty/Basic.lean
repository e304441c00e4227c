/-!
# Types

Types are names, lists and functions. The names `int`, `str`, `bool` and `any` are built in, and a
program declares more below them. `list` alone is the list of `any`. A function type may name its
parameters and its result, or be bare `func`. A type variable stands for whatever one call makes of
it.
-/

namespace ClauseLisp

/-- Types of values, as declared and as found. -/
inductive Ty where
  /-- `int`, `str`, `bool`, `any` or a type of the program. -/
  | named (name : String)
  /-- Lists whose elements have a type. -/
  | list (elem : Ty)
  /-- Functions about which nothing more is known. -/
  | func
  /-- Functions with these parameters and this result. -/
  | arrow (params : List Ty) (ret : Ty)
  /-- A type variable. -/
  | var (name : String)
deriving Repr, Inhabited

namespace Ty

mutual

/-- Equality of types is decided structurally. -/
def decEq : (a b : Ty) → Decidable (a = b)
  | .named m, .named n =>
    if h : m = n then isTrue (h ▸ rfl) else isFalse fun e => h (Ty.named.inj e)
  | .var m, .var n =>
    if h : m = n then isTrue (h ▸ rfl) else isFalse fun e => h (Ty.var.inj e)
  | .func, .func => isTrue rfl
  | .list x, .list y =>
    match decEq x y with
    | isTrue h => isTrue (h ▸ rfl)
    | isFalse h => isFalse fun e => h (Ty.list.inj e)
  | .arrow ps r, .arrow qs t =>
    match decEqAll ps qs, decEq r t with
    | isTrue h, isTrue k => isTrue (h ▸ k ▸ rfl)
    | isFalse h, _ => isFalse fun e => h (Ty.arrow.inj e).1
    | _, isFalse h => isFalse fun e => h (Ty.arrow.inj e).2
  | .named _, .list _ | .named _, .func | .named _, .arrow _ _ | .named _, .var _
  | .list _, .named _ | .list _, .func | .list _, .arrow _ _ | .list _, .var _
  | .func, .named _ | .func, .list _ | .func, .arrow _ _ | .func, .var _
  | .arrow _ _, .named _ | .arrow _ _, .list _ | .arrow _ _, .func | .arrow _ _, .var _
  | .var _, .named _ | .var _, .list _ | .var _, .func | .var _, .arrow _ _ => isFalse nofun

/-- Equality of lists of types. -/
def decEqAll : (as bs : List Ty) → Decidable (as = bs)
  | [], [] => isTrue rfl
  | [], _ :: _ => isFalse nofun
  | _ :: _, [] => isFalse nofun
  | a :: as, b :: bs =>
    match decEq a b, decEqAll as bs with
    | isTrue h, isTrue k => isTrue (h ▸ k ▸ rfl)
    | isFalse h, _ => isFalse fun e => h (List.cons.inj e).1
    | _, isFalse h => isFalse fun e => h (List.cons.inj e).2

end

instance : DecidableEq Ty := decEq

/-- Whole numbers. -/
def int : Ty := .named "int"

/-- Text. -/
def str : Ty := .named "str"

/-- Truth values. -/
def bool : Ty := .named "bool"

/-- The type of everything. -/
def any : Ty := .named "any"

/-- Lists about whose elements nothing is known. -/
def listAny : Ty := .list any

/-- Whether a type is `any`. -/
def isAny : Ty → Bool
  | .named name => name = "any"
  | _ => false

/-- Whether a type is a name, built in or declared. -/
def isNamed : Ty → Bool
  | .named _ => true
  | _ => false

mutual

/-- Whether a type variable occurs in a type. -/
def hasVars : Ty → Bool
  | .var _ => true
  | .named _ => false
  | .list elem => hasVars elem
  | .func => false
  | .arrow params ret => anyVars params || hasVars ret

/-- Whether a type variable occurs in one of several types. -/
def anyVars : List Ty → Bool
  | [] => false
  | t :: ts => hasVars t || anyVars ts

end

/-- Number of list layers around the innermost element type. -/
def layers : Ty → Nat
  | .list elem => layers elem + 1
  | _ => 0

/-- Names of the types that are built in. -/
def builtinNames : List String := ["int", "str", "bool", "list", "func", "any"]

/-- Names of the type variables that need no declaration. -/
def variableNames : List String := ["a", "b", "c", "d", "e"]

/-- Longest chain of list layers and parents that is followed when types are compared. -/
def maxDepth : Nat := 64

end Ty

end ClauseLisp
