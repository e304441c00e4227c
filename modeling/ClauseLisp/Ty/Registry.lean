import ClauseLisp.Dict
import ClauseLisp.Error
import ClauseLisp.Ty.Printer

/-!
# Declared types

A registry holds the types of a program with their parents and the type variables that the program
declares, each with the bound it may have. A name is declared once, and what a declaration mentions
must be known before it, so parents never form a cycle.
-/

namespace ClauseLisp.Ty

/-- The declared types of a program. -/
structure Registry where
  /-- Parent of each declared type. -/
  parents : Dict Ty := {}
  /-- Declared type variables, with their bounds. -/
  bounds : Dict (Option Ty) := {}
deriving Repr, Inhabited

namespace Registry

/-- Whether a type of this name is declared. -/
def isDeclared (r : Registry) (name : String) : Bool := r.parents.contains name

/-- Parent of a declared type. -/
def parent? (r : Registry) (name : String) : Option Ty := r.parents.get? name

/-- Whether a name is a type variable. -/
def isVariable (r : Registry) (name : String) : Bool :=
  variableNames.contains name || r.bounds.contains name

/-- Bound of a type variable, if it has one. -/
def bound? (r : Registry) (name : String) : Option Ty := (r.bounds.get? name).join

/-- Whether a name already means something. -/
def isTaken (r : Registry) (name : String) : Bool :=
  builtinNames.contains name || variableNames.contains name || r.parents.contains name ||
    r.bounds.contains name

/-- What a name means as a type. -/
def resolveName (r : Registry) (name : String) : Except Error Ty :=
  if r.isVariable name then .ok (.var name)
  else if builtinNames.contains name || r.isDeclared name then .ok (.named name)
  else .error (.typing (.unknown name))

mutual

/-- Find the variables of a type as it was read, and refuse names that are not known. -/
def resolve (r : Registry) : Ty → Except Error Ty
  | .named name => r.resolveName name
  | .var name => .ok (.var name)
  | .func => .ok .func
  | .list elem =>
    match resolve r elem with
    | .ok elem => .ok (.list elem)
    | .error error => .error error
  | .arrow params ret =>
    match resolveAll r params with
    | .error error => .error error
    | .ok params =>
      match resolve r ret with
      | .ok ret => .ok (.arrow params ret)
      | .error error => .error error

/-- `resolve` on each of several types; the first fault counts. -/
def resolveAll (r : Registry) : List Ty → Except Error (List Ty)
  | [] => .ok []
  | t :: ts =>
    match resolve r t with
    | .error error => .error error
    | .ok t =>
      match resolveAll r ts with
      | .ok ts => .ok (t :: ts)
      | .error error => .error error

end

/-- Declare a type below a parent. -/
def declare (r : Registry) (name : String) (parent : Ty) : Except Error Registry :=
  if r.isTaken name then .error (.typing (.taken name))
  else
    match r.resolve parent with
    | .error error => .error error
    | .ok parent =>
      if parent.hasVars then .error (.typing (.genericParent name parent.text))
      else .ok { r with parents := r.parents.insert name parent }

/-- Resolve a bound, if there is one. -/
def resolve? (r : Registry) : Option Ty → Except Error (Option Ty)
  | none => .ok none
  | some t =>
    match r.resolve t with
    | .ok t => .ok (some t)
    | .error error => .error error

/-- Declare a type variable, with a bound or without. -/
def declareVariable (r : Registry) (name : String) (bound : Option Ty) : Except Error Registry :=
  if r.isTaken name then .error (.typing (.taken name))
  else
    match r.resolve? bound with
    | .ok bound => .ok { r with bounds := r.bounds.insert name bound }
    | .error error => .error error

end Registry

end ClauseLisp.Ty
