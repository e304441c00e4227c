import ClauseLisp.Ty.Bindings
import ClauseLisp.Ty.Order

/-!
# Matching types against declared types

`Registry.unify` decides whether an actual type satisfies a declared one and finds out what the
variables of the declared type stand for. A variable is bound where it is met first; met again, it
widens to the more general of the two types, and two unrelated types do not match. A declared type
is acceptable wherever one of its ancestors is. Inside function types the match is exact. What was
bound before a match failed stays bound, so the bindings are an answer of their own.
-/

namespace ClauseLisp.Ty.Registry

/-- Let a variable stand for an actual type as well. -/
def widenVar (r : Registry) (name : String) (actual : Ty) (b : Bindings) : Bool × Bindings :=
  let inBound :=
    match r.bound? name with
    | some bound => r.le actual bound
    | none => true
  if inBound then
    match b.get? name with
    | none => (true, b.insert name actual)
    | some earlier =>
      if r.le actual earlier then (true, b)
      else if r.le earlier actual then (true, b.insert name actual)
      else (false, b)
  else (false, b)

/-- Match types position by position, up to the first that does not match. -/
def unifyEach (match₁ : Ty → Ty → Bindings → Bool × Bindings) :
    List Ty → List Ty → Bindings → Bool × Bindings
  | d :: ds, a :: as, b =>
    match match₁ d a b with
    | (true, b) => unifyEach match₁ ds as b
    | (false, b) => (false, b)
  | [], [], b => (true, b)
  | _, _, b => (false, b)

/-- Match two signatures, parameters first. -/
def unifySignature (match₁ : Ty → Ty → Bindings → Bool × Bindings)
    (params : List Ty) (ret : Ty) (params' : List Ty) (ret' : Ty) (b : Bindings) :
    Bool × Bindings :=
  if params.length = params'.length then
    match unifyEach match₁ params params' b with
    | (true, b) => match₁ ret ret' b
    | (false, b) => (false, b)
  else (false, b)

/-- The match inside function types, with so many steps left: nothing is acceptable for anything
else. -/
def matchExactlyWithin (r : Registry) : Nat → Ty → Ty → Bindings → Bool × Bindings
  | 0, _, _, b => (false, b)
  | steps + 1, declared, actual, b =>
    match declared, actual with
    | .var name, actual => r.widenVar name actual b
    | .list d, .list a => matchExactlyWithin r steps d a b
    | .arrow ps t, .arrow qs u => unifySignature (matchExactlyWithin r steps) ps t qs u b
    | declared, actual => (declared = actual, b)

/-- `unify`, with so many steps left. -/
def unifyWithin (r : Registry) : Nat → Ty → Ty → Bindings → Bool × Bindings
  | steps, declared, actual, b =>
    if declared.isAny then (true, b)
    else
      match steps with
      | 0 => (false, b)
      | steps + 1 =>
        match declared, actual with
        | .var name, actual => r.widenVar name actual b
        | .list d, .list a => unifyWithin r steps d a b
        | .func, .func => (true, b)
        | .func, .arrow _ _ => (true, b)
        | .arrow _ _, .func => (true, b)
        | .arrow ps t, .arrow qs u => unifySignature (matchExactlyWithin r steps) ps t qs u b
        | declared, .named name =>
          if declared.isNamed && r.le (.named name) declared then (true, b)
          else
            match r.parent? name with
            | some parent => unifyWithin r steps declared parent b
            | none => (false, b)
        | .named name, actual => (r.le actual (.named name), b)
        | _, _ => (false, b)

/-- Whether an actual type satisfies a declared one, and what the variables stand for afterwards. -/
def unify (r : Registry) (declared actual : Ty) (b : Bindings) : Bool × Bindings :=
  r.unifyWithin maxDepth declared actual b

end ClauseLisp.Ty.Registry
