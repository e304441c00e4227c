import ClauseLisp.Ty.Registry

/-!
# The order of types

`Registry.le` says where a value of one type is acceptable for another: a type is below itself,
below `any` and below its ancestors; lists are ordered as their elements; bare `func` and the
function types that say more are acceptable for each other. At most `maxDepth` list layers and
parents are followed.

`Registry.join` finds a type above two by going up from the first one, through list layers and
parents, to the first type that the second one is below. The second one is not followed: where the
first has arrived at a list, and the second is a name that is declared as a list, what is found is
`any`, which need not be the least type above both.

A name means the same for good once it is taken, so declarations to come cannot move a type all of
whose names are taken. `Registry.fixedJoin?` is the join of two types where it can be told from
that.
-/

namespace ClauseLisp.Ty.Registry

/-- `le`, with so many steps left. -/
def leWithin (r : Registry) : Nat → Ty → Ty → Bool
  | steps, a, b =>
    if a = b || b.isAny then true
    else
      match steps with
      | 0 => false
      | steps + 1 =>
        match a, b with
        | .list x, .list y => leWithin r steps x y
        | .func, .func => true
        | .func, .arrow _ _ => true
        | .arrow _ _, .func => true
        | .named name, b =>
          match r.parent? name with
          | some parent => leWithin r steps parent b
          | none => false
        | _, _ => false

/-- Whether a value of type `a` is acceptable where `b` is wanted. -/
def le (r : Registry) (a b : Ty) : Bool := r.leWithin maxDepth a b

/-- `join`, with so many steps left up through list layers and parents. -/
def joinWithin (r : Registry) : Nat → Ty → Ty → Ty
  | steps, a, b =>
    if r.le a b then b
    else if r.le b a then a
    else
      match steps with
      | 0 => any
      | steps + 1 =>
        match a, b with
        | .list x, .list y => .list (joinWithin r steps x y)
        | .func, .func => .func
        | .func, .arrow _ _ => .func
        | .arrow _ _, .func => .func
        | .arrow _ _, .arrow _ _ => .func
        | .named name, b =>
          match r.parent? name with
          | some parent => joinWithin r steps parent b
          | none => any
        | _, _ => any

/-- Number of declared types, with the list layers of their parents. -/
def declaredLayers : List (String × Ty) → Nat
  | [] => 0
  | entry :: entries => entry.2.layers + 1 + declaredLayers entries

/-- A bound on the types that are met on the way up from a type, itself included, through list
layers and parents: each declared type is met once. -/
def steps (r : Registry) (t : Ty) : Nat := t.layers + declaredLayers r.parents.entries + 1

/-- A type above two types. If they are comparable, it is the greater one. Otherwise two lists give
the list of what their elements give, two function types bare `func`, a declared name what its
parent gives with the second type, and all others `any`. -/
def join (r : Registry) (a b : Ty) : Ty := r.joinWithin (r.steps a) a b

mutual

/-- Whether all names in a type are taken. -/
def knows (r : Registry) : Ty → Bool
  | .named name => r.isTaken name
  | .list elem => knows r elem
  | .func => true
  | .arrow params ret => knowsAll r params && knows r ret
  | .var _ => true

/-- Whether all names in several types are taken. -/
def knowsAll (r : Registry) : List Ty → Bool
  | [] => true
  | t :: ts => knows r t && knowsAll r ts

end

/-- The join of two types, if no declaration to come can change it. -/
def fixedJoin? (r : Registry) (a b : Ty) : Option Ty :=
  if a = b then some b
  else if r.knows a && r.knows b then some (r.join a b)
  else none

end ClauseLisp.Ty.Registry
