import ClauseLisp.Proofs.Types.Growth
import ClauseLisp.Proofs.Types.Unification
import ClauseLisp.Value.Basic

/-!
# What types say about values

`Inhabits` says what a value looks like that has a type, without asking how the type
was found: numbers, truth values and text inhabit the names for them, functions
inhabit every function type, a list inhabits a list type if the elements of its
strict part inhabit the element type, and a declared name has inhabitants of its
parent.  Tags are looked through.

This is what the order of types is about: whoever is below has fewer inhabitants.
So a type that has been found for a value may be joined with others, or be widened
on the way to a declared type, and still says something true about the value.

## Main results

* `Registry.Inhabits.mono` — going up keeps inhabitants.
* `Registry.exists_fixedJoin?` — two types are below their join.
-/

namespace ClauseLisp.Ty.Registry

/-- Values that have no tag and inhabit a type. -/
inductive Inhabits (r : Registry) : Ty → Value → Prop
  | any (v : Value) : Inhabits r any v
  | int (n : Int) : Inhabits r int (.int n)
  | bool (b : Bool) : Inhabits r bool (.bool b)
  | str (s : String) : Inhabits r str (.str s)
  | func (name : String) : Inhabits r .func (.func name)
  | lambda (closure : Nat) : Inhabits r .func (.lambda closure)
  | arrow {v : Value} (params : List Ty) (ret : Ty) :
      Inhabits r .func v → Inhabits r (.arrow params ret) v
  | nil (elem : Ty) : Inhabits r (.list elem) .nil
  | lazy (elem : Ty) (node : Nat) : Inhabits r (.list elem) (.lazy node)
  | cell {elem : Ty} {head tail : Value} (e : ElemType) :
      Inhabits r elem head.untagged → Inhabits r (.list elem) tail →
      Inhabits r (.list elem) (.cell head tail e)
  | parent {name : String} {parent : Ty} {v : Value} :
      r.parent? name = some parent → Inhabits r parent v → Inhabits r (.named name) v

namespace Inhabits

variable {r r' : Registry} {a b : Ty} {v : Value}

/-- Declarations to come take no inhabitants away. -/
theorem declares (h : r.Inhabits a v) (hMore : Declares r r') : r'.Inhabits a v := by
  induction h with
  | any v => exact .any v
  | int n => exact .int n
  | bool b => exact .bool b
  | str s => exact .str s
  | func name => exact .func name
  | lambda closure => exact .lambda closure
  | arrow params ret _ ih => exact .arrow params ret ih
  | nil elem => exact .nil elem
  | lazy elem node => exact .lazy elem node
  | cell elemType _ _ hHead hTail => exact .cell elemType hHead hTail
  | parent hParent _ ih => exact .parent (hMore.parent?_of_some hParent) ih

/-- Lists have elements of a wider type too. -/
theorem list_mono (h : ∀ v, r.Inhabits a v → r.Inhabits b v) :
    ∀ {v : Value}, r.Inhabits (.list a) v → r.Inhabits (.list b) v
  | .nil, _ => .nil b
  | .lazy node, _ => .lazy b node
  | .cell _ _ e, hv => by
    cases hv with
    | cell _ hHead hTail => exact .cell e (h _ hHead) (list_mono h hTail)
  | .int _, hv => nomatch hv
  | .bool _, hv => nomatch hv
  | .str _, hv => nomatch hv
  | .func _, hv => nomatch hv
  | .lambda _, hv => nomatch hv
  | .tagged _ _, hv => nomatch hv

/-- An inhabitant of a declared name inhabits its parent. -/
theorem of_named (hr : r.Reached) {name : String} {above : Ty}
    (hParent : r.parent? name = some above) (h : r.Inhabits (.named name) v) :
    r.Inhabits above v := by
  have hNone : ∀ {other : String}, builtinNames.contains other = true → name ≠ other := by
    rintro other hBuiltin rfl
    rw [hr.parent?_builtin hBuiltin] at hParent
    cases hParent
  cases h with
  | any => exact absurd rfl (hNone rfl)
  | int => exact absurd rfl (hNone rfl)
  | bool => exact absurd rfl (hNone rfl)
  | str => exact absurd rfl (hNone rfl)
  | parent hParent' hv =>
      rw [hParent, Option.some.injEq] at hParent'
      exact hParent' ▸ hv

/-- **Going up keeps inhabitants.** -/
theorem mono (hr : r.Reached) (h : Below r a b) : ∀ {v : Value}, r.Inhabits a v → r.Inhabits b v := by
  induction h with
  | refl a => exact fun hv => hv
  | top a => exact fun {v} _ => .any v
  | list _ ih => exact list_mono fun _ hv => ih hv
  | funcArrow params ret => exact fun hv => .arrow params ret hv
  | arrowFunc params ret =>
      intro v hv
      cases hv with
      | arrow _ _ hv => exact hv
  | parent hParent _ ih => exact fun hv => ih (of_named hr hParent hv)

/-! ## Canonical forms -/

/-- What inhabits a list type is a list. -/
theorem isList (h : r.Inhabits (.list a) v.untagged) : v.isList = true := by
  unfold Value.isList
  generalize v.untagged = w at h
  cases h <;> rfl

/-- The elements of the strict part of a list inhabit the element type. -/
theorem strictPart {v : Value} (h : r.Inhabits (.list a) v) :
    ∀ {done : List Value}, (∀ item ∈ done, r.Inhabits a item.untagged) →
      ∀ item ∈ (v.strictPart done).1, r.Inhabits a item.untagged := by
  generalize hList : Ty.list a = t at h
  induction h with
  | cell e hHead _ _ ih =>
      cases hList
      intro done hDone
      exact ih rfl (List.forall_mem_cons.mpr ⟨hHead, hDone⟩)
  | nil => exact fun hDone => hDone
  | lazy => exact fun hDone => hDone
  | _ => cases hList

end Inhabits

/-! ## Joins -/

/-- A type that is above two others, and known if they are. -/
structure Joins (r : Registry) (a b j : Ty) : Prop where
  first : Below r a j
  second : Below r b j
  known : r.knows a = true → r.knows b = true → r.knows j = true

namespace Joins

variable {r : Registry} {a b j : Ty}

theorem any : r.Joins a b any := ⟨.top a, .top b, fun _ _ => rfl⟩

theorem list (h : r.Joins a b j) : r.Joins (.list a) (.list b) (.list j) :=
  ⟨.list h.first, .list h.second, h.known⟩

/-- A type above another is a join of the two. -/
theorem of_below (h : Below r a b) : r.Joins a b b := ⟨h, .refl b, fun _ hB => hB⟩

theorem of_above (h : Below r b a) : r.Joins a b a := ⟨.refl a, h, fun hA _ => hA⟩

theorem parent (h : r.Joins a b j) (hr : r.Reached) {name : String}
    (hParent : r.parent? name = some a) : r.Joins (.named name) b j :=
  ⟨.parent hParent h.first, h.second, fun _ hB => h.known (hr.layered.known _ _ hParent) hB⟩

end Joins

/-- Joining two types gives a type above both, however far that goes. -/
theorem joins_joinWithin {r : Registry} (hr : r.Reached) :
    ∀ (steps : Nat) (a b : Ty), r.Joins a b (r.joinWithin steps a b) := by
  intro steps
  induction steps with
  | zero =>
      intro a b
      unfold joinWithin
      split
      · rename_i hLe
        exact .of_below (below_of_leWithin hLe)
      · split
        · rename_i hLe
          exact .of_above (below_of_leWithin hLe)
        · exact .any
  | succ steps ih =>
      intro a b
      unfold joinWithin
      split
      · rename_i hLe
        exact .of_below (below_of_leWithin hLe)
      · split
        · rename_i hLe
          exact .of_above (below_of_leWithin hLe)
        · split
          · rename_i hSteps
            cases hSteps
          · rename_i hSteps
            cases hSteps
            split
            · exact (ih _ _).list
            · exact ⟨.refl _, .refl _, fun _ _ => rfl⟩
            · exact ⟨.refl _, .arrowFunc _ _, fun _ _ => rfl⟩
            · exact ⟨.arrowFunc _ _, .refl _, fun _ _ => rfl⟩
            · exact ⟨.arrowFunc _ _, .arrowFunc _ _, fun _ _ => rfl⟩
            · split
              · rename_i hParent
                exact (ih _ _).parent hr hParent
              · exact .any
            · exact .any

/-- **A join that is fixed is above both types**, and known if they are. -/
theorem exists_fixedJoin? {r : Registry} (hr : r.Reached) {a b : Ty} (hA : r.knows a = true)
    (hB : r.knows b = true) : ∃ ty, r.fixedJoin? a b = some ty ∧ r.Joins a b ty := by
  unfold fixedJoin?
  by_cases hSame : a = b
  · rw [if_pos hSame]
    subst hSame
    exact ⟨a, rfl, .refl a, .refl a, fun _ hB => hB⟩
  · rw [if_neg hSame, hA, hB]
    exact ⟨r.join a b, rfl, joins_joinWithin hr _ a b⟩

end ClauseLisp.Ty.Registry
