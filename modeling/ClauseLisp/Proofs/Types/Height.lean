import ClauseLisp.Proofs.Types.Separation

/-!
# Heights of types

Whoever compares types goes up: from a list type to its elements, from a
declared name to its parent.  The height of a type is the number of steps until
there is nowhere left to go.  It exists because a declaration only mentions
names that are known before it: the heights of names are worked out in the order
of declaration, and a later declaration changes none of them.

There are two heights, since some comparisons also look into the components of
function types and some do not.

## Main results

* `Registry.Reached.height_named` — a declared name is one step below its parent.
* `Registry.Reached.ordered` — parents come before their children.
-/

namespace ClauseLisp

theorem Dict.put_eq_append {α : Type} {name : String} (value : α) :
    ∀ {entries : List (String × α)}, find entries name = none →
      put name value entries = entries ++ [(name, value)]
  | [], _ => rfl
  | (key, old) :: rest, h => by
    rw [find] at h
    split at h
    · cases h
    · rename_i hKey
      rw [put, if_neg hKey, put_eq_append value h]
      rfl

namespace Ty

mutual

/-- Height of a type, given the heights of names; `inside` says whether the
components of function types count. -/
def heightOver (inside : Bool) (h : String → Nat) : Ty → Nat
  | .named name => h name
  | .list elem => heightOver inside h elem + 1
  | .func => 0
  | .arrow params ret =>
    if inside then max (highestOver inside h params) (heightOver inside h ret) + 1 else 0
  | .var _ => 0

/-- The greatest height of several types. -/
def highestOver (inside : Bool) (h : String → Nat) : List Ty → Nat
  | [] => 0
  | t :: ts => max (heightOver inside h t) (highestOver inside h ts)

end

namespace Registry

/-- The heights of names after one more declaration. -/
def raise (inside : Bool) (h : String → Nat) (entry : String × Ty) (name : String) : Nat :=
  if name = entry.1 then heightOver inside h entry.2 + 1 else h name

/-- The heights of names, from their parents in the order of declaration. -/
def nameHeight (inside : Bool) (entries : List (String × Ty)) : String → Nat :=
  entries.foldl (raise inside) fun _ => 0

/-- Number of steps up from a type, through list layers, parents and, if
`inside`, components of function types. -/
def heightWith (r : Registry) (inside : Bool) (t : Ty) : Nat :=
  t.heightOver inside (nameHeight inside r.parents.entries)

/-- Number of steps up from a type through list layers and parents. -/
def height (r : Registry) (t : Ty) : Nat := r.heightWith false t

/-- Number of steps up from a type, components of function types included. -/
def fullHeight (r : Registry) (t : Ty) : Nat := r.heightWith true t

/-- The registries that declarations lead to. -/
inductive Reached : Registry → Prop
  | empty : Reached {}
  | declare {r r' : Registry} {name : String} {parent : Ty} :
      Reached r → r.declare name parent = .ok r' → Reached r'
  | declareVariable {r r' : Registry} {name : String} {bound : Option Ty} :
      Reached r → r.declareVariable name bound = .ok r' → Reached r'

/-! ## Known names -/

mutual

/-- A resolved type mentions only names that are taken. -/
theorem knows_of_resolve {r : Registry} : ∀ {t u : Ty}, r.resolve t = .ok u → r.knows u = true
  | .named name, u, h => by
    rw [resolve, resolveName] at h
    split at h
    · cases h
      rfl
    · split at h
      · rename_i hKnown
        cases h
        simp only [Bool.or_eq_true, isDeclared] at hKnown
        simp only [knows, isTaken, Bool.or_eq_true]
        rcases hKnown with hKnown | hKnown
        · exact .inl (.inl (.inl hKnown))
        · exact .inl (.inr hKnown)
      · cases h
  | .var name, u, h => by
    cases h
    rfl
  | .func, u, h => by
    cases h
    rfl
  | .list elem, u, h => by
    rw [resolve] at h
    split at h
    · rename_i hElem
      cases h
      rw [knows]
      exact knows_of_resolve hElem
    · cases h
  | .arrow params ret, u, h => by
    rw [resolve] at h
    split at h
    · cases h
    · rename_i hParams
      split at h
      · rename_i hRet
        cases h
        rw [knows, knowsAll_of_resolveAll hParams, knows_of_resolve hRet]
        rfl
      · cases h

/-- Resolved types mention only names that are taken. -/
theorem knowsAll_of_resolveAll {r : Registry} :
    ∀ {ts us : List Ty}, r.resolveAll ts = .ok us → r.knowsAll us = true
  | [], us, h => by
    cases h
    rfl
  | t :: ts, us, h => by
    rw [resolveAll] at h
    split at h
    · cases h
    · rename_i hFirst
      split at h
      · rename_i hRest
        cases h
        rw [knowsAll, knows_of_resolve hFirst, knowsAll_of_resolveAll hRest]
        rfl
      · cases h

end

mutual

/-- A type whose names are taken mentions no other names. -/
theorem knows_mono {r r' : Registry} (h : ∀ name, r.isTaken name = true → r'.isTaken name = true) :
    ∀ {t : Ty}, r.knows t = true → r'.knows t = true
  | .named name, hKnown => h name hKnown
  | .var _, _ => rfl
  | .func, _ => rfl
  | .list elem, hKnown => knows_mono h (t := elem) hKnown
  | .arrow params ret, hKnown => by
    rw [knows, Bool.and_eq_true] at hKnown
    rw [knows, knowsAll_mono h hKnown.1, knows_mono h hKnown.2]
    rfl

theorem knowsAll_mono {r r' : Registry}
    (h : ∀ name, r.isTaken name = true → r'.isTaken name = true) :
    ∀ {ts : List Ty}, r.knowsAll ts = true → r'.knowsAll ts = true
  | [], _ => rfl
  | t :: ts, hKnown => by
    rw [knowsAll, Bool.and_eq_true] at hKnown
    rw [knowsAll, knows_mono h hKnown.1, knowsAll_mono h hKnown.2]
    rfl

end

mutual

/-- The height of a type only depends on the heights of the names in it. -/
theorem heightOver_congr {r : Registry} (inside : Bool) {h h' : String → Nat}
    (hSame : ∀ name, r.isTaken name = true → h name = h' name) :
    ∀ {t : Ty}, r.knows t = true → heightOver inside h t = heightOver inside h' t
  | .named name, hKnown => hSame name hKnown
  | .var _, _ => rfl
  | .func, _ => rfl
  | .list elem, hKnown =>
    congrArg (· + 1) (heightOver_congr inside hSame (t := elem) hKnown)
  | .arrow params ret, hKnown => by
    rw [knows, Bool.and_eq_true] at hKnown
    rw [heightOver, heightOver, highestOver_congr inside hSame hKnown.1,
      heightOver_congr inside hSame hKnown.2]

theorem highestOver_congr {r : Registry} (inside : Bool) {h h' : String → Nat}
    (hSame : ∀ name, r.isTaken name = true → h name = h' name) :
    ∀ {ts : List Ty}, r.knowsAll ts = true → highestOver inside h ts = highestOver inside h' ts
  | [], _ => rfl
  | t :: ts, hKnown => by
    rw [knowsAll, Bool.and_eq_true] at hKnown
    rw [highestOver, highestOver, heightOver_congr inside hSame hKnown.1,
      highestOver_congr inside hSame hKnown.2]

end

/-! ## Declarations -/

/-- What a declaration of a type does, if it succeeds. -/
theorem declare_ok {r r' : Registry} {name : String} {parent : Ty}
    (h : r.declare name parent = .ok r') :
    r.isTaken name = false ∧ ∃ resolved, r.resolve parent = .ok resolved ∧
      resolved.hasVars = false ∧ r' = { r with parents := r.parents.insert name resolved } := by
  unfold declare at h
  split at h
  · cases h
  · rename_i hFree
    split at h
    · cases h
    · rename_i resolved hResolved
      split at h
      · cases h
      · rename_i hVars
        cases h
        exact ⟨by simpa using hFree, resolved, hResolved, by simpa using hVars, rfl⟩

/-- What a declaration of a variable does, if it succeeds. -/
theorem declareVariable_ok {r r' : Registry} {name : String} {bound : Option Ty}
    (h : r.declareVariable name bound = .ok r') :
    r.isTaken name = false ∧ ∃ resolved, r.resolve? bound = .ok resolved ∧
      r' = { r with bounds := r.bounds.insert name resolved } := by
  unfold declareVariable at h
  split at h
  · cases h
  · rename_i hFree
    split at h
    · rename_i resolved hResolved
      cases h
      exact ⟨by simpa using hFree, resolved, hResolved, rfl⟩
    · cases h

theorem isTaken_insert_parent (r : Registry) (name : String) (parent : Ty) {other : String}
    (h : r.isTaken other = true) :
    isTaken { r with parents := r.parents.insert name parent } other = true := by
  simp only [isTaken, Bool.or_eq_true, Dict.contains, Dict.get?_insert] at h ⊢
  rcases h with (h | h) | h
  · exact .inl (.inl h)
  · refine .inl (.inr ?_)
    split
    · rfl
    · exact h
  · exact .inr h

theorem isTaken_insert_bound (r : Registry) (name : String) (bound : Option Ty) {other : String}
    (h : r.isTaken other = true) :
    isTaken { r with bounds := r.bounds.insert name bound } other = true := by
  simp only [isTaken, Bool.or_eq_true, Dict.contains, Dict.get?_insert] at h ⊢
  rcases h with h | h
  · exact .inl h
  · refine .inr ?_
    split
    · rfl
    · exact h

/-- One more declaration raises its own name and no other. -/
theorem nameHeight_insert {r : Registry} (inside : Bool) {name : String} (parent : Ty)
    (hFree : r.isTaken name = false) :
    nameHeight inside (r.parents.insert name parent).entries =
      raise inside (nameHeight inside r.parents.entries) (name, parent) := by
  have hNew : Dict.find r.parents.entries name = none := by
    simp only [isTaken, Bool.or_eq_false_iff, Dict.contains] at hFree
    exact Option.isSome_eq_false_iff.mp hFree.1.2 |> Option.isNone_iff_eq_none.mp
  rw [nameHeight, Dict.insert, Dict.put_eq_append parent hNew, List.foldl_append]
  rfl

/-- A registry whose parents are known and one step above their children. -/
structure Layered (r : Registry) : Prop where
  known : ∀ name parent, r.parent? name = some parent → r.knows parent = true
  above : ∀ name parent, r.parent? name = some parent → ∀ inside,
    r.heightWith inside (.named name) = r.heightWith inside parent + 1

/-- Declaring a type moves no type whose names are known. -/
private theorem heightWith_insert {r : Registry} (inside : Bool) {name : String} (parent : Ty)
    (hFree : r.isTaken name = false) {t : Ty} (hKnown : r.knows t = true) :
    heightWith { r with parents := r.parents.insert name parent } inside t =
      r.heightWith inside t := by
  rw [heightWith, heightWith]
  refine heightOver_congr (r := r) inside (fun other hTaken => ?_) hKnown
  have hNe : other ≠ name := by
    rintro rfl
    rw [hFree] at hTaken
    cases hTaken
  rw [nameHeight_insert inside parent hFree, raise, if_neg hNe]

private theorem layered_insert {r : Registry} {name : String} {parent : Ty} (hr : r.Layered)
    (hFree : r.isTaken name = false) (hKnown : r.knows parent = true) :
    Layered { r with parents := r.parents.insert name parent } := by
  have hParent : ∀ other, parent? { r with parents := r.parents.insert name parent } other =
      if name = other then some parent else r.parent? other :=
    Dict.get?_insert r.parents name parent
  have hBefore : ∀ {other above},
      parent? { r with parents := r.parents.insert name parent } other = some above →
      r.knows above = true := by
    intro other above hAbove
    rw [hParent] at hAbove
    split at hAbove
    · cases hAbove
      exact hKnown
    · exact hr.known other above hAbove
  constructor
  · intro other above hAbove
    exact knows_mono (fun _ => isTaken_insert_parent r name parent) (hBefore hAbove)
  · intro other above hAbove inside
    rw [heightWith_insert inside parent hFree (hBefore hAbove)]
    rw [hParent] at hAbove
    split at hAbove
    · rename_i hName
      cases hAbove
      subst hName
      rw [heightWith, heightOver, nameHeight_insert inside parent hFree, raise, if_pos rfl]
      rfl
    · rename_i hName
      rw [← hr.above other above hAbove inside]
      rw [heightWith, heightOver, nameHeight_insert inside parent hFree, raise,
        if_neg (Ne.symm hName)]
      rfl

/-- **Declarations keep a registry in layers.** -/
theorem Reached.layered {r : Registry} (h : r.Reached) : r.Layered := by
  induction h with
  | empty =>
      constructor
      · intro name parent h
        cases h
      · intro name parent h
        cases h
  | declare _ hDeclare ih =>
      obtain ⟨hFree, resolved, hResolved, -, rfl⟩ := declare_ok hDeclare
      exact layered_insert ih hFree (knows_of_resolve hResolved)
  | @declareVariable r r' name bound _ hDeclare ih =>
      obtain ⟨-, resolved, -, rfl⟩ := declareVariable_ok hDeclare
      exact ⟨fun child above h =>
        knows_mono (fun _ => isTaken_insert_bound r name resolved) (ih.known child above h), ih.above⟩

/-- **Parents come before their children.** -/
theorem Reached.ordered {r : Registry} (h : r.Reached) : r.Ordered := by
  induction h with
  | empty => exact ordered_empty
  | declare _ hDeclare ih => exact ordered_declare ih hDeclare
  | declareVariable _ hDeclare ih =>
      obtain ⟨-, resolved, -, rfl⟩ := declareVariable_ok hDeclare
      exact ⟨ih.any, ih.known, ih.rank⟩

/-! ## The height of each kind of type -/

section

variable (r : Registry)

@[simp] theorem height_list (elem : Ty) : r.height (.list elem) = r.height elem + 1 := rfl

@[simp] theorem height_func : r.height .func = 0 := rfl

@[simp] theorem height_arrow (params : List Ty) (ret : Ty) : r.height (.arrow params ret) = 0 := rfl

@[simp] theorem height_var (name : String) : r.height (.var name) = 0 := rfl

theorem fullHeight_list (elem : Ty) : r.fullHeight (.list elem) = r.fullHeight elem + 1 := rfl

theorem fullHeight_ret_lt (params : List Ty) (ret : Ty) :
    r.fullHeight ret < r.fullHeight (.arrow params ret) :=
  Nat.lt_succ_of_le (Nat.le_max_right _ _)

theorem fullHeight_lt_of_mem {t : Ty} {params : List Ty} (h : t ∈ params) (ret : Ty) :
    r.fullHeight t < r.fullHeight (.arrow params ret) := by
  have hHighest : ∀ {params : List Ty}, t ∈ params →
      r.fullHeight t ≤ highestOver true (nameHeight true r.parents.entries) params := by
    intro params h
    induction params with
    | nil => cases h
    | cons first others ih =>
        rw [highestOver]
        rcases List.mem_cons.mp h with rfl | h
        · exact Nat.le_max_left _ _
        · exact Nat.le_trans (ih h) (Nat.le_max_right _ _)
  exact Nat.lt_succ_of_le (Nat.le_trans (hHighest h) (Nat.le_max_left _ _))

end

private theorem foldl_raise {inside : Bool} {name : String} :
    ∀ {entries : List (String × Ty)} (h : String → Nat), Dict.find entries name = none →
      entries.foldl (raise inside) h name = h name
  | [], _, _ => rfl
  | (key, parent) :: rest, h, hNone => by
    rw [Dict.find] at hNone
    split at hNone
    · cases hNone
    · rename_i hKey
      rw [List.foldl_cons, foldl_raise _ hNone, raise, if_neg (Ne.symm hKey)]

/-- Components of function types only add to a height. -/
private theorem heightOver_false_le {h h' : String → Nat} (hLe : ∀ name, h name ≤ h' name) :
    ∀ t : Ty, heightOver false h t ≤ heightOver true h' t
  | .named name => hLe name
  | .list elem => Nat.succ_le_succ (heightOver_false_le hLe elem)
  | .func => Nat.le_refl 0
  | .arrow _ _ => Nat.zero_le _
  | .var _ => Nat.le_refl 0

private theorem foldl_raise_false_le :
    ∀ {entries : List (String × Ty)} {h h' : String → Nat}, (∀ name, h name ≤ h' name) →
      ∀ name, entries.foldl (raise false) h name ≤ entries.foldl (raise true) h' name
  | [], _, _, hLe => hLe
  | entry :: rest, h, h', hLe => by
    have hRaised : ∀ name, raise false h entry name ≤ raise true h' entry name := by
      intro name
      rw [raise, raise]
      split
      · exact Nat.succ_le_succ (heightOver_false_le hLe entry.2)
      · exact hLe name
    exact @foldl_raise_false_le rest _ _ hRaised

theorem height_le_fullHeight (r : Registry) (t : Ty) : r.height t ≤ r.fullHeight t :=
  heightOver_false_le (foldl_raise_false_le fun _ => Nat.le_refl 0) t

/-- A name that is not declared, such as a built-in one, is at the top. -/
theorem height_named_of_none {r : Registry} {name : String} (h : r.parent? name = none) :
    r.height (.named name) = 0 :=
  foldl_raise _ h

theorem fullHeight_named_of_none {r : Registry} {name : String} (h : r.parent? name = none) :
    r.fullHeight (.named name) = 0 :=
  foldl_raise _ h

/-- A declared name is one step below its parent. -/
theorem Reached.height_named {r : Registry} (hr : r.Reached) {name : String} {parent : Ty}
    (h : r.parent? name = some parent) : r.height (.named name) = r.height parent + 1 :=
  hr.layered.above name parent h false

theorem Reached.fullHeight_named {r : Registry} (hr : r.Reached) {name : String} {parent : Ty}
    (h : r.parent? name = some parent) : r.fullHeight (.named name) = r.fullHeight parent + 1 :=
  hr.layered.above name parent h true

end Registry

end Ty

end ClauseLisp
