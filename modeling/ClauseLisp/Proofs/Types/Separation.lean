import ClauseLisp.Ty.Unify

/-!
# Types that clauses can tell apart

The type of a value is made of names, `func` and list layers.  Two different
types of this kind are never acceptable for each other in both directions, so a
clause that declares one of them tells them apart.  This rests on the order in
which types are declared: a parent comes before its children.  Only as many
layers as a match follows are told apart.

## Main results

* `Registry.ordered_declare` — declaring a type keeps a registry ordered.
* `Registry.unify_self` — a type of values satisfies itself.
* `Registry.eq_of_unify_unify` — two types of values that satisfy each other are
  the same.
* `Registry.unify_tower` — no type satisfies a declared type with more list
  layers than a match follows.
-/

namespace ClauseLisp

namespace Dict

variable {α : Type}

theorem find_put (name : String) (value : α) (entries : List (String × α)) (other : String) :
    find (put name value entries) other =
      if name = other then some value else find entries other := by
  induction entries with
  | nil => rfl
  | cons entry entries ih =>
      obtain ⟨key, old⟩ := entry
      rw [put]
      split
      · rename_i hKey
        rw [find, find, hKey]
        split <;> rfl
      · rename_i hKey
        rw [find, find, ih]
        by_cases hOther : key = other
        · have hName : name ≠ other := fun h => hKey (hOther.trans h.symm)
          rw [if_pos hOther, if_neg hName, if_pos hOther]
        · rw [if_neg hOther, if_neg hOther]

/-- What a table holds after an entry has been written. -/
theorem get?_insert (d : Dict α) (name : String) (value : α) (other : String) :
    (d.insert name value).get? other = if name = other then some value else d.get? other :=
  find_put name value d.entries other

end Dict

namespace Ty

/-- Whether a type is made of names, `func` and at most so many list layers, as
the types of values are. -/
def isFound : Nat → Ty → Bool
  | _, .named _ => true
  | _, .func => true
  | layers + 1, .list elem => isFound layers elem
  | _, _ => false

/-- So many list layers around `func`. -/
def tower : Nat → Ty
  | 0 => .func
  | layers + 1 => .list (tower layers)

namespace Registry

/-! ## Ordered registries -/

/-- Parents come before their children, and nothing is above `any`. -/
structure Ordered (r : Registry) : Prop where
  any : r.parent? "any" = none
  known : ∀ name parent, r.parent? name = some (.named parent) →
    builtinNames.contains parent = true ∨ r.isDeclared parent = true
  rank : ∃ rank : String → Nat, ∀ name parent,
    r.parent? name = some (.named parent) → rank parent < rank name

theorem ordered_empty : Ordered {} where
  any := rfl
  known := fun _ _ h => by cases h
  rank := ⟨fun _ => 0, fun _ _ h => by cases h⟩

/-- A name that has been resolved to a type name is built in or declared. -/
theorem known_of_resolve {r : Registry} {t : Ty} {name : String}
    (h : r.resolve t = .ok (.named name)) :
    builtinNames.contains name = true ∨ r.isDeclared name = true := by
  cases t with
  | named n =>
      rw [resolve, resolveName] at h
      split at h
      · cases h
      · split at h
        · rename_i hKnown
          cases h
          simpa using hKnown
        · cases h
  | var n => cases h
  | func => cases h
  | list elem =>
      rw [resolve] at h
      split at h <;> cases h
  | arrow params ret =>
      rw [resolve] at h
      split at h
      · cases h
      · split at h <;> cases h

/-- The rank of a new name below a parent. -/
def rankBelow (rank : String → Nat) : Ty → Nat
  | .named above => rank above + 1
  | _ => 0

/-- Putting a new name below a parent that is known keeps a registry ordered. -/
private theorem ordered_insert {r : Registry} {name : String} {parent : Ty} (hOrdered : r.Ordered)
    (hBuiltin : builtinNames.contains name = false) (hNew : r.isDeclared name = false)
    (hKnown : ∀ above, parent = .named above →
      builtinNames.contains above = true ∨ r.isDeclared above = true) :
    Ordered { r with parents := r.parents.insert name parent } := by
  have hParent : ∀ other, parent? { r with parents := r.parents.insert name parent } other =
      if name = other then some parent else r.parent? other :=
    Dict.get?_insert r.parents name parent
  have hKnownAbove : ∀ child above,
      parent? { r with parents := r.parents.insert name parent } child = some (.named above) →
      builtinNames.contains above = true ∨ r.isDeclared above = true := by
    intro child above hAbove
    rw [hParent] at hAbove
    split at hAbove
    · exact hKnown above (Option.some.inj hAbove)
    · exact hOrdered.known child above hAbove
  have hNotNew : ∀ other, builtinNames.contains other = true ∨ r.isDeclared other = true →
      other ≠ name := by
    rintro other hOther rfl
    rw [hBuiltin, hNew] at hOther
    rcases hOther with hOther | hOther <;> cases hOther
  obtain ⟨rank, hRank⟩ := hOrdered.rank
  refine ⟨?_, ?_, fun other => if other = name then rankBelow rank parent else rank other, ?_⟩
  · rw [hParent, if_neg, hOrdered.any]
    rintro rfl
    exact absurd hBuiltin (by decide)
  · intro child above hAbove
    refine (hKnownAbove child above hAbove).imp_right fun hDeclared => ?_
    show (parent? _ above).isSome = true
    rw [hParent]
    split
    · rfl
    · exact hDeclared
  · intro child above hAbove
    have hNe := hNotNew above (hKnownAbove child above hAbove)
    rw [hParent] at hAbove
    split at hAbove
    · rename_i hChild
      subst hChild
      cases hAbove
      simp [hNe, rankBelow]
    · rename_i hChild
      simp only [hNe, if_false, Ne.symm hChild]
      exact hRank child above hAbove

/-- **Declaring a type keeps a registry ordered.** -/
theorem ordered_declare {r r' : Registry} {name : String} {parent : Ty} (hOrdered : r.Ordered)
    (h : r.declare name parent = .ok r') : r'.Ordered := by
  unfold declare at h
  split at h
  · cases h
  · rename_i hFree
    simp only [isTaken, Bool.or_eq_true, not_or, Bool.not_eq_true] at hFree
    obtain ⟨⟨⟨hBuiltin, -⟩, hParents⟩, -⟩ := hFree
    split at h
    · cases h
    · rename_i resolved hResolved
      split at h
      · cases h
      · cases h
        refine ordered_insert hOrdered hBuiltin hParents fun above hAbove => ?_
        rw [hAbove] at hResolved
        exact known_of_resolve hResolved

/-! ## What is below a name -/

/-- Only names are below a name other than `any`, and they are declared after it. -/
theorem eq_or_rank_lt_of_leWithin {r : Registry} {rank : String → Nat}
    (hRank : ∀ name parent, r.parent? name = some (.named parent) → rank parent < rank name)
    {above : String} (hAny : above ≠ "any") :
    ∀ (steps : Nat) {t : Ty}, r.leWithin steps t (.named above) = true →
      ∃ name, t = .named name ∧ (name = above ∨ rank above < rank name) := by
  intro steps
  induction steps with
  | zero =>
      intro t h
      unfold leWithin at h
      simp only [isAny, hAny, decide_false, Bool.or_false, decide_eq_true_eq] at h
      split at h
      · rename_i hEq
        exact ⟨above, hEq, .inl rfl⟩
      · cases h
  | succ steps ih =>
      intro t h
      unfold leWithin at h
      simp only [isAny, hAny, decide_false, Bool.or_false, decide_eq_true_eq] at h
      split at h
      · rename_i hEq
        exact ⟨above, hEq, .inl rfl⟩
      · cases t with
        | named name =>
            refine ⟨name, rfl, .inr ?_⟩
            simp only at h
            split at h
            · rename_i parent hParent
              obtain ⟨up, rfl, hUp⟩ := ih h
              have hLt := hRank name up hParent
              rcases hUp with rfl | hUp
              · exact hLt
              · omega
            · cases h
        | _ => cases h

/-- The same for a match with a declared name. -/
theorem eq_or_rank_lt_of_unifyWithin {r : Registry} {rank : String → Nat}
    (hRank : ∀ name parent, r.parent? name = some (.named parent) → rank parent < rank name)
    {above : String} (hAny : above ≠ "any") :
    ∀ (steps : Nat) {t : Ty} {b : Bindings}, (r.unifyWithin steps (.named above) t b).1 = true →
      ∃ name, t = .named name ∧ (name = above ∨ rank above < rank name) := by
  intro steps
  induction steps with
  | zero =>
      intro t b h
      simp [unifyWithin, isAny, hAny] at h
  | succ steps ih =>
      intro t b h
      unfold unifyWithin at h
      simp only [isAny, hAny, decide_false] at h
      cases t with
      | named name =>
          simp only [isNamed, Bool.true_and] at h
          refine ⟨name, rfl, ?_⟩
          split at h
          · cases ‹false = true›
          · split at h
            · rename_i hLe
              obtain ⟨_, hName, hUp⟩ := eq_or_rank_lt_of_leWithin hRank hAny _ hLe
              cases hName
              exact hUp
            · split at h
              · rename_i parent hParent
                obtain ⟨up, rfl, hUp⟩ := ih h
                have hLt := hRank name up hParent
                rcases hUp with rfl | hUp
                · exact .inr hLt
                · exact .inr (by omega)
              · cases h
      | _ =>
          obtain ⟨_, hName, _⟩ := eq_or_rank_lt_of_leWithin hRank hAny _ h
          cases hName

/-! ## Types of values -/

theorem le_self (r : Registry) (t : Ty) : r.le t t = true := by
  unfold le leWithin
  simp

/-- **A type of values satisfies itself**, and no variable is bound. -/
theorem unify_self (r : Registry) :
    ∀ (layers : Nat) {t : Ty} (b : Bindings), t.isFound layers = true →
      r.unifyWithin (layers + 1) t t b = (true, b) := by
  intro layers
  induction layers with
  | zero =>
      intro t b h
      cases t with
      | named name => simp [unifyWithin, isNamed, le_self]
      | func => simp [unifyWithin, isAny]
      | _ => cases h
  | succ layers ih =>
      intro t b h
      cases t with
      | named name =>
          unfold unifyWithin
          simp [isNamed, le_self]
      | func => simp [unifyWithin, isAny]
      | list elem =>
          rw [unifyWithin]
          exact ih b h
      | _ => cases h

/-- Nothing but `any` is satisfied by `any`. -/
theorem isAny_of_unifyWithin_any {r : Registry} (hOrdered : r.Ordered) {steps layers : Nat}
    {t : Ty} {b : Bindings} (hFound : t.isFound layers = true)
    (h : (r.unifyWithin steps t (.named "any") b).1 = true) : t = .named "any" := by
  obtain ⟨rank, hRank⟩ := hOrdered.rank
  cases t with
  | named name =>
      by_cases hName : name = "any"
      · rw [hName]
      · exfalso
        cases steps with
        | zero => simp [unifyWithin, isAny, hName] at h
        | succ steps =>
            have hLe : r.le (.named "any") (.named name) = false := by
              simp [le, leWithin, maxDepth, isAny, hName, Ne.symm hName, hOrdered.any]
            simp [unifyWithin, isAny, hName, isNamed, hLe, hOrdered.any] at h
  | func =>
      exfalso
      cases steps with
      | zero => simp [unifyWithin, isAny] at h
      | succ steps => simp [unifyWithin, isAny, isNamed, hOrdered.any] at h
  | list elem =>
      exfalso
      cases steps with
      | zero => simp [unifyWithin, isAny] at h
      | succ steps => simp [unifyWithin, isAny, isNamed, hOrdered.any] at h
  | _ => cases layers <;> cases hFound

/-- A type that satisfies a name and is satisfied by it is that name. -/
private theorem eq_named_of_unify_unify {r : Registry} (hOrdered : r.Ordered)
    {layers steps steps' : Nat} {t : Ty} {name : String} {b b' : Bindings}
    (hFound : t.isFound layers = true)
    (h : (r.unifyWithin steps t (.named name) b).1 = true)
    (h' : (r.unifyWithin steps' (.named name) t b').1 = true) : t = .named name := by
  obtain ⟨rank, hRank⟩ := hOrdered.rank
  by_cases hAny : name = "any"
  · subst hAny
    exact isAny_of_unifyWithin_any hOrdered hFound h
  · obtain ⟨other, rfl, hOther⟩ := eq_or_rank_lt_of_unifyWithin hRank hAny _ h'
    by_cases hOtherAny : other = "any"
    · subst hOtherAny
      have hNamed : (Ty.named name).isFound 0 = true := rfl
      exact (isAny_of_unifyWithin_any hOrdered hNamed h').symm
    · obtain ⟨_, hName, hBelow⟩ := eq_or_rank_lt_of_unifyWithin hRank hOtherAny _ h
      cases hName
      rcases hOther with rfl | hOther
      · rfl
      · rcases hBelow with rfl | hBelow
        · rfl
        · omega

/-- **Two types of values that satisfy each other are the same.** -/
theorem eq_of_unify_unify {r : Registry} (hOrdered : r.Ordered) :
    ∀ (layers : Nat) {steps steps' : Nat} {t u : Ty} {b b' : Bindings},
      t.isFound layers = true → u.isFound layers = true →
      (r.unifyWithin steps t u b).1 = true → (r.unifyWithin steps' u t b').1 = true → t = u := by
  intro layers
  induction layers with
  | zero =>
      intro steps steps' t u b b' hFound hFound' h h'
      cases u with
      | named name => exact eq_named_of_unify_unify hOrdered hFound h h'
      | func =>
          cases t with
          | named name => exact (eq_named_of_unify_unify hOrdered hFound' h' h).symm
          | func => rfl
          | _ => cases hFound
      | _ => cases hFound'
  | succ layers ih =>
      intro steps steps' t u b b' hFound hFound' h h'
      cases u with
      | named name => exact eq_named_of_unify_unify hOrdered hFound h h'
      | func =>
          cases t with
          | named name => exact (eq_named_of_unify_unify hOrdered hFound' h' h).symm
          | func => rfl
          | list elem => cases steps <;> cases h
          | _ => cases hFound
      | list elem' =>
          cases t with
          | named name => exact (eq_named_of_unify_unify hOrdered hFound' h' h).symm
          | func => cases steps <;> cases h
          | list elem =>
              cases steps with
              | zero => cases h
              | succ steps =>
                  cases steps' with
                  | zero => cases h'
                  | succ steps' =>
                      rw [unifyWithin] at h h'
                      exact congrArg Ty.list (ih hFound hFound' h h')
          | _ => cases hFound
      | _ => cases hFound'

/-- **No type satisfies a declared type with more list layers than a match
follows.** -/
theorem unify_tower (r : Registry) :
    ∀ (steps : Nat) {layers : Nat} (t : Ty) (b : Bindings), steps < layers →
      (r.unifyWithin steps (tower layers) t b).1 = false := by
  intro steps
  induction steps with
  | zero =>
      intro layers t b hLayers
      obtain ⟨n, rfl⟩ : ∃ n, layers = n + 1 := ⟨layers - 1, by omega⟩
      rfl
  | succ steps ih =>
      intro layers t b hLayers
      obtain ⟨n, rfl⟩ : ∃ n, layers = n + 1 := ⟨layers - 1, by omega⟩
      cases t with
      | list elem =>
          rw [tower, unifyWithin]
          exact ih elem b (by omega)
      | named name =>
          -- A declared name may stand for a list type, which is one step further up.
          unfold unifyWithin
          simp only [tower, isAny, isNamed, Bool.false_and, Bool.false_eq_true, if_false]
          split
          · exact ih _ b (show steps < n + 1 by omega)
          · rfl
      | _ => rfl

end Registry

end Ty

end ClauseLisp
