import ClauseLisp.Proofs.Types.JoinAll
import ClauseLisp.Proofs.Types.Resolving
import ClauseLisp.Proofs.Types.Signatures

/-!
# Variables outside signatures

A type variable that stands outside all signatures means nothing once the call that it
belongs to is over: the type is acceptable for itself and for `any` only.  There is at most
one of them in a type, where its list layers end.  A type without one is `Sealed`.

Putting sealed types for variables seals a type, and so do `erase` and joining.  Meeting
demands may leave a variable with a type that is not sealed, but only if that type is
all that is asked of it: nothing else is comparable with it.

## Main results

* `sealed_apply_iff` — when putting types for variables seals a type.
* `Registry.sealed_join` — the join of sealed types is sealed.
* `Registry.get?_widenAll_iff` — when a variable ends with a type that is not sealed.
* `Registry.sealed_of_mem_demandsWithin` — only variables in signatures are asked for such a type.
-/

namespace ClauseLisp.Ty

/-- The type variable outside all signatures, if there is one. -/
def exposed? : Ty → Option String
  | .var name => some name
  | .list elem => exposed? elem
  | _ => none

/-- No type variable stands outside signatures. -/
def Sealed (t : Ty) : Prop := t.exposed? = none

instance (t : Ty) : Decidable t.Sealed := inferInstanceAs (Decidable (_ = _))

theorem sealed_list {elem : Ty} : (Ty.list elem).Sealed ↔ elem.Sealed := Iff.rfl

/-- A type without variables is sealed. -/
theorem sealed_of_hasVars : ∀ {t : Ty}, t.hasVars = false → t.Sealed
  | .named _, _ => rfl
  | .list elem, h => sealed_of_hasVars (t := elem) h
  | .func, _ => rfl
  | .arrow _ _, _ => rfl
  | .var _, h => Bool.noConfusion h

/-- **Putting types for variables** seals a type if the one for its exposed variable is
sealed.  A variable that stands for nothing becomes `any`. -/
theorem sealed_apply_iff (b : Bindings) :
    ∀ t : Ty, (b.apply t).Sealed ↔
      ∀ name u, t.exposed? = some name → b.get? name = some u → u.Sealed
  | .named _ => iff_of_true rfl nofun
  | .func => iff_of_true rfl nofun
  | .arrow _ _ => iff_of_true rfl nofun
  | .list elem => sealed_apply_iff b elem
  | .var name => by
      rw [Bindings.apply, exposed?]
      cases hGet : b.get? name with
      | none =>
          refine iff_of_true rfl fun other u hName hBound => ?_
          cases hName
          cases hGet.symm.trans hBound
      | some u =>
          constructor
          · intro hSealed other u' hName hBound
            cases hName
            cases hGet.symm.trans hBound
            exact hSealed
          · exact fun h => h name u rfl hGet

theorem sealed_erase (t : Ty) : t.erase.Sealed :=
  (sealed_apply_iff Dict.empty t).mpr fun _ _ _ => nofun

/-- The types in a table are sealed. -/
def AllSealed (d : Dict Ty) : Prop := ∀ name t, d.get? name = some t → t.Sealed

namespace AllSealed

variable {d : Dict Ty}

theorem empty : AllSealed Dict.empty := fun _ _ => nofun

theorem insert (h : AllSealed d) (name : String) {t : Ty} (ht : t.Sealed) :
    AllSealed (d.insert name t) := by
  intro other u hGet
  rw [Dict.get?_insert] at hGet
  split at hGet
  · cases hGet
    exact ht
  · exact h other u hGet

theorem insertNew (h : AllSealed d) (name : String) {t : Ty} (ht : t.Sealed) :
    AllSealed (d.insertNew name t) := by
  unfold Dict.insertNew
  split
  · exact h
  · exact h.insert name ht

theorem apply {b : Bindings} (h : AllSealed b) (t : Ty) : (b.apply t).Sealed :=
  (sealed_apply_iff b t).mpr fun name u _ => h name u

end AllSealed

/-! ## Names in signatures -/

/-- The names inside the signatures of a type. -/
def signatureNames : Ty → List String
  | .list elem => signatureNames elem
  | .arrow params ret => (Ty.arrow params ret).names
  | _ => []

theorem mem_namesOfAll {name : String} :
    ∀ {ts : List Ty}, name ∈ namesOfAll ts ↔ ∃ t ∈ ts, name ∈ t.names
  | [] => by simp [namesOfAll]
  | t :: ts => by
      rw [namesOfAll, List.mem_append, mem_namesOfAll]
      simp

/-- What faces a part of another type is a name of the first. -/
theorem Faces.mem_names {d a t : Ty} {name : String} (h : Faces d a name t) : name ∈ d.names := by
  induction h with
  | var name t => exact List.mem_singleton_self name
  | list _ ih => exact ih
  | param ret ret' hDeclared _ _ ih =>
      exact List.mem_append_left _ (mem_namesOfAll.mpr ⟨_, List.mem_of_getElem? hDeclared, ih⟩)
  | ret ps qs _ ih => exact List.mem_append_right _ ih

namespace Registry

variable {r : Registry} (hr : r.Reached)

include hr

/-! ## Order and joins -/

/-- **Only itself is below a type that is not sealed.** -/
theorem Below.eq_of_not_sealed {t u : Ty} (h : Below r t u) (hu : ¬ u.Sealed) : t = u := by
  induction h with
  | refl => rfl
  | top => exact absurd rfl hu
  | list _ ih => rw [ih hu]
  | funcArrow => exact absurd rfl hu
  | arrowFunc => exact absurd rfl hu
  | parent hParent _ ih =>
      have hSealed := sealed_of_hasVars (hr.hasVars_parent hParent)
      exact absurd (ih hu ▸ hSealed) hu

theorem eq_of_le_of_not_sealed {t u : Ty} (h : r.le t u = true) (hu : ¬ u.Sealed) : t = u :=
  (below_of_leWithin h).eq_of_not_sealed hr hu

/-- **The join of sealed types is sealed.** -/
theorem sealed_join {a b : Ty} (ha : a.Sealed) (hb : b.Sealed) : (r.join a b).Sealed := by
  refine join_induct hr (motive := fun a b j => a.Sealed → b.Sealed → j.Sealed)
    (fun _ _ _ _ hb => hb) (fun _ _ _ _ ha _ => ha) (fun _ _ ih => ih) (fun _ _ _ _ _ _ => rfl)
    (fun _ _ _ hParent ih _ => ih ?_) (fun _ _ _ _ => rfl) a b ha hb
  exact sealed_of_hasVars (hr.hasVars_parent hParent)

theorem sealed_foldl_join {ts : List Ty} (hTypes : ∀ t ∈ ts, t.Sealed) :
    ∀ {first : Ty}, first.Sealed → (ts.foldl r.join first).Sealed := by
  induction ts with
  | nil => exact id
  | cons t ts ih =>
      intro first hFirst
      obtain ⟨ht, hts⟩ := List.forall_mem_cons.mp hTypes
      exact ih hts (sealed_join hr hFirst ht)

theorem sealed_fixedJoin? {a b t : Ty} (h : r.fixedJoin? a b = some t) (ha : a.Sealed)
    (hb : b.Sealed) : t.Sealed := by
  unfold fixedJoin? at h
  split at h
  · cases h
    exact hb
  · split at h
    · cases h
      exact sealed_join hr ha hb
    · cases h

/-! ## Meeting demands -/

/-- A variable that ends with a type that is not sealed has stood for nothing else, and
nothing else has been asked of it. -/
theorem eq_of_widenAll {name : String} {u : Ty} (hu : ¬ u.Sealed) :
    ∀ {ds : Demands} {b b' : Bindings}, r.widenAll ds b = (true, b') → b'.get? name = some u →
      (∀ t, b.get? name = some t → t = u) ∧ ∀ t, (name, t) ∈ ds → t = u := by
  intro ds
  induction ds with
  | nil =>
      intro b b' h hGet
      cases h
      exact ⟨fun t ht => Option.some.inj (ht.symm.trans hGet), nofun⟩
  | cons demand ds ih =>
      intro b b' h hGet
      obtain ⟨other, x⟩ := demand
      obtain ⟨middle, hFirst, hOthers⟩ := widenAll_cons_eq_true h
      obtain ⟨hMiddle, hRest⟩ := ih hOthers hGet
      by_cases hName : other = name
      · subst hName
        obtain ⟨-, hMeets⟩ := (widenVar_eq_true_iff r other x b middle).mp hFirst
        have hBoth : (∀ t, b.get? other = some t → t = u) ∧ x = u := by
          cases hBefore : b.get? other with
          | none =>
              rw [hBefore] at hMeets
              subst hMeets
              exact ⟨nofun, hMiddle x (by rw [Dict.get?_insert, if_pos rfl])⟩
          | some earlier =>
              simp only [hBefore] at hMeets
              obtain ⟨hComparable, rfl⟩ := hMeets
              have hEnds : ∀ t, earlier = t → t = u ∧ x = u := by
                rintro _ rfl
                by_cases hLe : r.le x earlier = true
                · rw [if_pos hLe] at hMiddle
                  have hEarlier := hMiddle earlier hBefore
                  subst hEarlier
                  exact ⟨rfl, eq_of_le_of_not_sealed hr hLe hu⟩
                · rw [if_neg hLe, Dict.get?_insert, if_pos rfl] at hMiddle
                  have hLast := hMiddle x rfl
                  subst hLast
                  exact ⟨eq_of_le_of_not_sealed hr (hComparable.resolve_left hLe) hu, rfl⟩
              exact ⟨fun t ht => (hEnds t (Option.some.inj ht)).1, (hEnds earlier rfl).2⟩
        refine ⟨hBoth.1, fun t hMem => ?_⟩
        rcases List.mem_cons.mp hMem with hSame | hMem
        · cases hSame
          exact hBoth.2
        · exact hRest t hMem
      · have hSame : middle.get? name = b.get? name := by
          rcases eq_or_eq_insert_of_widenVar hFirst with rfl | rfl
          · rfl
          · rw [Dict.get?_insert, if_neg hName]
        refine ⟨fun t ht => hMiddle t (hSame.trans ht), fun t hMem => ?_⟩
        rcases List.mem_cons.mp hMem with hFirst | hMem
        · cases hFirst
          exact absurd rfl hName
        · exact hRest t hMem

/-- **A variable ends with a type that is not sealed** exactly if that type is asked of it,
and nothing else is. -/
theorem get?_widenAll_iff {ds : Demands} {b : Bindings} {name : String} {u : Ty} (hu : ¬ u.Sealed)
    (h : r.widenAll ds Dict.empty = (true, b)) :
    b.get? name = some u ↔ (name, u) ∈ ds ∧ ∀ t, (name, t) ∈ ds → t = u := by
  constructor
  · intro hGet
    exact ⟨(get?_widenAll h hGet).resolve_left nofun, (eq_of_widenAll hr hu h hGet).2⟩
  · rintro ⟨hMem, hOnly⟩
    obtain ⟨t, hGet⟩ := exists_get?_widenAll h ⟨u, .inr hMem⟩
    have hAsked := (get?_widenAll h hGet).resolve_left nofun
    rwa [hOnly t hAsked] at hGet

/-- **A sealed type asks for sealed types** but of variables inside signatures. -/
theorem sealed_of_mem_demandsWithin {name : String} {t : Ty} :
    ∀ {steps : Nat} {declared actual : Ty} {ds : Demands},
      r.demandsWithin steps declared actual = some ds → actual.Sealed →
      name ∉ declared.signatureNames → (name, t) ∈ ds → t.Sealed := by
  intro steps
  induction steps with
  | zero =>
      intro declared actual ds h _ _ hMem
      unfold demandsWithin at h
      split at h <;> cases h
      cases hMem
  | succ steps ih =>
      intro declared actual ds h hActual hOutside hMem
      unfold demandsWithin at h
      split at h
      · cases h
        cases hMem
      · split at h
        · cases h
          cases List.mem_singleton.mp hMem
          exact hActual
        · exact ih h hActual hOutside hMem
        · cases h
          cases hMem
        · cases h
          cases hMem
        · cases h
          cases hMem
        · rename_i ps ret qs ret' _
          have hExact : exactDemandsWithin (steps + 1) (.arrow ps ret) (.arrow qs ret') = some ds :=
            h
          exact absurd ((mem_exactDemandsWithin_iff (steps + 1) hExact).mp hMem).mem_names hOutside
        · split at h
          · cases h
            cases hMem
          · split at h
            · rename_i parent hParent
              exact ih h (sealed_of_hasVars (hr.hasVars_parent hParent)) hOutside hMem
            · cases h
        · split at h <;> cases h
          cases hMem
        · cases h

/-! ## Matching without signatures -/

omit hr in
theorem sealed_widenVar {b : Bindings} (hb : AllSealed b) (name : String) {t : Ty}
    (ht : t.Sealed) : AllSealed (r.widenVar name t b).2 := by
  have hEither : (r.widenVar name t b).2 = b ∨ (r.widenVar name t b).2 = b.insert name t := by
    unfold widenVar
    dsimp only
    (repeat' split) <;> simp
  rcases hEither with hSame | hBound
  · rw [hSame]
    exact hb
  · rw [hBound]
    exact hb.insert name ht

/-- **Matching a sealed type** with a type that is no signature, nor a list of these, binds
variables to sealed types, whether or not it succeeds. -/
theorem sealed_unifyWithin :
    ∀ {steps : Nat} {declared actual : Ty} {b : Bindings}, declared.isArrowTower = false →
      actual.Sealed → AllSealed b → AllSealed (r.unifyWithin steps declared actual b).2 := by
  intro steps
  induction steps with
  | zero =>
      intro declared actual b _ _ hb
      unfold unifyWithin
      split <;> exact hb
  | succ steps ih =>
      intro declared actual b hDeclared hActual hb
      have hUp : ∀ name parent, r.parent? name = some parent →
          AllSealed (r.unifyWithin steps declared parent b).2 := fun name parent hParent =>
        ih hDeclared (sealed_of_hasVars (hr.hasVars_parent hParent)) hb
      unfold unifyWithin
      split
      · exact hb
      · cases declared with
        | var name => exact sealed_widenVar hb name hActual
        | arrow ps t => cases hDeclared
        | list d =>
            cases actual with
            | list a => exact ih hDeclared hActual hb
            | named name =>
                dsimp only
                split
                · exact hb
                · split
                  · exact hUp name _ ‹_›
                  · exact hb
            | _ => exact hb
        | _ =>
          cases actual with
          | named name =>
              dsimp only
              split
              · exact hb
              · split
                · exact hUp name _ ‹_›
                · exact hb
          | _ => exact hb

end Registry

end ClauseLisp.Ty
