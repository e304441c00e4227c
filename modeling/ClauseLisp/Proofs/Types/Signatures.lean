import ClauseLisp.Proofs.Types.Unification

/-!
# Matching signatures

Inside function types a match is exact: names, lists and signatures are compared
as they stand, and only variables leave room.  A variable is treated there as it
is anywhere else, however.  If it stands in several places and faces different
types, it is widened to the most general of them, and the match succeeds although
the signature, with what the variable stands for put into it, is not the one that
was matched.

So a signature is matched as it stands exactly if each of its variables faces one
type only; a variable that stands in one place always does.

## Main results

* `mem_exactDemandsWithin_iff` — what is asked of a variable is what it faces.
* `Registry.signature_match_exact_iff` — which signatures are matched as they stand.
* `Registry.signature_match_widens` — one that is not.
-/

namespace ClauseLisp.Ty

/-- A variable of the first type faces a part of the second one: it stands where that
part does. -/
inductive Faces : Ty → Ty → String → Ty → Prop
  | var (name : String) (t : Ty) : Faces (.var name) t name t
  | list {d a : Ty} {name : String} {t : Ty} : Faces d a name t → Faces (.list d) (.list a) name t
  | param {ps qs : List Ty} {i : Nat} {d a : Ty} {name : String} {t : Ty} (ret ret' : Ty) :
      ps[i]? = some d → qs[i]? = some a → Faces d a name t →
      Faces (.arrow ps ret) (.arrow qs ret') name t
  | ret {d a : Ty} {name : String} {t : Ty} (ps qs : List Ty) :
      Faces d a name t → Faces (.arrow ps d) (.arrow qs a) name t

/-- What a variable faces is no higher than the type that it is part of. -/
theorem Faces.fullHeight_le {d a t : Ty} {name : String} (h : Faces d a name t) (r : Registry) :
    r.fullHeight t ≤ r.fullHeight a := by
  induction h with
  | var name t => exact Nat.le_refl _
  | list _ ih =>
      rw [Registry.fullHeight_list]
      omega
  | param ret ret' _ hActual _ ih =>
      have hLt := Registry.fullHeight_lt_of_mem r (List.mem_of_getElem? hActual) ret'
      omega
  | @ret d a _ _ ps qs _ ih =>
      have hLt := Registry.fullHeight_ret_lt r qs a
      omega

/-! ## Putting types for variables -/

theorem Bindings.applyAll_eq_map (b : Bindings) (ts : List Ty) :
    b.applyAll ts = ts.map b.apply := by
  induction ts with
  | nil => rfl
  | cons t ts ih => rw [Bindings.applyAll, ih, List.map_cons]

/-- Where a declared type becomes the actual one, each variable stands for what it
faces. -/
theorem Faces.eq_of_apply {d a t : Ty} {name : String} {b : Bindings} (h : Faces d a name t) :
    b.apply d = a → t = (b.get? name).getD any := by
  induction h with
  | var name t => exact Eq.symm
  | list _ ih =>
      intro hApply
      exact ih (Ty.list.inj hApply)
  | @param ps qs i d a _ _ ret ret' hDeclared hActual _ ih =>
      intro hApply
      have hParams : b.applyAll ps = qs := (Ty.arrow.inj hApply).1
      rw [← hParams, Bindings.applyAll_eq_map, List.getElem?_map, hDeclared] at hActual
      exact ih (Option.some.inj hActual)
  | ret ps qs _ ih =>
      intro hApply
      exact ih (Ty.arrow.inj hApply).2

/-! ## What is asked of variables -/

namespace Registry

theorem mem_demandsEach_iff {f : Ty → Ty → Option Demands} {name : String} {t : Ty} :
    ∀ {ps qs : List Ty} {ds : Demands},
      (∀ d a es, f d a = some es → ((name, t) ∈ es ↔ Faces d a name t)) →
      demandsEach f ps qs = some ds →
      ((name, t) ∈ ds ↔ ∃ (i : Nat) (d a : Ty),
        ps[i]? = some d ∧ qs[i]? = some a ∧ Faces d a name t)
  | [], [], _, _, hDemands => by
    cases hDemands
    simp
  | [], _ :: _, _, _, hDemands => nomatch hDemands
  | _ :: _, [], _, _, hDemands => nomatch hDemands
  | p :: ps, q :: qs, _, h, hDemands => by
    obtain ⟨first, others, hFirst, hOthers, rfl⟩ := bothDemands_eq_some hDemands
    rw [List.mem_append, h p q first hFirst, mem_demandsEach_iff h hOthers]
    constructor
    · rintro (hFaces | ⟨i, hRest⟩)
      · exact ⟨0, p, q, rfl, rfl, hFaces⟩
      · exact ⟨i + 1, hRest⟩
    · rintro ⟨i, d, a, hDeclared, hActual, hFaces⟩
      cases i with
      | zero =>
          cases hDeclared
          cases hActual
          exact .inl hFaces
      | succ i => exact .inr ⟨i, d, a, hDeclared, hActual, hFaces⟩

/-- **What is asked of a variable is what it faces.** -/
theorem mem_exactDemandsWithin_iff {name : String} {t : Ty} :
    ∀ (steps : Nat) {declared actual : Ty} {ds : Demands},
      exactDemandsWithin steps declared actual = some ds →
      ((name, t) ∈ ds ↔ Faces declared actual name t) := by
  intro steps
  induction steps with
  | zero => exact fun h => nomatch h
  | succ steps ih =>
      intro declared actual ds h
      unfold exactDemandsWithin at h
      split at h
      · rename_i other actual
        cases h
        rw [List.mem_singleton, Prod.mk.injEq]
        constructor
        · rintro ⟨rfl, rfl⟩
          exact .var name t
        · rintro ⟨⟩
          exact ⟨rfl, rfl⟩
      · rw [ih h]
        constructor
        · exact .list
        · rintro (_ | h)
          exact h
      · rename_i ps ret qs ret'
        unfold signatureDemands at h
        split at h
        · obtain ⟨params, rest, hParams, hRet, rfl⟩ := bothDemands_eq_some h
          rw [List.mem_append, ih hRet,
            mem_demandsEach_iff (fun d a es hDemands => ih hDemands) hParams]
          constructor
          · rintro (⟨i, d, a, hDeclared, hActual, hFaces⟩ | hFaces)
            · exact .param ret ret' hDeclared hActual hFaces
            · exact .ret ps qs hFaces
          · intro hFaces
            cases hFaces with
            | param _ _ hDeclared hActual hFaces =>
                exact .inl ⟨_, _, _, hDeclared, hActual, hFaces⟩
            | ret _ _ hFaces => exact .inr hFaces
        · cases h
      · rename_i hVar hList hArrow
        split at h
        · rename_i hSame
          cases h
          subst hSame
          refine ⟨nofun, fun hFaces => ?_⟩
          cases hFaces with
          | var name t => exact (hVar name rfl).elim
          | list _ => exact (hList _ _ rfl rfl).elim
          | param => exact (hArrow _ _ _ _ rfl rfl).elim
          | ret => exact (hArrow _ _ _ _ rfl rfl).elim
        · cases h

theorem applyAll_of_demandsEach {f : Ty → Ty → Option Demands} {b : Bindings} :
    ∀ {ps qs : List Ty} {ds : Demands},
      (∀ d a es, f d a = some es → (∀ demand ∈ es, b.get? demand.1 = some demand.2) →
        b.apply d = a) →
      demandsEach f ps qs = some ds → (∀ demand ∈ ds, b.get? demand.1 = some demand.2) →
      b.applyAll ps = qs
  | [], [], _, _, _, _ => rfl
  | [], _ :: _, _, _, hDemands, _ => nomatch hDemands
  | _ :: _, [], _, _, hDemands, _ => nomatch hDemands
  | p :: ps, q :: qs, _, h, hDemands, hBound => by
    obtain ⟨first, others, hFirst, hOthers, rfl⟩ := bothDemands_eq_some hDemands
    rw [List.forall_mem_append] at hBound
    rw [Bindings.applyAll, h p q first hFirst hBound.1, applyAll_of_demandsEach h hOthers hBound.2]

/-- Where each variable stands for whatever is asked of it, the declared type becomes the
actual one. -/
theorem apply_of_exactDemandsWithin {b : Bindings} :
    ∀ (steps : Nat) {declared actual : Ty} {ds : Demands},
      exactDemandsWithin steps declared actual = some ds →
      (∀ demand ∈ ds, b.get? demand.1 = some demand.2) → b.apply declared = actual := by
  intro steps
  induction steps with
  | zero => exact fun h => nomatch h
  | succ steps ih =>
      intro declared actual ds h hBound
      unfold exactDemandsWithin at h
      split at h
      · cases h
        rw [Bindings.apply, hBound _ List.mem_cons_self]
        rfl
      · exact congrArg Ty.list (ih h hBound)
      · unfold signatureDemands at h
        split at h
        · obtain ⟨params, rest, hParams, hRet, rfl⟩ := bothDemands_eq_some h
          rw [List.forall_mem_append] at hBound
          rw [Bindings.apply, ih hRet hBound.2,
            applyAll_of_demandsEach (fun _ _ _ hDemands => ih hDemands) hParams hBound.1]
        · cases h
      · rename_i hVar hList hArrow
        split at h
        · rename_i hSame
          subst hSame
          cases declared with
          | named name => rfl
          | func => rfl
          | var name => exact (hVar name rfl).elim
          | list elem => exact (hList elem elem rfl rfl).elim
          | arrow params ret => exact (hArrow params ret params ret rfl rfl).elim
        · cases h

/-! ## Meeting what is asked -/

section

variable {r : Registry} {ds : Demands} {b b' : Bindings}

/-- The first demand is met, and then the others. -/
theorem widenAll_cons_eq_true {demand : String × Ty}
    (h : r.widenAll (demand :: ds) b = (true, b')) :
    ∃ middle, r.widenVar demand.1 demand.2 b = (true, middle) ∧
      r.widenAll ds middle = (true, b') := by
  rw [widenAll] at h
  rcases hFirst : r.widenVar demand.1 demand.2 b with ⟨accepted, middle⟩
  rw [hFirst] at h
  cases accepted with
  | false => cases h
  | true => exact ⟨middle, rfl, h⟩

/-- A demand that is met leaves the bindings as they were, or binds its variable. -/
theorem eq_or_eq_insert_of_widenVar {name : String} {t : Ty}
    (h : r.widenVar name t b = (true, b')) : b' = b ∨ b' = b.insert name t := by
  obtain ⟨-, hMeets⟩ := (widenVar_eq_true_iff r name t b b').mp h
  cases hBefore : b.get? name with
  | none =>
      rw [hBefore] at hMeets
      exact .inr hMeets
  | some earlier =>
      simp only [hBefore] at hMeets
      rw [hMeets.2]
      split
      · exact .inl rfl
      · exact .inr rfl

/-- A variable stands for something that is asked of it, or that it stood for before. -/
theorem get?_widenAll : ∀ {ds : Demands} {b : Bindings}, r.widenAll ds b = (true, b') →
    ∀ {name : String} {t : Ty}, b'.get? name = some t → b.get? name = some t ∨ (name, t) ∈ ds := by
  intro ds
  induction ds with
  | nil =>
      intro b h name t hGet
      cases h
      exact .inl hGet
  | cons demand ds ih =>
      intro b h name t hGet
      obtain ⟨middle, hFirst, hOthers⟩ := widenAll_cons_eq_true h
      rcases ih hOthers hGet with hMiddle | hMem
      · rcases eq_or_eq_insert_of_widenVar hFirst with rfl | rfl
        · exact .inl hMiddle
        · rw [Dict.get?_insert] at hMiddle
          split at hMiddle
          · rename_i hName
            cases hMiddle
            exact .inr (hName ▸ List.mem_cons_self)
          · exact .inl hMiddle
      · exact .inr (List.mem_cons_of_mem _ hMem)

/-- No variable is unbound, and all that something is asked of are bound in the end. -/
theorem exists_get?_widenAll : ∀ {ds : Demands} {b : Bindings}, r.widenAll ds b = (true, b') →
    ∀ {name : String}, (∃ t, b.get? name = some t ∨ (name, t) ∈ ds) →
      ∃ t, b'.get? name = some t := by
  intro ds
  induction ds with
  | nil =>
      rintro b h name ⟨t, hGet | hMem⟩
      · cases h
        exact ⟨t, hGet⟩
      · cases hMem
  | cons demand ds ih =>
      rintro b h name ⟨t, hAsked⟩
      obtain ⟨middle, hFirst, hOthers⟩ := widenAll_cons_eq_true h
      have hMiddle : (∃ u, middle.get? name = some u) ∨ (name, t) ∈ ds := by
        rcases hAsked with hGet | hMem
        · rcases eq_or_eq_insert_of_widenVar hFirst with rfl | rfl
          · exact .inl ⟨t, hGet⟩
          · rw [Dict.get?_insert]
            split
            · exact .inl ⟨_, rfl⟩
            · exact .inl ⟨t, hGet⟩
        · rcases List.mem_cons.mp hMem with rfl | hMem
          · obtain ⟨u, hGet, -⟩ := meets_of_widenVar hFirst _ List.mem_cons_self
            exact .inl ⟨u, hGet⟩
          · exact .inr hMem
      rcases hMiddle with ⟨u, hGet⟩ | hMem
      · exact ih hOthers ⟨u, .inl hGet⟩
      · exact ih hOthers ⟨t, .inr hMem⟩

/-- Demands that are not too high only widen what variables stand for. -/
theorem extends_widenAll (hr : r.Reached) : ∀ {ds : Demands} {b : Bindings},
    (∀ demand ∈ ds, r.fullHeight demand.2 < maxDepth) → r.widenAll ds b = (true, b') →
      r.Extends b b' := by
  intro ds
  induction ds with
  | nil =>
      intro _ _ h
      cases h
      exact .refl b'
  | cons demand ds ih =>
      intro b hLow h
      rw [List.forall_mem_cons] at hLow
      obtain ⟨middle, hFirst, hOthers⟩ := widenAll_cons_eq_true h
      have hWidens := extends_widenVar hr demand.1 b hLow.1
      rw [hFirst] at hWidens
      exact hWidens.trans (ih hLow.2 hOthers)

/-- **What is asked of a variable is below what it stands for in the end.** -/
theorem meets_of_widenAll (hr : r.Reached) : ∀ {ds : Demands} {b : Bindings}, r.Within b →
    (∀ demand ∈ ds, r.fullHeight demand.2 < maxDepth) → r.widenAll ds b = (true, b') →
      r.Meets b' ds := by
  intro ds
  induction ds with
  | nil => exact fun _ _ _ => nofun
  | cons demand ds ih =>
      intro b hWithin hLow h
      rw [List.forall_mem_cons] at hLow
      obtain ⟨middle, hFirst, hOthers⟩ := widenAll_cons_eq_true h
      have hMiddle := extends_widenVar hr demand.1 b hLow.1 hWithin
      rw [hFirst] at hMiddle
      have hGrows := (extends_widenAll hr hLow.2 hOthers hMiddle.1).2
      have hMet : r.Meets b' [demand] := (meets_of_widenVar hFirst).grows hGrows
      exact List.forall_mem_cons.mpr
        ⟨hMet demand List.mem_cons_self, ih hMiddle.1 hLow.2 hOthers⟩

end

/-! ## Signatures -/

/-- **Which signatures are matched as they stand.**  A function type with a signature is
matched, from no bindings, with another one.  With what its variables stand for put into
it, it is that other one exactly if each variable faces one type only.  In any case a
variable stands for one of the types that it faces; and all of them are below that one, if
the signature is not higher than a match follows. -/
theorem signature_match_exact_iff {r : Registry} (hr : r.Reached) {ps qs : List Ty} {t u : Ty}
    {b : Bindings} (h : r.unify (.arrow ps t) (.arrow qs u) Dict.empty = (true, b)) :
    (b.apply (.arrow ps t) = .arrow qs u ↔
        ∀ name x y, Faces (.arrow ps t) (.arrow qs u) name x →
          Faces (.arrow ps t) (.arrow qs u) name y → x = y) ∧
      ∀ name x, Faces (.arrow ps t) (.arrow qs u) name x →
        ∃ y, b.get? name = some y ∧ Faces (.arrow ps t) (.arrow qs u) name y ∧
          (r.fullHeight (.arrow qs u) < maxDepth → r.le x y = true) := by
  obtain ⟨ds, hDemands, hWiden⟩ :=
    (factors_unifyWithin r maxDepth (.arrow ps t) (.arrow qs u) Dict.empty b).mp h
  replace hDemands : exactDemandsWithin maxDepth (.arrow ps t) (.arrow qs u) = some ds := hDemands
  have hAsked : ∀ {name x}, (name, x) ∈ ds ↔ Faces (.arrow ps t) (.arrow qs u) name x :=
    mem_exactDemandsWithin_iff maxDepth hDemands
  have hFaced : ∀ {name x}, b.get? name = some x → (name, x) ∈ ds :=
    fun hGet => (get?_widenAll hWiden hGet).resolve_left nofun
  refine ⟨⟨fun hApply name x y hx hy => ?_, fun hOne => ?_⟩, fun name x hFaces => ?_⟩
  · rw [hx.eq_of_apply hApply, hy.eq_of_apply hApply]
  · refine apply_of_exactDemandsWithin maxDepth hDemands fun demand hMem => ?_
    obtain ⟨y, hGet⟩ := exists_get?_widenAll hWiden ⟨demand.2, .inr hMem⟩
    rw [hGet, hOne demand.1 demand.2 y (hAsked.mp hMem) (hAsked.mp (hFaced hGet))]
  · have hMem := hAsked.mpr hFaces
    obtain ⟨y, hGet⟩ := exists_get?_widenAll hWiden ⟨x, .inr hMem⟩
    refine ⟨y, hGet, hAsked.mp (hFaced hGet), fun hHigh => ?_⟩
    have hLow : ∀ demand ∈ ds, r.fullHeight demand.2 < maxDepth := fun demand hDemand =>
      Nat.lt_of_le_of_lt ((hAsked.mp hDemand).fullHeight_le r) hHigh
    obtain ⟨z, hGet', hBelow⟩ := meets_of_widenAll hr within_empty hLow hWiden _ hMem
    rw [hGet, Option.some.injEq] at hGet'
    subst hGet'
    exact (le_eq_true_iff_below hr
      (Nat.lt_of_le_of_lt (r.height_le_fullHeight x) (hLow _ hMem))).mpr hBelow

/-- A variable that stands in two places and faces `metre` in both. -/
theorem signature_match_exact_of_metres :
    ∃ b, lengths.unify (.arrow [.list (.var "a"), .var "b"] (.var "a"))
          (.arrow [.list (.named "metre"), str] (.named "metre")) Dict.empty = (true, b) ∧
      b.apply (.arrow [.list (.var "a"), .var "b"] (.var "a")) =
        .arrow [.list (.named "metre"), str] (.named "metre") := by
  have hUnify : lengths.unify (.arrow [.list (.var "a"), .var "b"] (.var "a"))
      (.arrow [.list (.named "metre"), str] (.named "metre")) Dict.empty =
        (true, ⟨[("a", .named "metre"), ("b", str)]⟩) := rfl
  refine ⟨_, hUnify, (signature_match_exact_iff reached_lengths hUnify).1.mpr ?_⟩
  have hFaced : ∀ {name x}, Faces (.arrow [.list (.var "a"), .var "b"] (.var "a"))
      (.arrow [.list (.named "metre"), str] (.named "metre")) name x →
        x = if name = "a" then .named "metre" else str := by
    intro name x h
    cases h with
    | @param _ _ i _ _ _ _ _ _ hDeclared hActual h =>
        match i with
        | 0 =>
            cases hDeclared
            cases hActual
            rcases h with _ | ⟨⟨⟩⟩
            rfl
        | 1 =>
            cases hDeclared
            cases hActual
            cases h
            rfl
        | i + 2 => cases hDeclared
    | ret _ _ h =>
        cases h
        rfl
  intro name x y hx hy
  rw [hFaced hx, hFaced hy]

/-- **A signature that is not matched as it stands.**  A variable that faces `metre` and
then `int` stands for `int` in the end, and the signature with `int` in both places is
not even above the one that was matched. -/
theorem signature_match_widens :
    lengths.Reached ∧
      (lengths.unify (.arrow [.var "a"] (.var "a")) (.arrow [.named "metre"] int) Dict.empty).1 =
        true ∧
      Bindings.apply (lengths.unify (.arrow [.var "a"] (.var "a")) (.arrow [.named "metre"] int)
        Dict.empty).2 (.arrow [.var "a"] (.var "a")) = .arrow [int] int ∧
      Ty.arrow [int] int ≠ .arrow [.named "metre"] int ∧
      lengths.le (.arrow [.named "metre"] int) (.arrow [int] int) = false :=
  ⟨reached_lengths, by decide⟩

end Registry

end ClauseLisp.Ty
