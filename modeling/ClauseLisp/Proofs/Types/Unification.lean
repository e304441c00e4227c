import ClauseLisp.Proofs.Types.Demands

/-!
# Unification over a whole match

The parameters of a clause are unified one after the other, and the bindings go
from each to the next.  A variable may be widened long after a type was accepted
for it, so what was accepted must stay acceptable.  It does, although the order
of types is not transitive at bare `func`: a variable only leaves a type for one
that is strictly above it, and going strictly up never passes through bare
`func` (`Below.trans_of_strict`).

## Main results

* `Registry.extends_unifyWithin` — whether it succeeds or fails, a match only
  widens what variables stand for, within their bounds.
* `Registry.unify_eq_true_iff_below` — without variables, matching is going up.
* `Registry.unification_sound` — what has been accepted one after the other
  satisfies the declared types as the bindings leave them.
-/

namespace ClauseLisp.Ty.Registry

variable {r : Registry}

/-! ## Going strictly up -/

/-- What is between two types is left out, if the second step goes strictly up. -/
theorem Below.trans_of_strict (hr : r.Reached) {a t : Ty} (hat : Below r a t) :
    ∀ {u : Ty}, Below r t u → ¬ Below r u t → Below r a u := by
  induction hat with
  | refl a => exact fun htu _ => htu
  | top a =>
      intro u htu _
      rw [Below.eq_any hr htu]
      exact .top a
  | list hat ih =>
      intro u htu hStrict
      cases htu with
      | refl => exact .list hat
      | top => exact .top _
      | list htu => exact .list (ih htu fun hut => hStrict (.list hut))
  | funcArrow params ret =>
      intro u htu _
      cases htu with
      | refl => exact .funcArrow params ret
      | top => exact .top _
      | arrowFunc => exact .refl _
  | arrowFunc params ret =>
      intro u htu hStrict
      cases htu with
      | refl => exact .arrowFunc params ret
      | top => exact .top _
      | funcArrow params' ret' => exact absurd (.arrowFunc params' ret') hStrict
  | parent hParent _ ih => exact fun htu hStrict => .parent hParent (ih htu hStrict)

/-- Whatever is acceptable for the first type is acceptable for the second. -/
def Widens (r : Registry) (t u : Ty) : Prop := ∀ a, Below r a t → Below r a u

namespace Widens

theorem refl (t : Ty) : r.Widens t t := fun _ h => h

theorem trans {t u v : Ty} (h : r.Widens t u) (h' : r.Widens u v) : r.Widens t v :=
  fun a hat => h' a (h a hat)

theorem below {t u : Ty} (h : r.Widens t u) : Below r t u := h t (.refl t)

end Widens

/-! ## Bindings -/

/-- Bindings to types that are within the bounds of their variables and no higher
than the order follows. -/
structure Within (r : Registry) (b : Bindings) : Prop where
  low : ∀ name t, b.get? name = some t → r.fullHeight t < maxDepth
  admitted : ∀ name t, b.get? name = some t → r.Admits name t

/-- Every variable still stands for what it did, or for something wider. -/
def Grows (r : Registry) (b b' : Bindings) : Prop :=
  ∀ name t, b.get? name = some t → ∃ t', b'.get? name = some t' ∧ r.Widens t t'

theorem Grows.refl (b : Bindings) : r.Grows b b := fun _ t h => ⟨t, h, .refl t⟩

theorem Grows.trans {b b' b'' : Bindings} (h : r.Grows b b') (h' : r.Grows b' b'') :
    r.Grows b b'' := by
  intro name t hGet
  obtain ⟨t', hGet', hWidens⟩ := h name t hGet
  obtain ⟨t'', hGet'', hWidens'⟩ := h' name t' hGet'
  exact ⟨t'', hGet'', hWidens.trans hWidens'⟩

/-- What becomes of bindings in a match: from bindings that are within bounds it
leads to wider ones that are. -/
def Extends (r : Registry) (b b' : Bindings) : Prop := r.Within b → r.Within b' ∧ r.Grows b b'

theorem Extends.refl (b : Bindings) : r.Extends b b := fun hWithin => ⟨hWithin, .refl b⟩

theorem Extends.trans {b b' b'' : Bindings} (h : r.Extends b b') (h' : r.Extends b' b'') :
    r.Extends b b'' := by
  intro hWithin
  obtain ⟨hWithin', hGrows⟩ := h hWithin
  obtain ⟨hWithin'', hGrows'⟩ := h' hWithin'
  exact ⟨hWithin'', hGrows.trans hGrows'⟩

theorem within_empty : r.Within Dict.empty := by
  constructor
  · intro name t h
    cases h
  · intro name t h
    cases h

/-- Binding a variable to something within its bound that is wider than what it
stood for. -/
private theorem extends_insert {b : Bindings} {name : String} {actual : Ty}
    (hLow : r.fullHeight actual < maxDepth) (hAdmits : r.Admits name actual)
    (hWider : ∀ t, b.get? name = some t → r.Within b → r.Widens t actual) :
    r.Extends b (b.insert name actual) := by
  intro hWithin
  refine ⟨⟨?_, ?_⟩, ?_⟩
  · intro other t hGet
    rw [Dict.get?_insert] at hGet
    split at hGet
    · cases hGet
      exact hLow
    · exact hWithin.low other t hGet
  · intro other t hGet
    rw [Dict.get?_insert] at hGet
    split at hGet
    · rename_i hName
      cases hGet
      exact hName ▸ hAdmits
    · exact hWithin.admitted other t hGet
  · intro other t hGet
    rw [Dict.get?_insert]
    split
    · rename_i hName
      subst hName
      exact ⟨actual, rfl, hWider t hGet hWithin⟩
    · exact ⟨t, hGet, .refl t⟩

/-- A variable that refuses a type stands for what it did. -/
private theorem eq_of_widenVar_refused {name : String} {actual : Ty} {b b' : Bindings}
    (h : r.widenVar name actual b = (false, b')) : b' = b := by
  unfold widenVar at h
  grind

/-- **A variable is only ever widened**, and within its bound. -/
theorem extends_widenVar (hr : r.Reached) (name : String) {actual : Ty} (b : Bindings)
    (hLow : r.fullHeight actual < maxDepth) : r.Extends b (r.widenVar name actual b).2 := by
  rcases hWiden : r.widenVar name actual b with ⟨accepted, b'⟩
  cases accepted with
  | false =>
      rw [eq_of_widenVar_refused hWiden]
      exact .refl b
  | true =>
      obtain ⟨hAdmits, hMeets⟩ := (widenVar_eq_true_iff r name actual b b').mp hWiden
      cases hGet : b.get? name with
      | none =>
          rw [hGet] at hMeets
          rw [hMeets]
          exact extends_insert hLow hAdmits fun t hBound => by
            rw [hGet] at hBound
            cases hBound
      | some earlier =>
          simp only [hGet] at hMeets
          obtain ⟨hComparable, rfl⟩ := hMeets
          split
          · exact .refl b
          · rename_i hNotLe
            have hUp : r.le earlier actual = true := hComparable.resolve_left hNotLe
            have hHeight := Nat.lt_of_le_of_lt (r.height_le_fullHeight actual) hLow
            have hStrict : ¬ Below r actual earlier :=
              fun h => hNotLe ((le_eq_true_iff_below hr hHeight).mpr h)
            refine extends_insert hLow hAdmits fun t hBound _ => ?_
            rw [hGet] at hBound
            cases hBound
            exact fun a hBelow => hBelow.trans_of_strict hr (below_of_leWithin hUp) hStrict

/-! ## One match -/

theorem extends_unifyEach {match₁ : Ty → Ty → Bindings → Bool × Bindings} :
    ∀ {ds as : List Ty} {b : Bindings},
      (∀ d, ∀ a ∈ as, ∀ b, r.Extends b (match₁ d a b).2) → r.Extends b (unifyEach match₁ ds as b).2
  | [], [], b, _ => .refl b
  | [], _ :: _, b, _ => .refl b
  | _ :: _, [], b, _ => .refl b
  | d :: ds, a :: as, b, h => by
    have hFirst := h d a List.mem_cons_self b
    rw [unifyEach]
    rcases hMatch : match₁ d a b with ⟨accepted, middle⟩
    rw [hMatch] at hFirst
    cases accepted with
    | false => exact hFirst
    | true => exact hFirst.trans (extends_unifyEach fun d a ha => h d a (List.mem_cons_of_mem _ ha))

theorem extends_unifySignature {match₁ : Ty → Ty → Bindings → Bool × Bindings} {qs : List Ty}
    {u : Ty}
    (h : ∀ d a b, r.fullHeight a < r.fullHeight (.arrow qs u) → r.Extends b (match₁ d a b).2)
    (ps : List Ty) (t : Ty) (b : Bindings) :
    r.Extends b (unifySignature match₁ ps t qs u b).2 := by
  have hParams : r.Extends b (unifyEach match₁ ps qs b).2 :=
    extends_unifyEach fun d a ha b => h d a b (fullHeight_lt_of_mem r ha u)
  rw [unifySignature]
  split
  · rcases hMatch : unifyEach match₁ ps qs b with ⟨accepted, middle⟩
    rw [hMatch] at hParams
    cases accepted with
    | false => exact hParams
    | true => exact hParams.trans (h t u middle (fullHeight_ret_lt r qs u))
  · exact .refl b

theorem extends_matchExactlyWithin (hr : r.Reached) :
    ∀ (steps : Nat) (declared : Ty) {actual : Ty} (b : Bindings), r.fullHeight actual < maxDepth →
      r.Extends b (r.matchExactlyWithin steps declared actual b).2 := by
  intro steps
  induction steps with
  | zero => exact fun _ _ b _ => .refl b
  | succ steps ih =>
      intro declared actual b hLow
      unfold matchExactlyWithin
      split
      · exact extends_widenVar hr _ b hLow
      · rw [fullHeight_list] at hLow
        exact ih _ b (by omega)
      · exact extends_unifySignature (fun d a b ha => ih d b (by omega)) _ _ b
      · exact .refl b

/-- **Whether it succeeds or fails, a match only widens what variables stand
for**, and within their bounds. -/
theorem extends_unifyWithin (hr : r.Reached) :
    ∀ (steps : Nat) (declared : Ty) {actual : Ty} (b : Bindings), r.fullHeight actual < maxDepth →
      r.Extends b (r.unifyWithin steps declared actual b).2 := by
  intro steps
  induction steps with
  | zero =>
      intro declared actual b _
      unfold unifyWithin
      split <;> exact .refl b
  | succ steps ih =>
      intro declared actual b hLow
      unfold unifyWithin
      split
      · exact .refl b
      · split
        · exact .refl b
        · rename_i hSteps
          cases hSteps
          split
          · exact extends_widenVar hr _ b hLow
          · rw [fullHeight_list] at hLow
            exact ih _ b (by omega)
          · exact .refl b
          · exact .refl b
          · exact .refl b
          · exact extends_unifySignature
              (fun d a b ha => extends_matchExactlyWithin hr _ d b (by omega)) _ _ b
          · split
            · exact .refl b
            · split
              · rename_i hParent
                rw [hr.fullHeight_named hParent] at hLow
                exact ih _ b (by omega)
              · exact .refl b
          · exact .refl b
          · exact .refl b

/-! ## What a match accepts -/

mutual

/-- Bindings do nothing to a type without variables. -/
theorem apply_of_hasVars_eq_false (b : Bindings) : ∀ {t : Ty}, t.hasVars = false → b.apply t = t
  | .named _, _ => rfl
  | .func, _ => rfl
  | .list elem, h => congrArg Ty.list (apply_of_hasVars_eq_false b (t := elem) h)
  | .arrow params ret, h => by
    rw [hasVars, Bool.or_eq_false_iff] at h
    rw [Bindings.apply, applyAll_of_anyVars_eq_false b h.1, apply_of_hasVars_eq_false b h.2]

theorem applyAll_of_anyVars_eq_false (b : Bindings) :
    ∀ {ts : List Ty}, anyVars ts = false → b.applyAll ts = ts
  | [], _ => rfl
  | t :: ts, h => by
    rw [anyVars, Bool.or_eq_false_iff] at h
    rw [Bindings.applyAll, apply_of_hasVars_eq_false b h.1, applyAll_of_anyVars_eq_false b h.2]

end

private theorem eq_of_demandsEach {f : Ty → Ty → Option Demands}
    (h : ∀ {d a ds}, d.hasVars = false → f d a = some ds → d = a) :
    ∀ {ps qs : List Ty} {ds : Demands}, anyVars ps = false → demandsEach f ps qs = some ds → ps = qs
  | [], [], _, _, _ => rfl
  | [], _ :: _, _, _, hDemands => nomatch hDemands
  | _ :: _, [], _, _, hDemands => nomatch hDemands
  | p :: ps, q :: qs, _, hVars, hDemands => by
    rw [anyVars, Bool.or_eq_false_iff] at hVars
    obtain ⟨_, _, hFirst, hOthers, -⟩ := bothDemands_eq_some hDemands
    rw [h hVars.1 hFirst, eq_of_demandsEach h hVars.2 hOthers]

private theorem eq_of_signatureDemands {f : Ty → Ty → Option Demands}
    (h : ∀ {d a ds}, d.hasVars = false → f d a = some ds → d = a) {ps qs : List Ty} {t u : Ty}
    {ds : Demands} (hVars : (anyVars ps || hasVars t) = false)
    (hDemands : signatureDemands f ps t qs u = some ds) : Ty.arrow ps t = .arrow qs u := by
  rw [Bool.or_eq_false_iff] at hVars
  unfold signatureDemands at hDemands
  split at hDemands
  · obtain ⟨_, _, hParams, hRet, -⟩ := bothDemands_eq_some hDemands
    rw [eq_of_demandsEach h hVars.1 hParams, h hVars.2 hRet]
  · cases hDemands

/-- Inside function types, a type without variables only agrees with itself. -/
theorem eq_of_exactDemandsWithin :
    ∀ (steps : Nat) {declared actual : Ty} {ds : Demands}, declared.hasVars = false →
      exactDemandsWithin steps declared actual = some ds → declared = actual := by
  intro steps
  induction steps with
  | zero => exact fun _ h => nomatch h
  | succ steps ih =>
      intro declared actual ds hVars h
      unfold exactDemandsWithin at h
      split at h
      · cases hVars
      · exact congrArg Ty.list (ih hVars h)
      · exact eq_of_signatureDemands ih hVars h
      · split at h
        · assumption
        · cases h

/-- Every demand is met: its variable stands for something that the type asked
for is below. -/
def Meets (r : Registry) (b : Bindings) (ds : Demands) : Prop :=
  ∀ demand ∈ ds, ∃ u, b.get? demand.1 = some u ∧ Below r demand.2 u

theorem Meets.grows {b b' : Bindings} {ds : Demands} (h : r.Meets b ds) (hGrows : r.Grows b b') :
    r.Meets b' ds := by
  intro demand hMem
  obtain ⟨u, hGet, hBelow⟩ := h demand hMem
  obtain ⟨u', hGet', hWidens⟩ := hGrows demand.1 u hGet
  exact ⟨u', hGet', hWidens demand.2 hBelow⟩

/-- A variable that has accepted a type stands for something above it. -/
theorem meets_of_widenVar {name : String} {t : Ty} {b b' : Bindings}
    (h : r.widenVar name t b = (true, b')) : r.Meets b' [(name, t)] := by
  have hMeets := ((widenVar_eq_true_iff r name t b b').mp h).2
  have hBound : ∃ u, b'.get? name = some u ∧ Below r t u := by
    cases hGet : b.get? name with
    | none =>
        rw [hGet] at hMeets
        refine ⟨t, ?_, .refl t⟩
        rw [hMeets, Dict.get?_insert, if_pos rfl]
    | some earlier =>
        simp only [hGet] at hMeets
        rw [hMeets.2]
        split
        · rename_i hLe
          exact ⟨earlier, hGet, below_of_leWithin hLe⟩
        · refine ⟨t, ?_, .refl t⟩
          rw [Dict.get?_insert, if_pos rfl]
  intro demand hMem
  rw [List.mem_singleton.mp hMem]
  exact hBound

/-- Where the shapes agree and the demands are met, the actual type is below the
declared one. -/
theorem below_apply_of_demandsWithin {b : Bindings} :
    ∀ (steps : Nat) {declared actual : Ty} {ds : Demands}, declared.hasSignatureVars = false →
      r.demandsWithin steps declared actual = some ds → r.Meets b ds →
      Below r actual (b.apply declared) := by
  intro steps
  induction steps with
  | zero =>
      intro declared actual ds _ h _
      rw [demandsWithin] at h
      split at h
      · rename_i hAny
        rw [eq_any_of_isAny hAny]
        exact .top actual
      · cases h
  | succ steps ih =>
      intro declared actual ds hVars h hMeets
      unfold demandsWithin at h
      by_cases hAny : declared.isAny = true
      · rw [eq_any_of_isAny hAny]
        exact .top actual
      · rw [if_neg hAny] at h
        split at h
        · cases h
          obtain ⟨u, hGet, hBelow⟩ := hMeets _ List.mem_cons_self
          rw [Bindings.apply, hGet]
          exact hBelow
        · exact .list (ih hVars h hMeets)
        · exact .refl _
        · exact .arrowFunc _ _
        · exact .funcArrow _ _
        · rename_i ps t qs u
          have hApply : b.apply (.arrow ps t) = .arrow ps t := apply_of_hasVars_eq_false b hVars
          rw [hApply, eq_of_signatureDemands (eq_of_exactDemandsWithin steps) hVars h]
          exact .refl _
        · split at h
          · rename_i hNamed
            obtain ⟨hNamed, hLe⟩ := Bool.and_eq_true _ _ |>.mp hNamed
            cases declared with
            | named other => exact below_of_leWithin hLe
            | _ => cases hNamed
          · split at h
            · rename_i hParent
              exact .parent hParent (ih hVars h hMeets)
            · cases h
        · split at h
          · rename_i hLe
            exact below_of_leWithin hLe
          · cases h
        · cases h

/-- **What a match accepts is below the declared type**, as the bindings leave it
and as any wider ones do. -/
theorem below_apply_of_unify {declared actual : Ty} {b b' b'' : Bindings}
    (hVars : declared.hasSignatureVars = false) (h : r.unify declared actual b = (true, b'))
    (hGrows : r.Grows b' b'') : Below r actual (b''.apply declared) := by
  obtain ⟨ds, hDemands, hWiden⟩ := (factors_unifyWithin r maxDepth declared actual b b').mp h
  have hMeets : r.Meets b' ds := by
    match ds, length_demandsWithin_le r maxDepth hVars hDemands with
    | [], _ => exact fun _ hMem => nomatch hMem
    | [(name, t)], _ => exact meets_of_widenVar ((widenAll_single r name t b b').mp hWiden)
  exact below_apply_of_demandsWithin maxDepth hVars hDemands (hMeets.grows hGrows)

theorem hasSignatureVars_of_hasVars : ∀ {t : Ty}, t.hasVars = false → t.hasSignatureVars = false
  | .var _, _ => rfl
  | .named _, _ => rfl
  | .func, _ => rfl
  | .list elem, h => hasSignatureVars_of_hasVars (t := elem) h
  | .arrow _ _, h => h

/-- Without variables, matching a type is going up to it. -/
theorem below_of_unify {declared actual : Ty} {b : Bindings} (hClosed : declared.hasVars = false)
    (h : (r.unify declared actual b).1 = true) : Below r actual declared := by
  have hUnify : r.unify declared actual b = (true, (r.unify declared actual b).2) :=
    Prod.ext h rfl
  have hBelow := below_apply_of_unify (hasSignatureVars_of_hasVars hClosed) hUnify (.refl _)
  rw [apply_of_hasVars_eq_false _ hClosed] at hBelow
  exact hBelow

mutual

/-- Inside function types, a type without variables matches itself. -/
theorem matchExactlyWithin_self (r : Registry) :
    ∀ (t : Ty) {steps : Nat} (b : Bindings), t.hasVars = false → r.fullHeight t < steps →
      r.matchExactlyWithin steps t t b = (true, b)
  | .named name, steps + 1, b, _, _ => by simp [matchExactlyWithin]
  | .func, steps + 1, b, _, _ => by simp [matchExactlyWithin]
  | .list elem, steps + 1, b, hVars, hHigh => by
    rw [fullHeight_list] at hHigh
    exact matchExactlyWithin_self r elem b hVars (by omega)
  | .arrow params ret, steps + 1, b, hVars, hHigh => by
    rw [hasVars, Bool.or_eq_false_iff] at hVars
    have hRet := fullHeight_ret_lt r params ret
    have hParams : ∀ t ∈ params, r.fullHeight t < steps := by
      intro t ht
      have hLt := fullHeight_lt_of_mem r ht ret
      omega
    rw [matchExactlyWithin, unifySignature, if_pos rfl, unifyEach_self r params b hVars.1 hParams]
    exact matchExactlyWithin_self r ret b hVars.2 (by omega)

theorem unifyEach_self (r : Registry) :
    ∀ (ts : List Ty) {steps : Nat} (b : Bindings), anyVars ts = false →
      (∀ t ∈ ts, r.fullHeight t < steps) →
      unifyEach (r.matchExactlyWithin steps) ts ts b = (true, b)
  | [], _, _, _, _ => rfl
  | t :: ts, steps, b, hVars, hHigh => by
    rw [anyVars, Bool.or_eq_false_iff] at hVars
    rw [List.forall_mem_cons] at hHigh
    rw [unifyEach, matchExactlyWithin_self r t b hVars.1 hHigh.1]
    exact unifyEach_self r ts b hVars.2 hHigh.2

end

/-- A type without variables matches itself. -/
theorem unifyWithin_self (r : Registry) (b : Bindings) :
    ∀ (t : Ty) {steps : Nat}, t.hasVars = false → r.fullHeight t < steps →
      (r.unifyWithin steps t t b).1 = true
  | .named name, steps + 1, _, _ => by simp [unifyWithin, isNamed, le_self]
  | .func, steps + 1, _, _ => rfl
  | .list elem, steps + 1, hVars, hHigh => by
    rw [fullHeight_list] at hHigh
    exact unifyWithin_self r b elem hVars (by omega)
  | .arrow params ret, steps + 1, hVars, hHigh =>
    congrArg Prod.fst (matchExactlyWithin_self r (.arrow params ret) b hVars hHigh)

/-- What is below a type without variables matches it, if it is not too high. -/
theorem unifyWithin_of_below (hr : r.Reached) {a d : Ty} (h : Below r a d) :
    ∀ {steps : Nat} (b : Bindings), d.hasVars = false → r.fullHeight a < steps →
      (r.unifyWithin steps d a b).1 = true := by
  induction h with
  | refl t => exact fun b => unifyWithin_self r b t
  | top t =>
      intro steps b _ _
      unfold unifyWithin
      rfl
  | list _ ih =>
      intro steps b hVars hHigh
      obtain ⟨steps, rfl⟩ : ∃ n, steps = n + 1 := ⟨steps - 1, by omega⟩
      rw [fullHeight_list] at hHigh
      exact ih b hVars (by omega)
  | funcArrow params ret =>
      intro steps b _ hHigh
      obtain ⟨steps, rfl⟩ : ∃ n, steps = n + 1 := ⟨steps - 1, by omega⟩
      rfl
  | arrowFunc params ret =>
      intro steps b _ hHigh
      obtain ⟨steps, rfl⟩ : ∃ n, steps = n + 1 := ⟨steps - 1, by omega⟩
      rfl
  | @parent name parent d hParent _ ih =>
      intro steps b hVars hHigh
      obtain ⟨steps, rfl⟩ : ∃ n, steps = n + 1 := ⟨steps - 1, by omega⟩
      rw [hr.fullHeight_named hParent] at hHigh
      have hUp := ih b hVars (by omega : r.fullHeight parent < steps)
      unfold unifyWithin
      split
      · rfl
      · cases d with
        | var name => cases hVars
        | _ =>
          simp only [hParent]
          split
          · rfl
          · exact hUp

/-- **Without variables, matching a type is going up to it**, if one does not have to go too
far. -/
theorem unify_eq_true_iff_below (hr : r.Reached) {declared actual : Ty} {b : Bindings}
    (hClosed : declared.hasVars = false) (hLow : r.fullHeight actual < maxDepth) :
    (r.unify declared actual b).1 = true ↔ Below r actual declared :=
  ⟨below_of_unify hClosed, fun h => unifyWithin_of_below hr h b hClosed hLow⟩

/-! ## Matches in turn -/

/-- The bindings after pairs of a declared and an actual type are unified in
turn, whether that succeeds or fails. -/
def unifyInTurn (r : Registry) : List (Ty × Ty) → Bindings → Bindings
  | [], b => b
  | pair :: pairs, b => unifyInTurn r pairs (r.unify pair.1 pair.2 b).2

/-- Whether all pairs unify, in turn. -/
def allUnify (r : Registry) : List (Ty × Ty) → Bindings → Bool
  | [], _ => true
  | pair :: pairs, b =>
    (r.unify pair.1 pair.2 b).1 && allUnify r pairs (r.unify pair.1 pair.2 b).2

/-- No actual type is higher than a match follows. -/
def AllLow (r : Registry) (pairs : List (Ty × Ty)) : Prop :=
  ∀ pair ∈ pairs, r.fullHeight pair.2 < maxDepth

theorem extends_unifyInTurn (hr : r.Reached) {pairs : List (Ty × Ty)} {b : Bindings}
    (hLow : r.AllLow pairs) : r.Extends b (r.unifyInTurn pairs b) := by
  induction pairs generalizing b with
  | nil => exact .refl b
  | cons pair pairs ih =>
      have hFirst := extends_unifyWithin hr maxDepth pair.1 b (hLow pair List.mem_cons_self)
      exact hFirst.trans (ih fun other hMem => hLow other (List.mem_cons_of_mem _ hMem))

/-- What all pairs unify to is above their actual types. -/
theorem below_apply_of_allUnify (hr : r.Reached) {pairs : List (Ty × Ty)} {b : Bindings}
    (hLow : r.AllLow pairs) (hWithin : r.Within b)
    (hVars : ∀ pair ∈ pairs, pair.1.hasSignatureVars = false) (h : r.allUnify pairs b = true) :
    ∀ pair ∈ pairs, Below r pair.2 ((r.unifyInTurn pairs b).apply pair.1) := by
  induction pairs generalizing b with
  | nil => exact fun _ hMem => nomatch hMem
  | cons first others ih =>
      rw [allUnify, Bool.and_eq_true] at h
      have hLowOthers : r.AllLow others :=
        fun other hMem => hLow other (List.mem_cons_of_mem _ hMem)
      have hMiddle : r.Within (r.unify first.1 first.2 b).2 :=
        (extends_unifyWithin hr maxDepth first.1 b (hLow first List.mem_cons_self) hWithin).1
      intro pair hMem
      rcases List.mem_cons.mp hMem with rfl | hMem
      · exact below_apply_of_unify (hVars _ List.mem_cons_self) (Prod.ext h.1 rfl)
          (extends_unifyInTurn hr hLowOthers hMiddle).2
      · exact ih hLowOthers hMiddle (fun other hOther => hVars other (List.mem_cons_of_mem _ hOther))
          h.2 pair hMem

/-- **Unification is sound over a whole match.**  Unify declared types with
actual ones in turn, from no bindings, where no actual type is higher than a
match follows.  If no declared type has a variable in a signature and all pairs
unify, each actual type is acceptable for its declared type as the last bindings
leave it.  And whatever the declared types are and whether or not pairs unify,
each pair only widens what variables stand for, unbinds none, and leaves each
within its declared bound. -/
theorem unification_sound (hr : r.Reached) (pairs : List (Ty × Ty)) (hLow : r.AllLow pairs) :
    ((∀ pair ∈ pairs, pair.1.hasSignatureVars = false) → r.allUnify pairs Dict.empty = true →
        ∀ pair ∈ pairs, r.le pair.2 ((r.unifyInTurn pairs Dict.empty).apply pair.1) = true) ∧
      ∀ before pair after, pairs = before ++ pair :: after →
        ∀ b b', b = r.unifyInTurn before Dict.empty → b' = (r.unify pair.1 pair.2 b).2 →
          (∀ name t, b.get? name = some t →
            ∃ t', b'.get? name = some t' ∧ r.le t t' = true) ∧
          ∀ name t bound, b'.get? name = some t → r.bound? name = some bound →
            r.le t bound = true := by
  have hLe : ∀ {t u : Ty}, r.fullHeight t < maxDepth → Below r t u → r.le t u = true :=
    fun hHeight => (le_eq_true_iff_below hr
      (Nat.lt_of_le_of_lt (r.height_le_fullHeight _) hHeight)).mpr
  constructor
  · intro hVars hAll pair hMem
    exact hLe (hLow pair hMem) (below_apply_of_allUnify hr hLow within_empty hVars hAll pair hMem)
  · rintro before pair after rfl b b' rfl rfl
    have hBefore : r.Within (r.unifyInTurn before Dict.empty) :=
      (extends_unifyInTurn hr (fun other hMem => hLow other (List.mem_append_left _ hMem))
        within_empty).1
    obtain ⟨hAfter, hGrows⟩ := extends_unifyWithin hr maxDepth pair.1
      (r.unifyInTurn before Dict.empty)
      (hLow pair (List.mem_append_right _ List.mem_cons_self)) hBefore
    constructor
    · intro name t hGet
      obtain ⟨t', hGet', hWidens⟩ := hGrows name t hGet
      exact ⟨t', hGet', hLe (hBefore.low name t hGet) hWidens.below⟩
    · exact fun name t bound hGet hBound => hAfter.admitted name t hGet bound hBound

/-- A variable that first stands for `metre` and then, since a list of numbers is
met as well, for `int`. -/
def widening : List (Ty × Ty) :=
  [(.var "a", .named "metre"), (.list (.var "a"), .list int), (.list (.var "a"), .named "lengths")]

/-- All three unify, and `metre`, accepted first, is below what the variable
stands for last. -/
theorem unification_sound_of_widening :
    lengths.AllLow widening ∧ lengths.allUnify widening Dict.empty = true ∧
      (lengths.unifyInTurn widening Dict.empty).get? "a" = some int ∧
      ∀ pair ∈ widening,
        lengths.le pair.2 ((lengths.unifyInTurn widening Dict.empty).apply pair.1) = true :=
  have hLow : lengths.AllLow widening := by
    unfold AllLow
    decide
  have hUnify : lengths.allUnify widening Dict.empty = true := by decide
  ⟨hLow, hUnify, by decide,
    (unification_sound reached_lengths widening hLow).1 (by decide) hUnify⟩

end ClauseLisp.Ty.Registry
