import ClauseLisp.Proofs.Types.Walks

/-!
# Declarations to come

Types are found at one time and compared at another, when more may have been
declared.  A declaration only gives a meaning to a name that had none.  So a type
that resolves goes on resolving to the same type, and comparing, joining and
matching types give the same answers for good, since all that they look up is
what names mean that are taken: a parent only mentions names that were taken
before its child, and a bound is only read.

## Main results

* `Registry.Declares.resolve` — what a type resolves to, it resolves to for good.
* `Registry.Declares.leWithin`, `Registry.Declares.join` — the order of known types
  and their joins do not change.
* `Registry.Declares.unify` — neither do matches and the bindings they end with.
-/

namespace ClauseLisp.Ty.Registry

variable {r r' : Registry}

/-! ## What a name means -/

namespace Declares

/-- **A name that is taken keeps its bound**, and goes on having none. -/
theorem bounds (h : r.Declares r') {name : String} (hTaken : r.isTaken name = true) :
    r'.bounds.get? name = r.bounds.get? name := by
  induction h with
  | refl => rfl
  | declare _ hDeclare ih =>
      obtain ⟨-, resolved, -, -, rfl⟩ := declare_ok hDeclare
      exact ih
  | @declareVariable _ _ other _ hBefore hDeclare ih =>
      obtain ⟨hFree, resolved, -, rfl⟩ := declareVariable_ok hDeclare
      have hOther : other ≠ name := by
        rintro rfl
        rw [hBefore.isTaken hTaken] at hFree
        cases hFree
      exact (Dict.get?_insert _ _ _ _).trans ((if_neg hOther).trans ih)

theorem bound? (h : r.Declares r') {name : String} (hTaken : r.isTaken name = true) :
    r'.bound? name = r.bound? name := congrArg Option.join (h.bounds hTaken)

theorem resolveName (h : r.Declares r') {name : String} {t : Ty}
    (hName : r.resolveName name = .ok t) : r'.resolveName name = .ok t := by
  have hTaken := isTaken_of_resolveName hName
  have hVariable : r'.isVariable name = r.isVariable name := by
    rw [isVariable, isVariable, Dict.contains, Dict.contains, h.bounds hTaken]
  have hDeclared : r'.isDeclared name = r.isDeclared name :=
    congrArg Option.isSome (h.parent? hTaken)
  rw [Registry.resolveName, hVariable, hDeclared]
  exact hName

end Declares

mutual

/-- **What a type resolves to, it resolves to for good.** -/
theorem Declares.resolve (h : r.Declares r') :
    ∀ {t u : Ty}, r.resolve t = .ok u → r'.resolve t = .ok u
  | .named _, _, hOk => h.resolveName hOk
  | .var _, _, hOk => hOk
  | .func, _, hOk => hOk
  | .list elem, _, hOk => by
    obtain ⟨elem', hElem, rfl⟩ := resolve_list_ok hOk
    rw [Registry.resolve, Declares.resolve h hElem]
  | .arrow params ret, _, hOk => by
    obtain ⟨params', ret', hParams, hRet, rfl⟩ := resolve_arrow_ok hOk
    rw [Registry.resolve, Declares.resolveAll h hParams, Declares.resolve h hRet]

theorem Declares.resolveAll (h : r.Declares r') :
    ∀ {ts us : List Ty}, r.resolveAll ts = .ok us → r'.resolveAll ts = .ok us
  | [], _, hOk => hOk
  | t :: ts, _, hOk => by
    obtain ⟨u, us, hFirst, hOthers, rfl⟩ := resolveAll_cons_ok hOk
    rw [Registry.resolveAll, Declares.resolve h hFirst, Declares.resolveAll h hOthers]

end

/-! ## The order and joins -/

/-- **The order above a known type does not change**, however far it is followed. -/
theorem Declares.leWithin (h : r.Declares r') (hr : r.Reached) :
    ∀ (steps : Nat) {a : Ty} (b : Ty), r.knows a = true →
      r'.leWithin steps a b = r.leWithin steps a b := by
  intro steps
  induction steps with
  | zero =>
      intro a b _
      unfold Registry.leWithin
      rfl
  | succ steps ih =>
      intro a b hKnown
      unfold Registry.leWithin
      split
      · rfl
      · cases a with
        | named name =>
            have hSame : r'.parent? name = r.parent? name := h.parent? hKnown
            simp only [hSame]
            cases hParent : r.parent? name with
            | none => rfl
            | some parent => exact ih b (knows_of_parent? hr hParent)
        | list x =>
            cases b with
            | list y => exact ih y hKnown
            | _ => rfl
        | func => cases b <;> rfl
        | arrow params ret => cases b <;> rfl
        | var name => rfl

theorem Declares.le (h : r.Declares r') (hr : r.Reached) {a : Ty} (b : Ty)
    (hKnown : r.knows a = true) : r'.le a b = r.le a b :=
  h.leWithin hr maxDepth b hKnown

/-- Joins of known types do not change, if they end in the same number of steps. -/
theorem Declares.joinWithin (h : r.Declares r') (hr : r.Reached) :
    ∀ (steps : Nat) {a b : Ty}, r.knows a = true → r.knows b = true →
      r'.joinWithin steps a b = r.joinWithin steps a b := by
  intro steps
  induction steps with
  | zero =>
      intro a b hA hB
      unfold Registry.joinWithin
      rw [h.le hr b hA, h.le hr a hB]
  | succ steps ih =>
      intro a b hA hB
      unfold Registry.joinWithin
      rw [h.le hr b hA, h.le hr a hB]
      split
      · rfl
      · split
        · rfl
        · cases a with
          | named name =>
              have hSame : r'.parent? name = r.parent? name := h.parent? hA
              simp only [hSame]
              cases hParent : r.parent? name with
              | none => rfl
              | some parent => exact ih (knows_of_parent? hr hParent) hB
          | list x =>
              cases b with
              | list y => exact congrArg Ty.list (ih hA hB)
              | _ => rfl
          | func => cases b <;> rfl
          | arrow params ret => cases b <;> rfl
          | var name => rfl

/-- **Joins of known types do not change.** -/
theorem Declares.join (h : r.Declares r') (hr : r.Reached) {a b : Ty} (hA : r.knows a = true)
    (hB : r.knows b = true) : r'.join a b = r.join a b := by
  -- A later registry gives the join more steps, which it does not use.
  have hHigh : r.height a < max (r.steps a) (r'.steps a) :=
    Nat.lt_of_lt_of_le (r.height_lt_steps a) (Nat.le_max_left _ _)
  have hHigh' : r'.height a < max (r.steps a) (r'.steps a) :=
    Nat.lt_of_lt_of_le (r'.height_lt_steps a) (Nat.le_max_right _ _)
  rw [← joinWithin_eq_join hr hHigh, ← joinWithin_eq_join (h.reached hr) hHigh']
  exact h.joinWithin hr _ hA hB

/-! ## Matches -/

/-- Bindings to known types. -/
def KnowsBound (r : Registry) (b : Bindings) : Prop :=
  ∀ name t, b.get? name = some t → r.knows t = true

theorem knowsBound_empty : r.KnowsBound Dict.empty := fun _ _ h => nomatch h

theorem KnowsBound.insert {b : Bindings} (h : r.KnowsBound b) (name : String) {t : Ty}
    (ht : r.knows t = true) : r.KnowsBound (b.insert name t) := by
  intro other u hGet
  rw [Dict.get?_insert] at hGet
  split at hGet
  · cases hGet
    exact ht
  · exact h other u hGet

/-- Two matches end alike, with bindings to known types. -/
def SameEnd (r : Registry) (end₁ end₂ : Bool × Bindings) : Prop := end₁ = end₂ ∧ r.KnowsBound end₂.2

theorem sameEnd_widenVar (h : r.Declares r') (hr : r.Reached) {name : String}
    (hName : r.isTaken name = true) {actual : Ty} (hActual : r.knows actual = true) {b : Bindings}
    (hBound : r.KnowsBound b) :
    r.SameEnd (r'.widenVar name actual b) (r.widenVar name actual b) := by
  have hActualLe : ∀ t, r'.le actual t = r.le actual t := fun t => h.le hr t hActual
  constructor
  · cases hGet : b.get? name with
    | none => simp only [widenVar, h.bound? hName, hActualLe, hGet]
    | some earlier =>
        have hEarlierLe := h.le hr actual (hBound name earlier hGet)
        simp only [widenVar, h.bound? hName, hActualLe, hGet, hEarlierLe]
  · have hEnd : (r.widenVar name actual b).2 = b ∨
        (r.widenVar name actual b).2 = b.insert name actual := by
      unfold widenVar
      grind
    rcases hEnd with hEnd | hEnd
    · rw [hEnd]
      exact hBound
    · rw [hEnd]
      exact hBound.insert name hActual

/-- Two ways to match a type end alike on known types. -/
def SameMatch (r : Registry) (match₁ match₂ : Ty → Ty → Bindings → Bool × Bindings) : Prop :=
  ∀ {d a b}, r.Settled d → r.knows a = true → r.KnowsBound b →
    r.SameEnd (match₁ d a b) (match₂ d a b)

variable {match₁ match₂ : Ty → Ty → Bindings → Bool × Bindings}

theorem SameMatch.each (h : r.SameMatch match₁ match₂) :
    ∀ {ds as : List Ty} {b : Bindings}, (∀ d ∈ ds, r.Settled d) → (∀ a ∈ as, r.knows a = true) →
      r.KnowsBound b → r.SameEnd (unifyEach match₁ ds as b) (unifyEach match₂ ds as b)
  | [], [], _, _, _, hBound => ⟨rfl, hBound⟩
  | [], _ :: _, _, _, _, hBound => ⟨rfl, hBound⟩
  | _ :: _, [], _, _, _, hBound => ⟨rfl, hBound⟩
  | d :: ds, a :: as, b, hSettled, hKnown, hBound => by
    rw [List.forall_mem_cons] at hSettled hKnown
    obtain ⟨hSame, hMiddle⟩ := h hSettled.1 hKnown.1 hBound
    rw [unifyEach, unifyEach, hSame]
    rcases hMatch : match₂ d a b with ⟨accepted, middle⟩
    rw [hMatch] at hMiddle
    cases accepted with
    | false => exact ⟨rfl, hMiddle⟩
    | true => exact SameMatch.each h hSettled.2 hKnown.2 hMiddle

theorem SameMatch.signature (h : r.SameMatch match₁ match₂) {ps qs : List Ty} {t u : Ty}
    {b : Bindings} (hSettled : r.Settled (.arrow ps t)) (hKnown : r.knows (.arrow qs u) = true)
    (hBound : r.KnowsBound b) :
    r.SameEnd (unifySignature match₁ ps t qs u b) (unifySignature match₂ ps t qs u b) := by
  obtain ⟨hParams, hRet⟩ := hSettled.arrow
  obtain ⟨hParams', hRet'⟩ := knows_arrow.mp hKnown
  obtain ⟨hSame, hMiddle⟩ := SameMatch.each h hParams hParams' hBound
  rw [unifySignature, unifySignature, hSame]
  split
  · rcases hMatch : unifyEach match₂ ps qs b with ⟨accepted, middle⟩
    rw [hMatch] at hMiddle
    cases accepted with
    | false => exact ⟨rfl, hMiddle⟩
    | true => exact h hRet hRet' hMiddle
  · exact ⟨rfl, hBound⟩

theorem sameMatch_exactly (h : r.Declares r') (hr : r.Reached) :
    ∀ steps : Nat, r.SameMatch (r'.matchExactlyWithin steps) (r.matchExactlyWithin steps) := by
  intro steps
  induction steps with
  | zero => exact fun _ _ hBound => ⟨rfl, hBound⟩
  | succ steps ih =>
      intro declared actual b hSettled hKnown hBound
      unfold matchExactlyWithin
      split
      · exact sameEnd_widenVar h hr (hSettled _ List.mem_cons_self) hKnown hBound
      · exact ih hSettled hKnown hBound
      · exact ih.signature hSettled hKnown hBound
      · exact ⟨rfl, hBound⟩

/-- **Matches of known types do not change**, and the bindings they end with do not. -/
theorem sameMatch_unifyWithin (h : r.Declares r') (hr : r.Reached) :
    ∀ steps : Nat, r.SameMatch (r'.unifyWithin steps) (r.unifyWithin steps) := by
  intro steps
  induction steps with
  | zero =>
      intro declared actual b _ _ hBound
      unfold unifyWithin
      split <;> exact ⟨rfl, hBound⟩
  | succ steps ih =>
      intro declared actual b hSettled hKnown hBound
      have hLe : ∀ t, r'.le actual t = r.le actual t := fun t => h.le hr t hKnown
      unfold unifyWithin
      split
      · exact ⟨rfl, hBound⟩
      · split
        · rename_i hSteps
          cases hSteps
        · rename_i hSteps
          cases hSteps
          split
          · exact sameEnd_widenVar h hr (hSettled _ List.mem_cons_self) hKnown hBound
          · exact ih hSettled hKnown hBound
          · exact ⟨rfl, hBound⟩
          · exact ⟨rfl, hBound⟩
          · exact ⟨rfl, hBound⟩
          · exact SameMatch.signature (sameMatch_exactly h hr steps) hSettled hKnown hBound
          · rename_i name _
            have hSame : r'.parent? name = r.parent? name := h.parent? hKnown
            rw [hLe, hSame]
            split
            · exact ⟨rfl, hBound⟩
            · split
              · rename_i hParent
                exact ih hSettled (knows_of_parent? hr hParent) hBound
              · exact ⟨rfl, hBound⟩
          · rw [hLe]
            exact ⟨rfl, hBound⟩
          · exact ⟨rfl, hBound⟩

/-! ## Declarations are conservative -/

/-- What annotations come to: written types have no variables, resolved ones may. -/
def Annotates (r : Registry) (t : Ty) : Prop :=
  ∃ written, written.hasVars = false ∧ r.resolve written = .ok t

theorem Annotates.settled {t : Ty} (h : r.Annotates t) : r.Settled t := by
  obtain ⟨written, hVars, hResolve⟩ := h
  intro name hName
  rw [names_of_resolve hResolve] at hName
  exact settled_of_resolve hVars hResolve name hName

theorem Annotates.knows {t : Ty} (h : r.Annotates t) : r.knows t = true := by
  obtain ⟨written, -, hResolve⟩ := h
  exact knows_of_resolve hResolve

end ClauseLisp.Ty.Registry
