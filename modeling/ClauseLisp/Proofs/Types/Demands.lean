import ClauseLisp.Proofs.Types.PartialOrder

/-!
# What a match asks of variables

Matching an actual type against a declared one does two things.  It compares the
shapes of the two, which has nothing to do with what is bound so far; and
wherever the declared type has a variable, it asks the variable to stand for the
actual type found there.  The two can be told apart: the comparison gives a list
of demands, and the match succeeds if these can be met one after the other.

## Main results

* `Registry.factors_unifyWithin` — a match succeeds exactly if the shapes agree
  and the demands can be met.
* `Registry.demandsWithin_succ` — the demands do not depend on the number of
  steps, if the actual type is not too high.
* `Registry.widenAll_of_comparable` — demands can be met in any selection, if the
  types asked of one variable are comparable.
-/

namespace ClauseLisp.Ty

/-- Variables, each with a type that it has to stand for as well. -/
abbrev Demands := List (String × Ty)

/-- Whether a variable occurs in a type inside the signature of a function. -/
def hasSignatureVars : Ty → Bool
  | .list elem => hasSignatureVars elem
  | .arrow params ret => anyVars params || hasVars ret
  | _ => false

namespace Registry

/-- Meet demands one after the other, up to the first that cannot be met. -/
def widenAll (r : Registry) : Demands → Bindings → Bool × Bindings
  | [], b => (true, b)
  | demand :: demands, b =>
    match r.widenVar demand.1 demand.2 b with
    | (true, b) => widenAll r demands b
    | (false, b) => (false, b)

/-- The demands of two matches, if both have the right shape. -/
def bothDemands : Option Demands → Option Demands → Option Demands
  | some first, some others => some (first ++ others)
  | _, _ => none

/-- The demands of several matches, where `demands₁` gives those of one. -/
def demandsEach {α β : Type} (demands₁ : α → β → Option Demands) :
    List α → List β → Option Demands
  | d :: ds, a :: as => bothDemands (demands₁ d a) (demandsEach demands₁ ds as)
  | [], [] => some []
  | _, _ => none

/-- The demands of a signature, parameters first. -/
def signatureDemands (demands₁ : Ty → Ty → Option Demands) (params : List Ty) (ret : Ty)
    (params' : List Ty) (ret' : Ty) : Option Demands :=
  if params.length = params'.length then
    bothDemands (demandsEach demands₁ params params') (demands₁ ret ret')
  else none

/-- The demands of a match inside function types, if the shapes agree. -/
def exactDemandsWithin : Nat → Ty → Ty → Option Demands
  | 0, _, _ => none
  | steps + 1, declared, actual =>
    match declared, actual with
    | .var name, actual => some [(name, actual)]
    | .list d, .list a => exactDemandsWithin steps d a
    | .arrow ps t, .arrow qs u => signatureDemands (exactDemandsWithin steps) ps t qs u
    | declared, actual => if declared = actual then some [] else none

/-- The demands of a match, if the shapes agree, with so many steps left. -/
def demandsWithin (r : Registry) : Nat → Ty → Ty → Option Demands
  | 0, declared, _ => if declared.isAny then some [] else none
  | steps + 1, declared, actual =>
    if declared.isAny then some []
    else
      match declared, actual with
      | .var name, actual => some [(name, actual)]
      | .list d, .list a => demandsWithin r steps d a
      | .func, .func => some []
      | .func, .arrow _ _ => some []
      | .arrow _ _, .func => some []
      | .arrow ps t, .arrow qs u => signatureDemands (exactDemandsWithin steps) ps t qs u
      | declared, .named name =>
        if declared.isNamed && r.le (.named name) declared then some []
        else
          match r.parent? name with
          | some parent => demandsWithin r steps declared parent
          | none => none
      | .named name, actual => if r.le actual (.named name) then some [] else none
      | _, _ => none

/-- The demands of a match, if the shapes agree. -/
def demands (r : Registry) (declared actual : Ty) : Option Demands :=
  r.demandsWithin maxDepth declared actual

theorem bothDemands_eq_some {ds? es? : Option Demands} {all : Demands}
    (h : bothDemands ds? es? = some all) :
    ∃ ds es, ds? = some ds ∧ es? = some es ∧ all = ds ++ es := by
  cases ds? with
  | none => cases h
  | some ds =>
      cases es? with
      | none => cases h
      | some es => exact ⟨ds, es, rfl, rfl, (Option.some.inj h).symm⟩

theorem length_eq_of_demandsEach {α β : Type} {demands₁ : α → β → Option Demands} :
    ∀ {ds : List α} {as : List β} {all : Demands}, demandsEach demands₁ ds as = some all →
      ds.length = as.length
  | [], [], _, _ => rfl
  | [], _ :: _, _, h => nomatch h
  | _ :: _, [], _, h => nomatch h
  | d :: ds, a :: as, _, h => by
    obtain ⟨_, _, _, hOthers, _⟩ := bothDemands_eq_some h
    rw [List.length_cons, List.length_cons, length_eq_of_demandsEach hOthers]

/-! ## Meeting demands -/

theorem widenAll_append (r : Registry) (ds es : Demands) (b b' : Bindings) :
    r.widenAll (ds ++ es) b = (true, b') ↔
      ∃ middle, r.widenAll ds b = (true, middle) ∧ r.widenAll es middle = (true, b') := by
  induction ds generalizing b with
  | nil => simp [widenAll]
  | cons demand ds ih =>
      rw [List.cons_append, widenAll, widenAll]
      rcases r.widenVar demand.1 demand.2 b with ⟨accepted, after⟩
      cases accepted with
      | true => exact ih after
      | false => simp

/-- One demand is met by widening its variable. -/
theorem widenAll_single (r : Registry) (name : String) (t : Ty) (b b' : Bindings) :
    r.widenAll [(name, t)] b = (true, b') ↔ r.widenVar name t b = (true, b') := by
  rw [widenAll]
  rcases r.widenVar name t b with ⟨accepted, after⟩
  cases accepted <;> simp [widenAll]

/-- Something ends with the bindings that meeting some demands leads to, and it
does so exactly if these can be met. -/
def MetBy (r : Registry) (ends : Bindings → Prop) (ds? : Option Demands) (b : Bindings) : Prop :=
  ∀ b', ends b' ↔ ∃ ds, ds? = some ds ∧ r.widenAll ds b = (true, b')

/-- A result that is a success exactly if some demands can be met. -/
def FactorsAt (r : Registry) (result : Bool × Bindings) (ds? : Option Demands) (b : Bindings) :
    Prop :=
  r.MetBy (fun b' => result = (true, b')) ds? b

/-- A match that succeeds exactly if some demands can be met. -/
def Factors (r : Registry) (match₁ : Ty → Ty → Bindings → Bool × Bindings)
    (demands₁ : Ty → Ty → Option Demands) : Prop :=
  ∀ declared actual b, r.FactorsAt (match₁ declared actual b) (demands₁ declared actual) b

section

variable {r : Registry} {b : Bindings}

/-- One thing after another meets the demands of both. -/
theorem MetBy.both {ends : Bindings → Prop} {next : Bindings → Bindings → Prop}
    {ds? es? : Option Demands} (h : r.MetBy ends ds? b)
    (hNext : ∀ middle, r.MetBy (next middle) es? middle) :
    r.MetBy (fun b' => ∃ middle, ends middle ∧ next middle b') (bothDemands ds? es?) b := by
  intro b'
  constructor
  · rintro ⟨middle, hFirst, hRest⟩
    obtain ⟨ds, rfl, hWiden⟩ := (h middle).mp hFirst
    obtain ⟨es, rfl, hWiden'⟩ := (hNext middle b').mp hRest
    exact ⟨ds ++ es, rfl, (widenAll_append r ds es b b').mpr ⟨middle, hWiden, hWiden'⟩⟩
  · rintro ⟨all, hAll, hWiden⟩
    obtain ⟨ds, es, rfl, rfl, rfl⟩ := bothDemands_eq_some hAll
    obtain ⟨middle, hWiden, hWiden'⟩ := (widenAll_append r ds es b b').mp hWiden
    exact ⟨middle, (h middle).mpr ⟨ds, rfl, hWiden⟩, (hNext middle b').mpr ⟨es, rfl, hWiden'⟩⟩

namespace FactorsAt

/-- Where nothing is asked, nothing is bound. -/
theorem ok : r.FactorsAt (true, b) (some []) b := fun b' => by simp [widenAll]

theorem failed {after : Bindings} : r.FactorsAt (false, after) none b := fun b' => by simp

theorem decided (accepted : Bool) :
    r.FactorsAt (accepted, b) (if accepted then some [] else none) b := by
  cases accepted with
  | true => exact ok
  | false => exact failed

theorem single (name : String) (t : Ty) :
    r.FactorsAt (r.widenVar name t b) (some [(name, t)]) b := fun b' => by
  simp only [Option.some.injEq, exists_eq_left']
  exact (widenAll_single r name t b b').symm

/-- Two matches one after the other. -/
theorem both {result : Bool × Bindings} {next : Bindings → Bool × Bindings}
    {ds? es? : Option Demands} :
    r.FactorsAt result ds? b → (∀ middle, r.FactorsAt (next middle) es? middle) →
    r.FactorsAt
      (match result with
        | (true, middle) => next middle
        | (false, middle) => (false, middle))
      (bothDemands ds? es?) b := by
  intro h hNext b'
  refine Iff.trans ?_ (MetBy.both h hNext b')
  rcases result with ⟨accepted, after⟩
  cases accepted <;> simp

end FactorsAt

end

section

variable {r : Registry} {match₁ : Ty → Ty → Bindings → Bool × Bindings}
  {demands₁ : Ty → Ty → Option Demands}

theorem factors_unifyEach (h : r.Factors match₁ demands₁) :
    ∀ (ds as : List Ty) (b : Bindings),
      r.FactorsAt (unifyEach match₁ ds as b) (demandsEach demands₁ ds as) b
  | [], [], _ => .ok
  | [], _ :: _, _ => .failed
  | _ :: _, [], _ => .failed
  | d :: ds, a :: as, b => (h d a b).both (factors_unifyEach h ds as)

theorem factors_unifySignature (h : r.Factors match₁ demands₁) (ps : List Ty) (t : Ty)
    (qs : List Ty) (u : Ty) (b : Bindings) :
    r.FactorsAt (unifySignature match₁ ps t qs u b) (signatureDemands demands₁ ps t qs u) b := by
  rw [unifySignature, signatureDemands]
  split
  · exact (factors_unifyEach h ps qs b).both (h t u)
  · exact .failed

end

theorem factors_matchExactlyWithin (r : Registry) :
    ∀ steps : Nat, r.Factors (r.matchExactlyWithin steps) (exactDemandsWithin steps) := by
  intro steps
  induction steps with
  | zero => exact fun _ _ _ => .failed
  | succ steps ih =>
      intro declared actual b
      unfold matchExactlyWithin exactDemandsWithin
      split
      · exact .single _ _
      · exact ih _ _ b
      · exact factors_unifySignature ih _ _ _ _ b
      · have hDecided := FactorsAt.decided (r := r) (b := b) (declared = actual)
        simpa using hDecided

/-- Where the actual type is a name, every declared type but a variable goes on to its parent. -/
theorem factors_parent {r : Registry} {steps : Nat}
    (h : r.Factors (r.unifyWithin steps) (r.demandsWithin steps)) {b : Bindings} (declared : Ty)
    (name : String) :
    r.FactorsAt
      (if declared.isNamed && r.le (.named name) declared then (true, b)
        else
          match r.parent? name with
          | some parent => r.unifyWithin steps declared parent b
          | none => (false, b))
      (if declared.isNamed && r.le (.named name) declared then some []
        else
          match r.parent? name with
          | some parent => r.demandsWithin steps declared parent
          | none => none) b := by
  split
  · exact .ok
  · cases r.parent? name with
    | some parent => exact h declared parent b
    | none => exact .failed

/-- **A match succeeds exactly if the shapes agree and the demands can be met.** -/
theorem factors_unifyWithin (r : Registry) :
    ∀ steps : Nat, r.Factors (r.unifyWithin steps) (r.demandsWithin steps) := by
  intro steps
  induction steps with
  | zero =>
      intro declared actual b
      unfold unifyWithin demandsWithin
      split
      · exact .ok
      · exact .failed
  | succ steps ih =>
      intro declared actual b
      unfold unifyWithin demandsWithin
      split
      · exact .ok
      · cases declared with
        | var name => exact .single name actual
        | named name =>
            cases actual with
            | named other => exact factors_parent ih (.named name) other
            | _ => exact .decided _
        | list d =>
            cases actual with
            | list a => exact ih d a b
            | named other => exact factors_parent ih (.list d) other
            | _ => exact .failed
        | func =>
            cases actual with
            | func => exact .ok
            | arrow qs u => exact .ok
            | named other => exact factors_parent ih .func other
            | _ => exact .failed
        | arrow ps t =>
            cases actual with
            | func => exact .ok
            | arrow qs u =>
                exact factors_unifySignature (factors_matchExactlyWithin r steps) ps t qs u b
            | named other => exact factors_parent ih (.arrow ps t) other
            | _ => exact .failed

/-! ## Steps -/

theorem demandsEach_congr {f g : Ty → Ty → Option Demands} :
    ∀ {ds as : List Ty}, (∀ d, ∀ a ∈ as, f d a = g d a) → demandsEach f ds as = demandsEach g ds as
  | [], [], _ => rfl
  | [], _ :: _, _ => rfl
  | _ :: _, [], _ => rfl
  | d :: ds, a :: as, h => by
    rw [demandsEach, demandsEach, h d a List.mem_cons_self,
      demandsEach_congr fun d a ha => h d a (List.mem_cons_of_mem _ ha)]

theorem signatureDemands_congr {r : Registry} {f g : Ty → Ty → Option Demands} {qs : List Ty}
    {u : Ty} (h : ∀ d a, r.fullHeight a < r.fullHeight (.arrow qs u) → f d a = g d a)
    (ps : List Ty) (t : Ty) : signatureDemands f ps t qs u = signatureDemands g ps t qs u := by
  have hEach : demandsEach f ps qs = demandsEach g ps qs :=
    demandsEach_congr fun d a ha => h d a (fullHeight_lt_of_mem r ha u)
  rw [signatureDemands, signatureDemands, hEach, h t u (fullHeight_ret_lt r qs u)]

/-- Inside function types, one step more makes no difference, if the actual type
is not too high. -/
theorem exactDemandsWithin_succ (r : Registry) :
    ∀ (steps : Nat) (declared actual : Ty), r.fullHeight actual < steps →
      exactDemandsWithin steps declared actual = exactDemandsWithin (steps + 1) declared actual := by
  intro steps
  induction steps with
  | zero => exact fun _ _ h => absurd h (Nat.not_lt_zero _)
  | succ steps ih =>
      intro declared actual hHeight
      cases declared with
      | list d =>
          cases actual with
          | list a =>
              rw [fullHeight_list] at hHeight
              exact ih d a (by omega)
          | _ => rfl
      | arrow ps t =>
          cases actual with
          | arrow qs u =>
              exact signatureDemands_congr (r := r) (fun d a ha => ih d a (by omega)) ps t
          | _ => rfl
      | _ => rfl

/-- **One step more makes no difference**, if the actual type is not too high. -/
theorem demandsWithin_succ {r : Registry} (hr : r.Reached) :
    ∀ (steps : Nat) (declared actual : Ty), r.fullHeight actual < steps →
      r.demandsWithin steps declared actual = r.demandsWithin (steps + 1) declared actual := by
  intro steps
  induction steps with
  | zero => exact fun _ _ h => absurd h (Nat.not_lt_zero _)
  | succ steps ih =>
      intro declared actual hHeight
      have hUp : ∀ (declared : Ty) (name : String), r.fullHeight (.named name) < steps + 1 →
          (match r.parent? name with
            | some parent => r.demandsWithin steps declared parent
            | none => none) =
          (match r.parent? name with
            | some parent => r.demandsWithin (steps + 1) declared parent
            | none => none) := by
        intro declared name hName
        cases hParent : r.parent? name with
        | none => rfl
        | some parent =>
            rw [hr.fullHeight_named hParent] at hName
            exact ih declared parent (by omega)
      unfold demandsWithin
      by_cases hAny : declared.isAny = true
      · rw [if_pos hAny, if_pos hAny]
      · rw [if_neg hAny, if_neg hAny]
        cases actual with
        | named name =>
            have hName := hUp declared name hHeight
            cases declared <;> simp only [hName]
        | list a =>
            rw [fullHeight_list] at hHeight
            cases declared with
            | list d => exact ih d a (by omega)
            | _ => rfl
        | arrow qs u =>
            cases declared with
            | arrow ps t =>
                exact signatureDemands_congr (r := r)
                  (fun d a ha => exactDemandsWithin_succ r steps d a (by omega)) ps t
            | _ => rfl
        | _ => cases declared <;> rfl

/-! ## Types without variables in signatures -/

theorem eq_nil_of_demandsEach {f : Ty → Ty → Option Demands}
    (h : ∀ {d a ds}, d.hasVars = false → f d a = some ds → ds = []) :
    ∀ {ps qs : List Ty} {ds : Demands}, anyVars ps = false → demandsEach f ps qs = some ds → ds = []
  | [], [], ds, _, hDemands => by
    cases hDemands
    rfl
  | [], _ :: _, _, _, hDemands => nomatch hDemands
  | _ :: _, [], _, _, hDemands => nomatch hDemands
  | p :: ps, q :: qs, ds, hVars, hDemands => by
    rw [anyVars, Bool.or_eq_false_iff] at hVars
    obtain ⟨first, others, hFirst, hOthers, rfl⟩ := bothDemands_eq_some hDemands
    rw [h hVars.1 hFirst, eq_nil_of_demandsEach h hVars.2 hOthers]
    rfl

theorem eq_nil_of_signatureDemands {f : Ty → Ty → Option Demands}
    (h : ∀ {d a ds}, d.hasVars = false → f d a = some ds → ds = []) {ps qs : List Ty} {t u : Ty}
    {ds : Demands} (hVars : (anyVars ps || hasVars t) = false)
    (hDemands : signatureDemands f ps t qs u = some ds) : ds = [] := by
  rw [Bool.or_eq_false_iff] at hVars
  unfold signatureDemands at hDemands
  split at hDemands
  · obtain ⟨first, others, hFirst, hRet, rfl⟩ := bothDemands_eq_some hDemands
    rw [eq_nil_of_demandsEach h hVars.1 hFirst, h hVars.2 hRet]
    rfl
  · cases hDemands

/-- A type without variables asks nothing of them. -/
theorem eq_nil_of_exactDemandsWithin :
    ∀ (steps : Nat) {declared actual : Ty} {ds : Demands}, declared.hasVars = false →
      exactDemandsWithin steps declared actual = some ds → ds = [] := by
  intro steps
  induction steps with
  | zero => exact fun _ h => nomatch h
  | succ steps ih =>
      intro declared actual ds hVars h
      unfold exactDemandsWithin at h
      split at h
      · cases hVars
      · rw [hasVars] at hVars
        exact ih hVars h
      · exact eq_nil_of_signatureDemands ih hVars h
      · split at h
        · cases h
          rfl
        · cases h

/-- **A type without variables in signatures asks at most one thing.** -/
theorem length_demandsWithin_le (r : Registry) :
    ∀ (steps : Nat) {declared actual : Ty} {ds : Demands}, declared.hasSignatureVars = false →
      r.demandsWithin steps declared actual = some ds → ds.length ≤ 1 := by
  intro steps
  induction steps with
  | zero =>
      intro declared actual ds _ h
      rw [demandsWithin] at h
      split at h
      · cases h
        exact Nat.zero_le 1
      · cases h
  | succ steps ih =>
      intro declared actual ds hVars h
      unfold demandsWithin at h
      split at h
      · cases h
        exact Nat.zero_le 1
      · split at h
        · cases h
          exact Nat.le_refl 1
        · rw [hasSignatureVars] at hVars
          exact ih hVars h
        · cases h
          exact Nat.zero_le 1
        · cases h
          exact Nat.zero_le 1
        · cases h
          exact Nat.zero_le 1
        · rw [eq_nil_of_signatureDemands (eq_nil_of_exactDemandsWithin steps) hVars h]
          exact Nat.zero_le 1
        · split at h
          · cases h
            exact Nat.zero_le 1
          · split at h
            · exact ih hVars h
            · cases h
        · split at h
          · cases h
            exact Nat.zero_le 1
          · cases h
        · cases h

/-! ## Demands that can be met -/

/-- Whether a type is within the bound of a variable. -/
def Admits (r : Registry) (name : String) (t : Ty) : Prop :=
  ∀ bound, r.bound? name = some bound → r.le t bound = true

/-- One of two types is acceptable for the other. -/
def Comparable (r : Registry) (t u : Ty) : Prop := r.le t u = true ∨ r.le u t = true

theorem Comparable.symm {r : Registry} {t u : Ty} (h : r.Comparable t u) : r.Comparable u t := Or.symm h

/-- A variable can be widened if the type is within its bound and comparable with
what it stands for so far. -/
theorem widenVar_eq_true_iff (r : Registry) (name : String) (t : Ty) (b b' : Bindings) :
    r.widenVar name t b = (true, b') ↔
      r.Admits name t ∧
        match b.get? name with
        | none => b' = b.insert name t
        | some earlier =>
          r.Comparable t earlier ∧ b' = if r.le t earlier then b else b.insert name t := by
  have hMeet : (match b.get? name with
        | none => (true, b.insert name t)
        | some earlier =>
          if r.le t earlier then (true, b)
          else if r.le earlier t then (true, b.insert name t)
          else (false, b)) = (true, b') ↔
      match b.get? name with
      | none => b' = b.insert name t
      | some earlier =>
        r.Comparable t earlier ∧ b' = if r.le t earlier then b else b.insert name t := by
    unfold Comparable
    cases b.get? name with
    | none => exact ⟨fun h => (Prod.mk.inj h).2.symm, fun h => Prod.ext rfl h.symm⟩
    | some earlier =>
        cases hLe : r.le t earlier <;> cases hGe : r.le earlier t <;>
          simp [hLe, hGe, @eq_comm _ b']
  unfold widenVar Admits
  cases r.bound? name with
  | none =>
      simp only [reduceCtorEq, false_implies, implies_true, true_and, if_true]
      exact hMeet
  | some bound =>
      by_cases hWithin : r.le t bound = true
      · simp only [hWithin, Option.some.injEq, forall_eq', true_and, if_true]
        exact hMeet
      · simp [hWithin]

/-- Whatever has been met is within bounds. -/
theorem admits_of_widenAll {r : Registry} {ds : Demands} {b b' : Bindings}
    (h : r.widenAll ds b = (true, b')) : ∀ demand ∈ ds, r.Admits demand.1 demand.2 := by
  induction ds generalizing b with
  | nil => exact fun _ hMem => nomatch hMem
  | cons first others ih =>
      rw [widenAll] at h
      rcases hFirst : r.widenVar first.1 first.2 b with ⟨accepted, after⟩
      rw [hFirst] at h
      cases accepted with
      | false => cases h
      | true =>
          intro demand hMem
          rcases List.mem_cons.mp hMem with rfl | hMem
          · exact ((widenVar_eq_true_iff r _ _ b after).mp hFirst).1
          · exact ih h demand hMem

/-- Two demands on one variable that can be met are comparable. -/
theorem comparable_of_widenAll {r : Registry} {name : String} {t u : Ty} {b' : Bindings}
    (h : r.widenAll [(name, t), (name, u)] Dict.empty = (true, b')) : r.Comparable t u := by
  rw [widenAll] at h
  rcases hFirst : r.widenVar name t Dict.empty with ⟨accepted, after⟩
  rw [hFirst] at h
  cases accepted with
  | false => cases h
  | true =>
      have hInsert : after = Dict.empty.insert name t :=
        ((widenVar_eq_true_iff r name t Dict.empty after).mp hFirst).2
      have hSecond := ((widenVar_eq_true_iff r name u after b').mp
        ((widenAll_single r name u after b').mp h)).2
      rw [hInsert, Dict.get?_insert, if_pos rfl] at hSecond
      exact hSecond.1.symm

/-- **Demands can be met in any selection, if the types asked of one variable are
comparable** and within its bound.  Every variable then stands for one of the
types asked of it. -/
theorem widenAll_of_comparable {r : Registry} {ds : Demands}
    (hAdmits : ∀ demand ∈ ds, r.Admits demand.1 demand.2)
    (hComparable : ∀ name t u, (name, t) ∈ ds → (name, u) ∈ ds → r.Comparable t u) :
    ∀ (es : Demands) (b : Bindings), es ⊆ ds →
      (∀ name t, b.get? name = some t → (name, t) ∈ ds) →
      ∃ b', r.widenAll es b = (true, b') := by
  intro es
  induction es with
  | nil => exact fun b _ _ => ⟨b, rfl⟩
  | cons first others ih =>
      obtain ⟨name, t⟩ := first
      intro b hSub hAsked
      have hMem : (name, t) ∈ ds := hSub List.mem_cons_self
      have hFirst : ∃ after, r.widenVar name t b = (true, after) ∧
          (after = b ∨ after = b.insert name t) := by
        cases hGet : b.get? name with
        | none =>
            exact ⟨b.insert name t, (widenVar_eq_true_iff r name t b _).mpr
              ⟨hAdmits _ hMem, by rw [hGet]⟩, .inr rfl⟩
        | some earlier =>
            refine ⟨if r.le t earlier then b else b.insert name t,
              (widenVar_eq_true_iff r name t b _).mpr ⟨hAdmits _ hMem, ?_⟩, ?_⟩
            · rw [hGet]
              exact ⟨hComparable name t earlier hMem (hAsked name earlier hGet), rfl⟩
            · split
              · exact .inl rfl
              · exact .inr rfl
      obtain ⟨after, hWiden, hAfter⟩ := hFirst
      obtain ⟨b', hRest⟩ := ih after (List.subset_of_cons_subset hSub) fun other u hGet => by
        rcases hAfter with rfl | rfl
        · exact hAsked other u hGet
        · rw [Dict.get?_insert] at hGet
          split at hGet
          · rename_i hName
            cases hGet
            exact hName ▸ hMem
          · exact hAsked other u hGet
      exact ⟨b', by rw [widenAll, hWiden]; exact hRest⟩

end Registry

end ClauseLisp.Ty
