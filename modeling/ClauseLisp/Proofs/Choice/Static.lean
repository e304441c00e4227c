import Mathlib.Data.List.Forall2
import ClauseLisp.Proofs.Choice.Matching
import ClauseLisp.Proofs.Types.Demands

/-!
# Choice by static types

A program is checked by choosing clauses for static types, in the way in which
they are chosen for values when it runs.  What the checker does not know it lets
through: an argument of type `any`, and a list of unknown elements where a list
is declared.  A call that runs should therefore pass the check as well.

It does not always.  An argument that is let through binds no variable, though
the value will; the arguments after it then meet a variable that stands for less
than it will stand for, and two types that are both acceptable for the wider one
need not be so for each other.  And a tagged argument equals a literal whatever
its tag is, while its type has to be related to that of the literal.

`Clause.Uniform` says when neither happens.

## Main results

* `running_call_fails_check` — three calls that run and do not pass the check.
* `static_choice_of_choice` — which calls that run pass the check.
-/

namespace ClauseLisp

open Ty (Registry Bindings Demands)

/-! ## What a pattern asks of variables -/

/-- What a declared type asks of variables where lists satisfy every list type. -/
def Ty.looseDemands (r : Registry) : Ty → Ty → Option Demands
  | .list _, .list _ => some []
  | declared, ty => r.demands declared ty

/-- What a pattern asks of variables when a value is matched with it, if the value
has the right shape. -/
def Pattern.asksOfValue (r : Registry) : Pattern → Value → Option Demands
  | .lit literal, v => if v.same literal then some [] else none
  | .bind _, _ => some []
  | .typed _ declared, .cell _ _ (.fixed e) =>
    match declared with
    | .list d => r.demands d e
    | declared => r.demands declared (.list e)
  | .typed _ declared, v => declared.looseDemands r v.plainType

/-- What a declared type asks of variables when a static type is matched with it,
if that may have the right shape; nothing is asked where it is let through. -/
def Ty.shownDemands (r : Registry) (declared actual : Ty) : Option Demands :=
  if actual.isAny then some []
  else
    match actual, declared with
    | .list elem, .list _ => if elem.isAny then some [] else r.demands declared actual
    | _, _ => r.demands declared actual

/-- What a pattern asks of variables when a static type is matched with it. -/
def Pattern.asksOfType (r : Registry) : Pattern → Ty → Option Demands
  | .lit literal, t => if Matchable.litMatch r literal t then some [] else none
  | .bind _, _ => some []
  | .typed _ declared, t => declared.shownDemands r t

theorem asksOfValue_of_not_cell (r : Registry) (name : String) (declared : Ty) {v : Value}
    (h : v.isCell = false) :
    (Pattern.typed name declared).asksOfValue r v = declared.looseDemands r v.plainType := by
  cases v with
  | cell head tail elem => cases h
  | _ => rfl

section

variable {α : Type} [Matchable α]

/-- Matching one argument succeeds exactly if some demands can be met; it does not
matter which types have been asked for before. -/
def MatchAsks (r : Registry) (p : Pattern) (x : α) (ds? : Option Demands) : Prop :=
  ∀ b, ∃ result, (∀ asked, p.match₁ r x b asked = (result, asked)) ∧ r.FactorsAt result ds? b

end

theorem matchAsks_value (r : Registry) (p : Pattern) {v : Value}
    (hFixed : v.fixedType?.isSome = true) : MatchAsks r p v (p.asksOfValue r v) := by
  intro b
  cases p with
  | lit literal => exact ⟨_, fun _ => rfl, .decided _⟩
  | bind name => exact ⟨_, fun _ => rfl, .ok⟩
  | typed name declared =>
      cases hCell : v.isCell with
      | false =>
          refine ⟨_, fun asked => conforms_of_not_cell hCell r declared b asked, ?_⟩
          cases v with
          | cell head tail elem => cases hCell
          | _ =>
            cases declared <;>
              first
                | exact .ok
                | exact Registry.factors_unifyWithin r Ty.maxDepth _ _ b
      | true =>
          cases v with
          | cell head tail elem =>
              cases elem with
              | pending place => cases hFixed
              | fixed e =>
                  refine ⟨_, fun asked => conforms_cell r head tail e declared b asked, ?_⟩
                  cases declared <;> exact Registry.factors_unifyWithin r Ty.maxDepth _ _ b
          | _ => cases hCell

theorem matchAsks_type (r : Registry) (p : Pattern) (t : Ty) :
    MatchAsks r p t (p.asksOfType r t) := by
  intro b
  cases p with
  | lit literal => exact ⟨_, fun _ => rfl, .decided _⟩
  | bind name => exact ⟨_, fun _ => rfl, .ok⟩
  | typed name declared =>
      refine ⟨declared.matches r t b, fun _ => rfl, ?_⟩
      have hUnify : r.FactorsAt (r.unify declared t b) (r.demands declared t) b :=
        Registry.factors_unifyWithin r Ty.maxDepth declared t b
      show r.FactorsAt (declared.matches r t b) (declared.shownDemands r t) b
      unfold Ty.matches Ty.shownDemands
      by_cases hAny : t.isAny = true
      · rw [if_pos hAny, if_pos hAny]
        exact .ok
      · rw [if_neg hAny, if_neg hAny]
        cases t with
        | list elem =>
            cases declared with
            | list d =>
                by_cases hElem : elem.isAny = true
                · simp only [if_pos hElem]
                  exact .ok
                · simp only [if_neg hElem]
                  exact hUnify
            | _ => exact hUnify
        | _ => exact hUnify

/-! ## Matching all arguments -/

theorem Typing.pure_apply {α : Type} (a : α) (asked : AskedTypes) :
    (pure a : Typing α) asked = (a, asked) := rfl

section

variable {α : Type} [Matchable α] {r : Registry} {asks : Pattern → α → Option Demands}

/-- **Matching all arguments succeeds exactly if what they ask can be met.** -/
theorem matchAll_asks :
    ∀ {ps : List Pattern} {xs : List α},
      (∀ p x, (p, x) ∈ ps.zip xs → MatchAsks r p x (asks p x)) → ∀ b,
        (∀ asked, Pattern.matchAll r ps xs b asked =
          ((Pattern.matchAll r ps xs b #[]).1, asked)) ∧
        r.MetBy (fun b' => (Pattern.matchAll r ps xs b #[]).1 = some b')
          (Registry.demandsEach asks ps xs) b
  | [], [], _, b => by
    refine ⟨fun _ => rfl, fun b' => ?_⟩
    simp [Pattern.matchAll, Registry.demandsEach, Registry.widenAll, Typing.pure_apply]
  | [], _ :: _, _, _ => ⟨fun _ => rfl, fun b' => by
    simp [Pattern.matchAll, Registry.demandsEach, Typing.pure_apply]⟩
  | _ :: _, [], _, _ => ⟨fun _ => rfl, fun b' => by
    simp [Pattern.matchAll, Registry.demandsEach, Typing.pure_apply]⟩
  | p :: ps, x :: xs, h, b => by
    obtain ⟨⟨accepted, after⟩, hFirst, hFactors⟩ := h p x List.mem_cons_self b
    have hRest := fun middle =>
      matchAll_asks (fun q y hq => h q y (List.mem_cons_of_mem _ hq)) middle
    constructor
    · intro asked
      rw [matchAll_cons (hFirst asked) ps xs, matchAll_cons (hFirst #[]) ps xs]
      cases accepted with
      | true => exact (hRest after).1 asked
      | false => rfl
    · intro b'
      refine Iff.trans ?_ (Registry.MetBy.both hFactors (fun middle => (hRest middle).2) b')
      rw [matchAll_cons (hFirst #[]) ps xs]
      cases accepted <;> simp

/-- **A clause matches exactly if what its patterns ask can be met**, starting from
no bindings. -/
theorem match?_asks {c : Clause} {xs : List α}
    (h : ∀ p x, (p, x) ∈ c.params.zip xs → MatchAsks r p x (asks p x)) :
    (∀ asked, c.match? r xs asked = ((c.match? r xs #[]).1, asked)) ∧
      r.MetBy (fun b' => (c.match? r xs #[]).1 = some b')
        (Registry.demandsEach asks c.params xs) Dict.empty := by
  unfold Clause.match?
  split
  · exact matchAll_asks h Dict.empty
  · rename_i hLength
    refine ⟨fun _ => rfl, fun b' => ?_⟩
    have hNone : Registry.demandsEach asks c.params xs = none := by
      cases hDemands : Registry.demandsEach asks c.params xs with
      | none => rfl
      | some ds => exact absurd (Registry.length_eq_of_demandsEach hDemands) hLength
    simp [hNone, Typing.pure_apply]

end

/-! ## What the checker is shown -/

/-- What the checker may know of an argument: its type, or nothing. -/
def Value.ShownAs (v : Value) (t : Ty) : Prop := t = Ty.any ∨ v.fixedType? = some t

/-- A value whose type stands, and can be followed to its end. -/
def Value.HasLowType (r : Registry) (v : Value) : Prop :=
  ∃ t, v.fixedType? = some t ∧ r.fullHeight t < Ty.maxDepth

theorem Value.HasLowType.isSome {r : Registry} {v : Value} (h : v.HasLowType r) :
    v.fixedType?.isSome = true := by
  obtain ⟨t, hType, -⟩ := h
  rw [hType]
  rfl

theorem typeAtOnce_of_isSimple (r : Registry) {literal : Value}
    (h : (Pattern.lit literal).isSimple = true) : literal.typeAtOnce r = literal.plainType := by
  cases literal with
  | int n => rfl
  | bool b => rfl
  | str s => rfl
  | nil => rfl
  | _ => cases h

/-- Nothing is asked of an argument about which nothing is known. -/
theorem asksOfType_any (r : Registry) (p : Pattern) : p.asksOfType r Ty.any = some [] := by
  cases p with
  | lit literal =>
      have hTop : Matchable.litMatch r literal Ty.any = true :=
        Bool.or_eq_true _ _ |>.mpr (.inl (Registry.le_any r _))
      exact if_pos hTop
  | bind name => rfl
  | typed name declared => rfl

/-- A value that equals a literal has its type, unless it is tagged. -/
theorem comparable_of_same {r : Registry} {literal v : Value} {t : Ty}
    (hSimple : (Pattern.lit literal).isSimple = true) (hSame : v.same literal = true)
    (hType : v.fixedType? = some t)
    (hTagged : ∀ tag value, v = .tagged tag value →
      r.Comparable literal.plainType (.named tag)) :
    r.Comparable literal.plainType t := by
  cases v with
  | tagged tag value =>
      cases hType
      exact hTagged tag value rfl
  | cell head tail elem => cases literal <;> first | cases hSame | cases hSimple
  | _ =>
    cases hType
    cases literal <;>
      first | exact .inl (Registry.le_self r _) | cases hSame | cases hSimple

/-- What is asked of a list is asked of its elements; the layer that is taken off
costs a step, which makes no difference for a type that is not too high. -/
theorem demands_list {r : Registry} (hr : r.Reached) (d : Ty) {e : Ty}
    (h : r.fullHeight (.list e) < Ty.maxDepth) : r.demands (.list d) (.list e) = r.demands d e := by
  rw [Registry.fullHeight_list] at h
  exact Registry.demandsWithin_succ hr 63 d e (Nat.lt_of_succ_lt_succ h)

/-- Where `any` satisfies a declared type, every variable is asked to stand for
`any`. -/
theorem eq_any_of_demands_any {r : Registry} (hr : r.Reached) {declared : Ty} {ds : Demands}
    (h : r.demands declared Ty.any = some ds) : ∀ demand ∈ ds, demand.2 = Ty.any := by
  have hTop : r.parent? "any" = none := hr.ordered.any
  have hEmpty : ∀ demand ∈ ([] : Demands), demand.2 = Ty.any := List.forall_mem_nil _
  replace h : r.demandsWithin (63 + 1) declared (.named "any") = some ds := h
  unfold Registry.demandsWithin at h
  split at h
  · cases h
    exact hEmpty
  · cases declared with
    | var name =>
        cases h
        intro demand hMem
        rw [List.mem_singleton.mp hMem]
        rfl
    | named name =>
        simp only [hTop] at h
        split at h
        · cases h
          exact hEmpty
        · cases h
    | _ =>
      simp only [hTop] at h
      cases h

/-- Without looking into a list, nothing is known of its elements. -/
theorem eq_any_of_plainType {v : Value} {elem : Ty} (h : v.plainType = .list elem) :
    elem = Ty.any := by
  cases v <;> cases h <;> rfl

/-- Of the type of a cell as much is asked as of the cell, unless its elements are of any type. -/
theorem shownDemands_list {r : Registry} (hr : r.Reached) {name : String} {declared e : Ty}
    {head tail : Value} {ds : Demands} (hLow : r.fullHeight (.list e) < Ty.maxDepth)
    (h : (Pattern.typed name declared).asksOfValue r (.cell head tail (.fixed e)) = some ds) :
    declared.shownDemands r (.list e) = some ds ∨
      declared.shownDemands r (.list e) = some [] ∧ ∀ demand ∈ ds, demand.2 = Ty.any := by
  cases declared with
  | list d =>
      replace h : r.demands d e = some ds := h
      by_cases hElem : e.isAny = true
      · rw [Registry.eq_any_of_isAny hElem] at h ⊢
        exact .inr ⟨rfl, eq_any_of_demands_any hr h⟩
      · rw [← demands_list hr d hLow] at h
        refine .inl (Eq.trans ?_ h)
        have hList : ¬ (Ty.list e).isAny = true := Bool.false_ne_true
        rw [Ty.shownDemands, if_neg hList]
        exact if_neg hElem
  | _ => exact .inl h

/-- Nor is more asked of the type of a value that is not looked into. -/
theorem shownDemands_plainType {r : Registry} (hr : r.Reached) {declared t : Ty} {v : Value}
    {ds : Demands} (hType : v.plainType = t) (h : declared.looseDemands r t = some ds) :
    declared.shownDemands r t = some ds ∨
      declared.shownDemands r t = some [] ∧ ∀ demand ∈ ds, demand.2 = Ty.any := by
  unfold Ty.shownDemands
  by_cases hAny : t.isAny = true
  · rw [if_pos hAny]
    rw [Registry.eq_any_of_isAny hAny] at h
    have hDemands : r.demands declared Ty.any = some ds := by
      cases declared <;> exact h
    exact .inr ⟨rfl, eq_any_of_demands_any hr hDemands⟩
  · rw [if_neg hAny]
    cases t with
    | list elem =>
        cases declared with
        | list d =>
            cases h
            rw [eq_any_of_plainType hType]
            exact .inl rfl
        | _ => exact .inl h
    | _ => cases declared <;> exact .inl h

/-- **What is asked of the type of an argument is what is asked of the argument**,
or else nothing is, and every variable that the argument is asked for has to
stand for `any`. -/
theorem asksOfType_fixedType {r : Registry} (hr : r.Reached) {p : Pattern} {v : Value} {t : Ty}
    {ds : Demands} (hSimple : p.isSimple = true) (hType : v.fixedType? = some t)
    (hLow : r.fullHeight t < Ty.maxDepth)
    (hTagged : ∀ literal tag value, p = .lit literal → v = .tagged tag value →
      r.Comparable literal.plainType (.named tag))
    (h : p.asksOfValue r v = some ds) :
    p.asksOfType r t = some ds ∨ p.asksOfType r t = some [] ∧ ∀ demand ∈ ds, demand.2 = Ty.any := by
  cases p with
  | bind name => exact .inl h
  | lit literal =>
      rw [Pattern.asksOfValue] at h
      split at h
      · rename_i hSame
        cases h
        have hLit := comparable_of_same hSimple hSame hType fun tag value => hTagged _ tag value rfl
        rw [← typeAtOnce_of_isSimple r hSimple] at hLit
        exact .inl (if_pos (Bool.or_eq_true _ _ |>.mpr hLit))
      · cases h
  | typed name declared =>
      cases hCell : v.isCell with
      | true =>
          cases v with
          | cell head tail elem =>
              cases elem with
              | pending place => cases hType
              | fixed e =>
                  cases hType
                  exact shownDemands_list hr hLow h
          | _ => cases hCell
      | false =>
          rw [fixedType?_of_not_cell hCell] at hType
          replace hType : v.plainType = t := Option.some.inj hType
          rw [asksOfValue_of_not_cell r name declared hCell, hType] at h
          exact shownDemands_plainType hr hType h

/-! ## Uniform arguments -/

/-- The arguments of a call are uniform for a clause if a tag is related to the type
of the literal that the tagged argument is compared with, and the types that one
variable is asked to stand for are comparable with each other. -/
structure Clause.Uniform (r : Registry) (c : Clause) (arguments : List Value) : Prop where
  atLiterals : ∀ literal tag value, (.lit literal, .tagged tag value) ∈ c.params.zip arguments →
    r.Comparable literal.plainType (.named tag)
  atVariables : ∀ ds, Registry.demandsEach (Pattern.asksOfValue r) c.params arguments = some ds →
    ∀ name t u, (name, t) ∈ ds → (name, u) ∈ ds → r.Comparable t u

/-- A clause matches arguments exactly if what it asks of them can be met, whatever
types have been asked for before. -/
theorem match?_value {r : Registry} {c : Clause} {arguments : List Value}
    (hFixed : ∀ v ∈ arguments, v.fixedType?.isSome = true) (asked : AskedTypes) (b : Bindings) :
    (c.match? r arguments asked).1 = some b ↔
      ∃ ds, Registry.demandsEach (Pattern.asksOfValue r) c.params arguments = some ds ∧
        r.widenAll ds Dict.empty = (true, b) := by
  have hAsks : ∀ p v, (p, v) ∈ c.params.zip arguments → MatchAsks r p v (p.asksOfValue r v) :=
    fun p v hMem => matchAsks_value r p (hFixed v (List.of_mem_zip hMem).2)
  obtain ⟨hAsked, hMet⟩ := match?_asks hAsks
  rw [hAsked asked]
  exact hMet b

/-- A clause matches static types exactly if what it asks of them can be met. -/
theorem match?_type {r : Registry} {c : Clause} {types : List Ty} (asked : AskedTypes)
    (b : Bindings) :
    (c.match? r types asked).1 = some b ↔
      ∃ ds, Registry.demandsEach (Pattern.asksOfType r) c.params types = some ds ∧
        r.widenAll ds Dict.empty = (true, b) := by
  have hAsks : ∀ p t, (p, t) ∈ c.params.zip types → MatchAsks r p t (p.asksOfType r t) :=
    fun p t _ => matchAsks_type r p t
  obtain ⟨hAsked, hMet⟩ := match?_asks hAsks
  rw [hAsked asked]
  exact hMet b

section

variable {r : Registry} (hr : r.Reached)

include hr

/-- What the checker is shown asks for nothing that the arguments do not ask for. -/
theorem demandsEach_of_shownAs :
    ∀ {ps : List Pattern} {arguments : List Value} {types : List Ty} {ds : Demands},
      (∀ p ∈ ps, p.isSimple = true) → (∀ v ∈ arguments, v.HasLowType r) →
      (∀ literal tag value, (.lit literal, .tagged tag value) ∈ ps.zip arguments →
        r.Comparable literal.plainType (.named tag)) →
      List.Forall₂ Value.ShownAs arguments types →
      Registry.demandsEach (Pattern.asksOfValue r) ps arguments = some ds →
      ∃ es, Registry.demandsEach (Pattern.asksOfType r) ps types = some es ∧ es ⊆ ds
  | [], [], _, ds, _, _, _, .nil, _ => ⟨[], rfl, List.nil_subset ds⟩
  | [], _ :: _, _, _, _, _, _, _, hDemands => nomatch hDemands
  | _ :: _, [], _, _, _, _, _, _, hDemands => nomatch hDemands
  | p :: ps, v :: arguments, u :: types, ds, hSimple, hLow, hTagged, .cons hShown hRest,
      hDemands => by
    obtain ⟨first, others, hFirst, hOthers, rfl⟩ := Registry.bothDemands_eq_some hDemands
    obtain ⟨es, hEach, hSub⟩ := demandsEach_of_shownAs
      (fun q hq => hSimple q (List.mem_cons_of_mem _ hq))
      (fun w hw => hLow w (List.mem_cons_of_mem _ hw))
      (fun literal tag value h => hTagged literal tag value (List.mem_cons_of_mem _ h)) hRest hOthers
    have hAsks : ∃ asks, p.asksOfType r u = some asks ∧ asks ⊆ first := by
      rcases hShown with rfl | hType
      · exact ⟨[], asksOfType_any r p, List.nil_subset first⟩
      · obtain ⟨t, hOwn, hHeight⟩ := hLow v List.mem_cons_self
        rw [hType] at hOwn
        cases hOwn
        rcases asksOfType_fixedType hr (hSimple p List.mem_cons_self) hType hHeight
          (fun literal tag value hp hv => hTagged literal tag value
            (hp ▸ hv ▸ List.mem_cons_self)) hFirst with hSame | ⟨hNone, -⟩
        · exact ⟨first, hSame, List.Subset.refl first⟩
        · exact ⟨[], hNone, List.nil_subset first⟩
    obtain ⟨asks, hAsks, hAsksSub⟩ := hAsks
    refine ⟨asks ++ es, ?_, List.append_subset.mpr
      ⟨List.subset_append_of_subset_left others hAsksSub,
        List.subset_append_of_subset_right first hSub⟩⟩
    rw [Registry.demandsEach, hAsks, hEach]
    rfl

/-- **A clause that matches uniform arguments may accept whatever types they are
shown as.** -/
theorem match?_of_uniform {c : Clause} {arguments : List Value} {types : List Ty}
    {asked : AskedTypes} {b : Bindings} (hSimple : ∀ p ∈ c.params, p.isSimple = true)
    (hLow : ∀ v ∈ arguments, v.HasLowType r) (hUniform : c.Uniform r arguments)
    (hShown : List.Forall₂ Value.ShownAs arguments types)
    (h : (c.match? r arguments asked).1 = some b) (asked' : AskedTypes) :
    ∃ b', (c.match? r types asked').1 = some b' := by
  obtain ⟨ds, hDemands, hWiden⟩ := (match?_value (fun v hv => (hLow v hv).isSome) asked b).mp h
  obtain ⟨es, hEach, hSub⟩ :=
    demandsEach_of_shownAs hr hSimple hLow hUniform.atLiterals hShown hDemands
  obtain ⟨b', hMet⟩ := Registry.widenAll_of_comparable (Registry.admits_of_widenAll hWiden)
    (hUniform.atVariables ds hDemands) es Dict.empty hSub fun _ _ hGet => nomatch hGet
  exact ⟨b', (match?_type asked' b').mpr ⟨es, hEach, hMet⟩⟩

end

/-! ## Types that show it when arguments are not uniform -/

/-- Whether a pattern has a variable inside the signature of a function. -/
def Pattern.hasSignatureVars : Pattern → Bool
  | .typed _ declared => declared.hasSignatureVars
  | _ => false

theorem length_asksOfValue_le (r : Registry) {p : Pattern} {v : Value} {ds : Demands}
    (hVars : p.hasSignatureVars = false) (h : p.asksOfValue r v = some ds) : ds.length ≤ 1 := by
  cases p with
  | bind name =>
      cases h
      exact Nat.zero_le 1
  | lit literal =>
      replace h : (if v.same literal then some [] else none) = some ds := h
      split at h
      · cases h
        exact Nat.zero_le 1
      · cases h
  | typed name declared =>
      have hDeclared : ∀ {ty : Ty}, r.demands declared ty = some ds → ds.length ≤ 1 :=
        Registry.length_demandsWithin_le r Ty.maxDepth hVars
      have hLoose : ∀ {ty : Ty}, declared.looseDemands r ty = some ds → ds.length ≤ 1 := by
        intro ty h
        unfold Ty.looseDemands at h
        split at h
        · cases h
          exact Nat.zero_le 1
        · exact hDeclared h
      cases v with
      | cell head tail elem =>
          cases elem with
          | pending place => exact hLoose h
          | fixed e =>
              cases declared with
              | list d =>
                  replace hVars : d.hasSignatureVars = false := hVars
                  exact Registry.length_demandsWithin_le r Ty.maxDepth hVars h
              | _ => exact hDeclared h
      | _ => exact hLoose h

/-- **Some of what arguments ask for is just what they are shown to ask for**, if the
right ones are shown; only that something has to stand for `any` cannot be shown. -/
theorem exists_shownAs_of_sublist {r : Registry} (hr : r.Reached) :
    ∀ {ps : List Pattern} {arguments : List Value} {ds es : Demands},
      (∀ p ∈ ps, p.isSimple = true ∧ p.hasSignatureVars = false) →
      (∀ v ∈ arguments, v.HasLowType r) →
      (∀ literal tag value, (.lit literal, .tagged tag value) ∈ ps.zip arguments →
        r.Comparable literal.plainType (.named tag)) →
      Registry.demandsEach (Pattern.asksOfValue r) ps arguments = some ds →
      es.Sublist ds → (∀ demand ∈ es, demand.2 ≠ Ty.any) →
      ∃ types, List.Forall₂ Value.ShownAs arguments types ∧
        Registry.demandsEach (Pattern.asksOfType r) ps types = some es
  | [], [], _, _, _, _, _, hDemands, hSub, _ => by
    cases hDemands
    rw [List.sublist_nil.mp hSub]
    exact ⟨[], .nil, rfl⟩
  | [], _ :: _, _, _, _, _, _, hDemands, _, _ => nomatch hDemands
  | _ :: _, [], _, _, _, _, _, hDemands, _, _ => nomatch hDemands
  | p :: ps, v :: arguments, _, _, hPatterns, hLow, hTagged, hDemands, hSub, hNotAny => by
    obtain ⟨first, others, hFirst, hOthers, rfl⟩ := Registry.bothDemands_eq_some hDemands
    obtain ⟨es₁, es₂, rfl, hSub₁, hSub₂⟩ := List.sublist_append_iff.mp hSub
    obtain ⟨types, hShown, hEach⟩ := exists_shownAs_of_sublist hr
      (fun q hq => hPatterns q (List.mem_cons_of_mem _ hq))
      (fun w hw => hLow w (List.mem_cons_of_mem _ hw))
      (fun literal tag value h => hTagged literal tag value (List.mem_cons_of_mem _ h))
      hOthers hSub₂ fun demand h => hNotAny demand (List.mem_append_right _ h)
    obtain ⟨hSimple, hVars⟩ := hPatterns p List.mem_cons_self
    have hOne : ∃ u, v.ShownAs u ∧ p.asksOfType r u = some es₁ := by
      cases es₁ with
      | nil => exact ⟨Ty.any, .inl rfl, asksOfType_any r p⟩
      | cons demand rest =>
          -- The first argument asks for one thing only.
          have hAll : demand :: rest = first :=
            hSub₁.eq_of_length_le (Nat.le_trans (length_asksOfValue_le r hVars hFirst)
              (Nat.succ_le_succ (Nat.zero_le rest.length)))
          obtain ⟨t, hOwn, hHeight⟩ := hLow v List.mem_cons_self
          rcases asksOfType_fixedType hr hSimple hOwn hHeight
            (fun literal tag value hp hv => hTagged literal tag value
              (hp ▸ hv ▸ List.mem_cons_self)) hFirst with hSame | ⟨-, hAny⟩
          · exact ⟨t, .inr hOwn, hAll ▸ hSame⟩
          · exact absurd (hAny demand (hAll ▸ List.mem_cons_self))
              (hNotAny demand List.mem_cons_self)
    obtain ⟨u, hFirstShown, hAsks⟩ := hOne
    refine ⟨u :: types, .cons hFirstShown hShown, ?_⟩
    rw [Registry.demandsEach, hAsks, hEach]
    rfl

/-- Two elements of a list are one after the other in it, or they are the same. -/
private theorem sublist_of_mem_of_mem {α : Type} {x y : α} {xs : List α} (hx : x ∈ xs)
    (hy : y ∈ xs) : x = y ∨ [x, y].Sublist xs ∨ [y, x].Sublist xs := by
  obtain ⟨before, after, rfl⟩ := List.append_of_mem hx
  rcases List.mem_append.mp hy with hBefore | hAfter
  · exact .inr (.inr ((List.singleton_sublist.mpr hBefore).append
      (List.singleton_sublist.mpr List.mem_cons_self)))
  · rcases List.mem_cons.mp hAfter with rfl | hAfter
    · exact .inl rfl
    · exact .inr (.inl ((List.singleton_sublist.mpr hAfter).cons_cons x |>.trans
        (List.sublist_append_right before _)))

theorem isSome_of_demandsEach {r : Registry} :
    ∀ {ps : List Pattern} {types : List Ty} {ds : Demands},
      Registry.demandsEach (Pattern.asksOfType r) ps types = some ds →
      ∀ p t, (p, t) ∈ ps.zip types → (p.asksOfType r t).isSome = true
  | [], _, _, _, _, _, hMem => by
    rw [List.zip_nil_left] at hMem
    cases hMem
  | _ :: _, [], _, _, _, _, hMem => nomatch hMem
  | q :: ps, u :: types, _, h, p, t, hMem => by
    obtain ⟨first, others, hFirst, hOthers, -⟩ := Registry.bothDemands_eq_some h
    rcases List.mem_cons.mp hMem with hEq | hMem
    · cases hEq
      rw [hFirst]
      rfl
    · exact isSome_of_demandsEach hOthers p t hMem

/-- The type of a value, or `any` if it does not stand. -/
def Value.ownType (v : Value) : Ty := v.fixedType?.getD Ty.any

theorem shownAs_ownType : ∀ {r : Registry} {arguments : List Value},
    (∀ v ∈ arguments, v.HasLowType r) →
      List.Forall₂ Value.ShownAs arguments (arguments.map Value.ownType)
  | _, [], _ => .nil
  | _, v :: _, h => by
    obtain ⟨t, hType, -⟩ := h v List.mem_cons_self
    refine .cons (.inr ?_) (shownAs_ownType fun w hw => h w (List.mem_cons_of_mem _ hw))
    rw [Value.ownType, hType]
    rfl

/-- **Arguments are uniform for a clause that may accept whatever types they are
shown as.** -/
theorem uniform_of_match? {r : Registry} (hr : r.Reached) {c : Clause} {arguments : List Value}
    (hPatterns : ∀ p ∈ c.params, p.isSimple = true ∧ p.hasSignatureVars = false)
    (hLow : ∀ v ∈ arguments, v.HasLowType r)
    (hShown : ∀ types, List.Forall₂ Value.ShownAs arguments types →
      ∃ b', (c.match? r types #[]).1 = some b') : c.Uniform r arguments := by
  have hLiterals : ∀ literal tag value, (.lit literal, .tagged tag value) ∈ c.params.zip arguments →
      r.Comparable literal.plainType (.named tag) := by
    intro literal tag value hMem
    obtain ⟨b', hMatch⟩ := hShown _ (shownAs_ownType hLow)
    obtain ⟨ds, hDemands, -⟩ := (match?_type #[] b').mp hMatch
    have hOwn : (Pattern.lit literal, Ty.named tag) ∈
        c.params.zip (arguments.map Value.ownType) := by
      rw [List.zip_map_right]
      exact List.mem_map.mpr ⟨_, hMem, rfl⟩
    have hAccepted : (if Matchable.litMatch r literal (Ty.named tag) then some []
        else none : Option Demands).isSome = true := isSome_of_demandsEach hDemands _ _ hOwn
    split at hAccepted
    · rename_i hLit
      rw [← typeAtOnce_of_isSimple r (hPatterns _ (List.of_mem_zip hMem).1).1]
      exact Bool.or_eq_true _ _ |>.mp hLit
    · cases hAccepted
  refine ⟨hLiterals, ?_⟩
  intro ds hDemands name t u ht hu
  have hPair : ∀ t u, [(name, t), (name, u)].Sublist ds → r.Comparable t u := by
    intro t u hSub
    by_cases htAny : t = Ty.any
    · exact .inr (htAny ▸ Registry.le_any r u)
    by_cases huAny : u = Ty.any
    · exact .inl (huAny ▸ Registry.le_any r t)
    obtain ⟨types, hTypes, hEach⟩ := exists_shownAs_of_sublist hr hPatterns hLow hLiterals hDemands
      hSub fun demand hMem => by
        rcases List.mem_cons.mp hMem with rfl | hMem
        · exact htAny
        · rw [List.mem_singleton.mp hMem]
          exact huAny
    obtain ⟨b', hMatch⟩ := hShown types hTypes
    obtain ⟨es, hDemands', hWiden⟩ := (match?_type #[] b').mp hMatch
    rw [hEach] at hDemands'
    cases hDemands'
    exact Registry.comparable_of_widenAll hWiden
  rcases sublist_of_mem_of_mem ht hu with hEq | hSub | hSub
  · cases hEq
    exact .inl (Registry.le_self r t)
  · exact hPair t u hSub
  · exact (hPair u t hSub).symm

/-! ## Choosing -/

section

variable {α β : Type} [Matchable α] [Matchable β] {r : Registry}

/-- Where the clause that is chosen matches something else, no later one is chosen
for that. -/
theorem chooseFrom_le {xs : List α} {ys : List β} {choice : Choice}
    (hMatch : ∀ asked, ∃ b, (choice.clause.match? r ys asked).1 = some b) :
    ∀ {clauses : List Clause} {index : Nat} {asked asked' : AskedTypes},
      (chooseFrom r xs index clauses asked).1 = some choice →
      ∃ choice', (chooseFrom r ys index clauses asked').1 = some choice' ∧
        choice'.index ≤ choice.index := by
  intro clauses
  induction clauses with
  | nil => exact fun h => nomatch h
  | cons c clauses ih =>
      intro index asked asked' h
      have hIndex : index ≤ choice.index := (match?_of_chooseFrom h).2.1
      rcases hFirst : c.match? r xs asked with ⟨matched, after⟩
      rcases hOther : c.match? r ys asked' with ⟨matched', after'⟩
      rw [chooseFrom_cons hFirst] at h
      rw [chooseFrom_cons hOther]
      cases matched' with
      | some b => exact ⟨⟨index, c, b⟩, rfl, hIndex⟩
      | none =>
          cases matched with
          | none => exact ih h
          | some b =>
              cases h
              obtain ⟨b', hSome⟩ := hMatch asked'
              rw [hOther] at hSome
              cases hSome

end

/-- **Which calls that run pass the check.**  A call whose arguments are uniform for
the clause that it selects may select this clause or an earlier one, whatever the
checker knows of the arguments.  And where no signature has a variable, it takes
uniform arguments for the clause to be acceptable whatever the checker knows. -/
theorem static_choice_of_choice {r : Registry} (hr : r.Reached) {clauses : List Clause}
    {arguments : List Value} {asked : AskedTypes} {choice : Choice}
    (hSimple : ∀ c ∈ clauses, ∀ p ∈ c.params, p.isSimple = true)
    (hLow : ∀ v ∈ arguments, v.HasLowType r)
    (h : (choose? r clauses arguments asked).1 = some choice) :
    (choice.clause.Uniform r arguments → ∀ types, List.Forall₂ Value.ShownAs arguments types →
      ∃ choice', chooseStatic? r clauses types = some choice' ∧ choice'.index ≤ choice.index) ∧
    ((∀ p ∈ choice.clause.params, p.hasSignatureVars = false) →
      (∀ types, List.Forall₂ Value.ShownAs arguments types →
        (chooseStatic? r [choice.clause] types).isSome = true) →
      choice.clause.Uniform r arguments) := by
  obtain ⟨hMem, -, asked', hMatch⟩ := match?_of_chooseFrom h
  have hPatterns := hSimple choice.clause hMem
  constructor
  · intro hUniform types hShown
    exact chooseFrom_le (fun _ => match?_of_uniform hr hPatterns hLow hUniform hShown hMatch _) h
  · intro hVars hAccepted
    refine uniform_of_match? hr (fun p hp => ⟨hPatterns p hp, hVars p hp⟩) hLow ?_
    intro types hShown
    obtain ⟨choice', hChoice⟩ := Option.isSome_iff_exists.mp (hAccepted types hShown)
    obtain ⟨hOnly, -, after, hStatic⟩ := match?_of_chooseFrom hChoice
    rw [List.mem_singleton.mp hOnly] at hStatic
    obtain ⟨ds, hDemands, hWiden⟩ := (match?_type after choice'.bindings).mp hStatic
    exact ⟨choice'.bindings, (match?_type #[] choice'.bindings).mpr ⟨ds, hDemands, hWiden⟩⟩

/-- A clause with these parameters. -/
def Clause.accepting (params : List Pattern) : Clause := ⟨params, none, .lit .nil, false, false⟩

/-- A list and one more element, all of one type. -/
def appending : Clause := .accepting [.typed "xs" (.list (.var "a")), .typed "x" (.var "a")]

/-- Numbers are appended to numbers, whatever the checker knows of them. -/
theorem static_choice_of_appending :
    let arguments := [Value.ofList {} [.int 1, .int 2], .int 3]
    (choose? {} [appending] arguments #[]).1.isSome = true ∧
      ∀ types, List.Forall₂ Value.ShownAs arguments types →
        ∃ choice, chooseStatic? {} [appending] types = some choice ∧ choice.index ≤ 0 := by
  intro arguments
  have hChoice : (choose? {} [appending] arguments #[]).1 =
      some ⟨0, appending, ⟨[("a", Ty.int)]⟩⟩ := by rfl
  refine ⟨by rw [hChoice]; rfl, ?_⟩
  refine (static_choice_of_choice (r := {}) .empty ?_ ?_ hChoice).1 ?_
  · intro c hc p hp
    rw [List.mem_singleton.mp hc] at hp
    rcases List.mem_cons.mp hp with rfl | hp
    · rfl
    · rw [List.mem_singleton.mp hp]
      rfl
  · intro v hv
    rcases List.mem_cons.mp hv with rfl | hv
    · exact ⟨.list Ty.int, rfl, by decide⟩
    · rw [List.mem_singleton.mp hv]
      exact ⟨Ty.int, rfl, by decide⟩
  · constructor
    · intro literal tag value hMem
      have hParam : Pattern.lit literal ∈ appending.params := (List.of_mem_zip hMem).1
      simp [appending, Clause.accepting] at hParam
    · intro ds hDemands name t u ht hu
      have hAsked : Registry.demandsEach (Pattern.asksOfValue {}) appending.params arguments =
          some [("a", Ty.int), ("a", Ty.int)] := by rfl
      rw [hAsked] at hDemands
      cases hDemands
      have hInt : ∀ t, (name, t) ∈ [("a", Ty.int), ("a", Ty.int)] → t = Ty.int := by
        simp
      rw [hInt t ht, hInt u hu]
      exact .inl (Registry.le_self {} Ty.int)

/-- The registry with two types below `int` and one that is below nothing but `any`. -/
def units : Registry :=
  { parents := ⟨[("metre", Ty.int), ("second", Ty.int), ("box", Ty.any)]⟩ }

/-- **Three calls that run and do not pass the check.**  A list of unknown elements
and then two types that are not comparable; an argument of which nothing is known
and then two such types; and a tagged value that equals a literal. -/
theorem running_call_fails_check :
    let apart := Clause.accepting
      [.typed "xs" (.list (.var "a")), .typed "x" (.var "a"), .typed "y" (.var "a")]
    let mixed := [Value.ofList units [.int 1, .str "x"], .int 2, .str "y"]
    let same := Clause.accepting
      [.typed "x" (.var "a"), .typed "y" (.var "a"), .typed "z" (.var "a")]
    let lengths := [Value.int 1, .tagged "metre" (.int 1), .tagged "second" (.int 1)]
    let one := Clause.accepting [.lit (.int 1)]
    let boxed := [Value.tagged "box" (.int 1)]
    ((choose? units [apart] mixed #[]).1.map Choice.index = some 0 ∧
        List.Forall₂ Value.ShownAs mixed [Ty.listAny, Ty.int, Ty.str] ∧
        (chooseStatic? units [apart] [Ty.listAny, Ty.int, Ty.str]).isNone = true) ∧
      ((choose? units [same] lengths #[]).1.map Choice.index = some 0 ∧
        List.Forall₂ Value.ShownAs lengths [Ty.any, .named "metre", .named "second"] ∧
        (chooseStatic? units [same] [Ty.any, .named "metre", .named "second"]).isNone = true) ∧
      (choose? units [one] boxed #[]).1.map Choice.index = some 0 ∧
        List.Forall₂ Value.ShownAs boxed [.named "box"] ∧
        (chooseStatic? units [one] [.named "box"]).isNone = true := by
  intro apart mixed same lengths one boxed
  refine ⟨⟨by rfl, ?_, by rfl⟩, ⟨by rfl, ?_, by rfl⟩, by rfl, ?_, by rfl⟩
  · exact .cons (.inr rfl) (.cons (.inr rfl) (.cons (.inr rfl) .nil))
  · exact .cons (.inl rfl) (.cons (.inr rfl) (.cons (.inr rfl) .nil))
  · exact .cons (.inr rfl) .nil

end ClauseLisp
