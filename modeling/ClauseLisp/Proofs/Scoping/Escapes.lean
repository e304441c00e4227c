import ClauseLisp.Proofs.Choice.Static
import ClauseLisp.Proofs.Purity.FreeCalls
import ClauseLisp.Proofs.Types.Sealed
import ClauseLisp.Proofs.Values.Elements

/-!
# Type variables that escape into inferred types

The checker works with types where evaluation has values, and a type variable stands for
nothing outside the call that it belongs to.  So what is inferred should be sealed.  Nearly
everything that the checker does seals types: it erases the types of parameters and the
results of functions that are called as values, and puts what a call has bound into the
result of the clause.

Three things do not.  The annotation of a `set` and the cast of a block are taken as they
stand.  And a call may bind a variable to a type that it found inside a signature of an
argument; outside of the signature that type need not be sealed, and then the call *reveals*
a variable of the signature.  A program without these three has sealed types everywhere, and
each of them makes a type that is not.

## Main results

* `Clause.reveals_iff` — what the result of a call has to do with what the call reveals.
* `Check.exprType_sealed`, `Visits.seals` — the walk over a program keeps types sealed.
* `inferred_sealed_iff` — in which programs all inferred types are sealed.
* `variables_escape` — three programs in which they are not.
-/

namespace ClauseLisp

open Ty (Registry Bindings Demands AllSealed)

/-! ## Literals -/

/-- The type of a value that the language makes is sealed. -/
theorem Value.Remade.sealed {r : Registry} (hr : r.Reached) {v : Value} (h : v.Remade r) :
    ∀ {t : Ty}, v.fixedType? = some t → t.Sealed := by
  induction h with
  | @cell head tail ty hHead hTail hElem _ ihHead ihTail =>
      intro t hType
      cases hType
      obtain ⟨first, hFirst, -⟩ := hHead.typed
      have hSealed : first.Sealed := ihHead hFirst
      cases hTail with
      | @cell next rest others _ _ _ _ =>
          simp only [elemTypeOf, hFirst] at hElem
          split at hElem
          · rename_i hJoin
            cases hElem
            have hOthers : others.Sealed := Ty.sealed_list.mp (ihTail rfl)
            exact Ty.sealed_list.mpr (Registry.sealed_fixedJoin? hr hJoin hSealed hOthers)
          · cases hElem
      | _ =>
        simp only [elemTypeOf, hFirst] at hElem
        cases hElem
        exact hSealed
  | _ =>
    intro t hType
    cases hType
    rfl

theorem Value.Remade.sealed_typeAtOnce {r : Registry} (hr : r.Reached) {v : Value}
    (h : v.Remade r) : (v.typeAtOnce r).Sealed := by
  obtain ⟨t, hType, -⟩ := h.typed
  rw [Value.typeAtOnce, Value.typeOf_of_fixedType? hType]
  exact h.sealed hr hType

/-! ## Calls that reveal a variable -/

/-- A call of a clause reveals a variable: all that is asked of the variable of its result is
one type, and that has a variable outside signatures. -/
def Clause.Reveals (r : Registry) (c : Clause) (arguments : List Ty) : Prop :=
  ∃ name ds t, c.ret.bind Ty.exposed? = some name ∧
    Registry.demandsEach (Pattern.asksOfType r) c.params arguments = some ds ∧
    ¬ t.Sealed ∧ (name, t) ∈ ds ∧ ∀ u, (name, u) ∈ ds → u = t

/-- **The declared result of a call is sealed** exactly if the call reveals nothing. -/
theorem Clause.reveals_iff {r : Registry} (hr : r.Reached) {clauses : List Clause}
    {arguments : List Ty} {choice : Choice}
    (h : chooseStatic? r clauses arguments = some choice) :
    choice.clause.Reveals r arguments ↔ ¬ (choice.ret?.getD Ty.any).Sealed := by
  obtain ⟨-, -, asked, hMatch⟩ := match?_of_chooseFrom h
  have hAsks : ∀ p t, (p, t) ∈ choice.clause.params.zip arguments →
      MatchAsks r p t (p.asksOfType r t) := fun p t _ => matchAsks_type r p t
  obtain ⟨hSame, hMeets⟩ := match?_asks hAsks
  rw [hSame asked] at hMatch
  obtain ⟨ds, hDemands, hWiden⟩ := (hMeets choice.bindings).mp hMatch
  rw [Choice.ret?]
  cases hRet : choice.clause.ret with
  | none =>
      refine iff_of_false ?_ (not_not.mpr rfl)
      rintro ⟨name, _, _, hName, -⟩
      rw [hRet] at hName
      cases hName
  | some ret =>
      have hSealed : ((Option.map choice.bindings.apply (some ret)).getD Ty.any).Sealed ↔ _ :=
        Ty.sealed_apply_iff choice.bindings ret
      rw [hSealed]
      constructor
      · rintro ⟨name, ds', t, hName, hDemands', ht, hAsked⟩ hAll
        cases hDemands.symm.trans hDemands'
        rw [hRet] at hName
        exact ht (hAll name t hName ((Registry.get?_widenAll_iff hr ht hWiden).mpr hAsked))
      · intro hNot
        simp only [not_forall] at hNot
        obtain ⟨name, t, hName, hGet, ht⟩ := hNot
        refine ⟨name, ds, t, by rw [hRet]; exact hName, hDemands, ht, ?_⟩
        exact (Registry.get?_widenAll_iff hr ht hWiden).mp hGet

/-- What patterns ask of a variable outside their signatures is sealed if the types shown are. -/
theorem sealed_of_mem_demandsEach {r : Registry} (hr : r.Reached) {name : String} {t : Ty} :
    ∀ {ps : List Pattern} {arguments : List Ty} {ds : Demands},
      Registry.demandsEach (Pattern.asksOfType r) ps arguments = some ds →
      (∀ a ∈ arguments, a.Sealed) →
      (∀ p ∈ ps, ∀ ty, p.type? = some ty → name ∉ ty.signatureNames) →
      (name, t) ∈ ds → t.Sealed
  | [], [], _, hDemands, _, _, hMem => by
    cases hDemands
    cases hMem
  | [], _ :: _, _, hDemands, _, _, _ => nomatch hDemands
  | _ :: _, [], _, hDemands, _, _, _ => nomatch hDemands
  | p :: ps, a :: arguments, _, hDemands, hSealed, hOutside, hMem => by
    obtain ⟨first, others, hFirst, hOthers, rfl⟩ := Registry.bothDemands_eq_some hDemands
    obtain ⟨ha, hRest⟩ := List.forall_mem_cons.mp hSealed
    obtain ⟨hHere, hThere⟩ := List.forall_mem_cons.mp hOutside
    rcases List.mem_append.mp hMem with hMem | hMem
    · cases p with
      | lit literal =>
          rw [Pattern.asksOfType] at hFirst
          split at hFirst <;> cases hFirst
          cases hMem
      | bind other =>
          cases hFirst
          cases hMem
      | typed other declared =>
          have hNothing : some [] = some first → t.Sealed := by
            intro hSame
            cases hSame
            cases hMem
          have hAsks : r.demands declared a = some first → t.Sealed := fun h =>
            Registry.sealed_of_mem_demandsWithin hr h ha (hHere declared rfl) hMem
          rw [Pattern.asksOfType] at hFirst
          unfold Ty.shownDemands at hFirst
          split at hFirst
          · exact hNothing hFirst
          · split at hFirst
            · split at hFirst
              · exact hNothing hFirst
              · exact hAsks hFirst
            · exact hAsks hFirst
    · exact sealed_of_mem_demandsEach hr hOthers hRest hThere hMem

/-- The variable of the result, if it has one outside signatures, stands in no signature of a
parameter. -/
def Clause.ResultOutside (c : Clause) : Prop :=
  ∀ name, c.ret.bind Ty.exposed? = some name →
    ∀ p ∈ c.params, ∀ ty, p.type? = some ty → name ∉ ty.signatureNames

/-- **A variable outside the signatures of the parameters is not revealed.** -/
theorem Clause.not_reveals {r : Registry} (hr : r.Reached) {c : Clause} {arguments : List Ty}
    (hSealed : ∀ a ∈ arguments, a.Sealed)
    (hOutside : c.ResultOutside) :
    ¬ c.Reveals r arguments := by
  rintro ⟨name, ds, t, hName, hDemands, ht, hMem, -⟩
  exact ht (sealed_of_mem_demandsEach hr hDemands hSealed (hOutside name hName) hMem)

/-- The type that stands in the code for a `set` or a block. -/
def Expr.declared? : Expr → Option Ty
  | .set _ ty _ _ => ty
  | .block _ cast => cast
  | _ => none

/-- The type of a function is a signature or `func`. -/
theorem Function.sealed_signature (g : Function) : g.signature.Sealed := by
  unfold Function.signature
  split
  · rfl
  · split
    · rename_i t hSignature
      have hSealed : t.Sealed := by
        unfold Clause.signature? at hSignature
        split at hSignature <;> cases hSignature
        rfl
      split
      · exact hSealed
      · rfl
    · rfl

/-! ## Scopes -/

namespace Check

open Ty (AllSealed)

theorem allSealed_withSetNames :
    ∀ (es : List Expr) {scope : Dict Ty}, AllSealed scope → AllSealed (withSetNames scope es) := by
  intro es
  induction es with
  | nil => exact id
  | cons e es ih =>
      intro scope h
      cases e with
      | set name ty value claims => exact ih (h.insertNew name rfl)
      | _ => exact ih h

theorem allSealed_withParams :
    ∀ (ps : List Pattern) {scope : Dict Ty}, AllSealed scope → AllSealed (withParams scope ps) := by
  intro ps
  induction ps with
  | nil => exact id
  | cons q ps ih =>
      intro scope h
      cases q with
      | lit value => exact ih h
      | bind name => exact ih (h.insert name rfl)
      | typed name ty => exact ih (h.insert name ty.sealed_erase)

theorem allSealed_setScope {name : String} {value : Expr} {scope : Dict Ty} (h : AllSealed scope) :
    AllSealed (setScope name value scope) := by
  unfold setScope
  split
  · exact h.insertNew name rfl
  · exact h

/-! ## Names and calls -/

/-- A step that infers a sealed type, whatever has been found before. -/
def InfersSealed (x : Checking Ty) : Prop := ∀ f, (x f).1.Sealed

theorem InfersSealed.pure {t : Ty} (ht : t.Sealed) : InfersSealed (Pure.pure t) := fun _ => ht

theorem InfersSealed.bind {α : Type} {x : Checking α} {y : α → Checking Ty}
    (h : ∀ a, InfersSealed (y a)) : InfersSealed (x >>= y) := fun f => h (x f).1 (x f).2

section

variable {p : Program} {context : Option Context} {f : Findings}

theorem sealed_nameType (h : AllSealed f.scope) (name : String) :
    (nameType p context name f).1.Sealed := by
  unfold nameType
  rw [get_bind_apply]
  cases hScope : f.scope.get? name with
  | some ty => exact h name ty hScope
  | none =>
      cases p.function? name with
      | some g => exact g.sealed_signature
      | none =>
          cases p.types.parent? name with
          | some parent => exact rfl
          | none => cases Builtin.find? name <;> exact rfl

/-- A call of a value erases the result. -/
theorem sealed_valueCallType (name : String) (callee : Ty) (arguments : List Ty) :
    InfersSealed (valueCallType p context name callee arguments) := by
  unfold valueCallType
  split
  · exact .bind fun _ => .pure rfl
  · split
    · dsimp only
      split
      · exact .pure (Ty.sealed_erase _)
      · exact .bind fun _ => .pure rfl
    · exact .pure rfl

theorem sealed_listType? {r : Registry} (hr : r.Reached) {id : String} {arguments : List Ty}
    {t : Ty} (h : listType? r id arguments = some t) (hSealed : ∀ a ∈ arguments, a.Sealed) : t.Sealed := by
  unfold listType? at h
  split at h
  · split at h
    · cases h
      rfl
    · cases h
      obtain ⟨hFirst, hRest⟩ := List.forall_mem_cons.mp hSealed
      exact Registry.sealed_foldl_join hr hRest hFirst
  · split at h
    · split at h
      · cases h
        obtain ⟨hHead, hTail⟩ := List.forall_mem_cons.mp hSealed
        have hElem := Ty.sealed_list.mp (hTail _ (List.mem_singleton_self _))
        exact Ty.sealed_list.mpr (Registry.sealed_join hr hHead hElem)
      · cases h
    · cases h

/-- No builtin declares a signature for an argument. -/
theorem isArrowTower_of_paramAt {b : Builtin} {name : String} (hFound : Builtin.find? name = some b)
    {position : Nat} {param : Ty} (hParam : b.signature.paramAt position = some param) :
    param.isArrowTower = false := by
  have hTable : ∀ b ∈ Builtin.table,
      ∀ param ∈ b.signature.params ++ b.signature.rest.toList, param.isArrowTower = false := by
    decide
  refine hTable b (List.mem_of_find?_eq_some hFound) param (List.mem_append.mpr ?_)
  rcases Option.or_eq_some_iff.mp hParam with hFixed | ⟨-, hRest⟩
  · exact .inl (List.mem_of_getElem? hFixed)
  · exact .inr (Option.mem_toList.mpr hRest)

/-- What is not known asks for nothing, and the rest is matched. -/
theorem allSealed_matches {r : Registry} (hr : r.Reached) {declared actual : Ty}
    (hDeclared : declared.isArrowTower = false) (hActual : actual.Sealed) {b : Ty.Bindings}
    (hb : AllSealed b) : AllSealed (Ty.matches r declared actual b).2 := by
  have hUnify : AllSealed (r.unify declared actual b).2 :=
    Registry.sealed_unifyWithin hr hDeclared hActual hb
  unfold Ty.matches
  split
  · exact hb
  · split
    · split
      · exact hb
      · exact hUnify
    · exact hUnify

theorem allSealed_checkArguments (hr : p.types.Reached) {b : Builtin}
    (hParams : ∀ position param, b.signature.paramAt position = some param →
      param.isArrowTower = false) :
    ∀ {arguments : List Ty} (position : Nat) {bindings : Ty.Bindings} {f : Findings},
      (∀ a ∈ arguments, a.Sealed) → AllSealed bindings →
      AllSealed (checkArguments p context b position bindings arguments f).1 := by
  intro arguments
  induction arguments with
  | nil =>
      intro _ _ _ _ hBindings
      exact hBindings
  | cons argument arguments ih =>
      intro position bindings f hSealed hBindings
      obtain ⟨hFirst, hRest⟩ := List.forall_mem_cons.mp hSealed
      rw [checkArguments]
      cases hParam : b.signature.paramAt position with
      | none => exact ih (position + 1) hRest hBindings
      | some param =>
          have hMatched : AllSealed (Ty.matches p.types param argument bindings).2 :=
            allSealed_matches hr (hParams position param hParam) hFirst hBindings
          dsimp only
          split
          · exact ih (position + 1) hRest hMatched
          · exact ih (position + 1) hRest hMatched

/-- A call of a builtin has a sealed type if the arguments have. -/
theorem sealed_builtinCallType (hr : p.types.Reached) {name : String} {b : Builtin}
    (hFound : Builtin.find? name = some b) {arguments : List Ty}
    (hSealed : ∀ a ∈ arguments, a.Sealed) :
    InfersSealed (builtinCallType p context b arguments) := by
  unfold builtinCallType
  cases b.arity.fault? arguments.length with
  | some error => exact .bind fun _ => .pure (Ty.sealed_erase _)
  | none =>
      cases hList : listType? p.types b.id arguments with
      | some ty => exact .pure (sealed_listType? hr hList hSealed)
      | none =>
          intro f
          have hBindings : AllSealed (checkArguments p context b 0 Dict.empty arguments f).1 :=
            allSealed_checkArguments hr (fun _ _ => isArrowTower_of_paramAt hFound) 0 hSealed .empty
          exact hBindings.apply b.signature.ret

/-- Where something that is not sealed comes from: what stands in the code, or a call with
arguments that are sealed. -/
inductive Exposes (p : Program) (f : Findings) : Site → Prop where
  /-- The annotation of a `set`, or the cast of a block. -/
  | declared {e : Expr} {ty : Ty} : e.declared? = some ty → ¬ ty.Sealed → Exposes p f (.value e)
  /-- A call of a function that reveals a variable. -/
  | call {name : String} {arguments : List Ty} {g : Function} {choice : Choice} :
      (∀ a ∈ arguments, a.Sealed) → f.scope.contains name = false → p.function? name = some g →
      chooseStatic? p.types g.clauses arguments = some choice →
      choice.clause.Reveals p.types arguments → Exposes p f (.callee name arguments)

/-- A call of a function, type constructor or builtin has a sealed type if the arguments have,
unless it is one of a function that reveals a variable. -/
theorem sealed_namedCallType (hr : p.types.Reached) {name : String} {arguments : List Ty}
    (hSealed : ∀ a ∈ arguments, a.Sealed)
    (hReveals : ∀ g choice, p.function? name = some g →
      chooseStatic? p.types g.clauses arguments = some choice →
      ¬ choice.clause.Reveals p.types arguments) :
    InfersSealed (namedCallType p context name arguments) := by
  unfold namedCallType
  cases hFunction : p.function? name with
  | some g =>
      refine .bind fun _ => ?_
      cases hChoice : chooseStatic? p.types g.clauses arguments with
      | some choice =>
          have hNone := hReveals g choice hFunction hChoice
          exact .pure (not_not.mp ((Clause.reveals_iff hr hChoice).not.mp hNone))
      | none => exact .bind fun _ => .pure rfl
  | none =>
      cases p.types.parent? name with
      | some parent =>
          dsimp only
          split <;> exact .bind fun _ => .pure rfl
      | none =>
          cases hBuiltin : Builtin.find? name with
          | some b => exact .bind fun _ => sealed_builtinCallType hr hBuiltin hSealed
          | none => exact .bind fun _ => .pure rfl

/-- **A call by name has a sealed type** if the arguments have, and it exposes nothing. -/
theorem sealed_calleeType (hr : p.types.Reached) {name : String} {arguments : List Ty}
    (hSealed : ∀ a ∈ arguments, a.Sealed) (hNone : ¬ Exposes p f (.callee name arguments)) :
    (calleeType p context name arguments f).1.Sealed := by
  unfold calleeType
  rw [get_bind_apply]
  cases hScope : f.scope.contains name with
  | true => exact sealed_valueCallType name _ arguments _
  | false =>
      refine sealed_namedCallType hr hSealed (fun g choice hFunction hChoice hReveals => ?_) f
      exact hNone (.call hSealed hScope hFunction hChoice hReveals)

/-- The type of a lambda is a signature or `func`. -/
theorem sealed_lambdaResult (params : List Pattern) (ret : Option Ty) (found : Ty) :
    InfersSealed (lambdaResult p context params ret found) := by
  refine .bind fun _ => ?_
  cases Pattern.types? params with
  | some types => exact .pure rfl
  | none => exact .pure rfl

/-! ## Expressions -/

/-- A step that infers a sealed type and leaves sealed types in scope. -/
def Seals (x : Checking Ty) (f : Findings) : Prop := (x f).1.Sealed ∧ AllSealed (x f).2.scope

/-- What every step keeps is kept by all of them. -/
theorem allSealed_after {α β : Type} {x : α → Checking β} :
    ∀ {items : List α} {f : Findings}, AllSealed f.scope →
      (∀ before item rest, items = before ++ item :: rest →
        AllSealed (after x f before).scope → AllSealed (x item (after x f before)).2.scope) →
      AllSealed (after x f items).scope := by
  intro items
  induction items with
  | nil => exact fun h _ => h
  | cons item items ih =>
      intro f hScope h
      refine ih (h [] item items rfl hScope) fun before other rest hItems => ?_
      exact h (item :: before) other rest (congrArg (item :: ·) hItems)

/-- So it is kept by those that come first. -/
theorem allSealed_before {α β : Type} {x : α → Checking β} (before rest : List α) {f : Findings}
    (hScope : AllSealed f.scope)
    (h : ∀ earlier item later, before ++ rest = earlier ++ item :: later →
      AllSealed (after x f earlier).scope → AllSealed (x item (after x f earlier)).2.scope) :
    AllSealed (after x f before).scope := by
  refine allSealed_after hScope fun earlier item later hBefore => h earlier item (later ++ rest) ?_
  rw [hBefore, List.append_assoc, List.cons_append]

/-- What is said about types leaves the scope as it is. -/
theorem Judges.allSealed {α : Type} {x : Checking α} (hx : Judges x) (h : AllSealed f.scope) :
    AllSealed (x f).2.scope := by
  rw [(hx f).1]
  exact h

/-- The types of several expressions are sealed if each is after those before it. -/
theorem seals_exprTypes :
    ∀ {es : List Expr} {f : Findings}, AllSealed f.scope →
      (∀ before e rest, es = before ++ e :: rest →
        AllSealed (after (exprType p context) f before).scope →
        Seals (exprType p context e) (after (exprType p context) f before)) →
      (∀ t ∈ (exprTypes p context es f).1, t.Sealed) ∧
        AllSealed (exprTypes p context es f).2.scope := by
  intro es
  induction es with
  | nil => exact fun h _ => ⟨List.forall_mem_nil _, h⟩
  | cons e es ih =>
      intro f hScope h
      obtain ⟨hType, hAfter⟩ := h [] e es rfl hScope
      obtain ⟨hTypes, hRest⟩ := ih hAfter fun before other rest hItems =>
        h (e :: before) other rest (congrArg (e :: ·) hItems)
      exact ⟨List.forall_mem_cons.mpr ⟨hType, hTypes⟩, hRest⟩

theorem seals_lastType :
    ∀ {es : List Expr} {last : Ty} {f : Findings}, last.Sealed → AllSealed f.scope →
      (∀ before e rest, es = before ++ e :: rest →
        AllSealed (after (exprType p context) f before).scope →
        Seals (exprType p context e) (after (exprType p context) f before)) →
      Seals (lastType p context last es) f := by
  intro es
  induction es with
  | nil => exact fun hLast hScope _ => ⟨hLast, hScope⟩
  | cons e es ih =>
      intro last f _ hScope h
      obtain ⟨hType, hAfter⟩ := h [] e es rfl hScope
      exact ih hType hAfter fun before other rest hItems =>
        h (e :: before) other rest (congrArg (e :: ·) hItems)

/-- The operands of `and` and `or` leave sealed types if each does. -/
theorem seals_operandsType (form : String) {es : List Expr} {f : Findings}
    (hScope : AllSealed f.scope)
    (h : ∀ before e rest, es = before ++ e :: rest →
      AllSealed (after (operandType p context form) f before).scope →
      Seals (exprType p context e) (after (operandType p context form) f before)) :
    Seals (operandsType p context form es) f := by
  refine ⟨?_, ?_⟩
  · clear h hScope
    induction es generalizing f with
    | nil => rfl
    | cons e es ih =>
        rw [operandsType_cons]
        exact ih
  · rw [operandsType_state]
    refine allSealed_after hScope fun before e rest hItems hBefore => ?_
    exact (operandResult_judges form _).allSealed (h before e rest hItems hBefore).2

end

end Check

open Check

section

variable {p : Program} {K : Construct} {site : Site} {f : Findings} (hp : p.Loaded)

include hp

/-- The values that are written where the checker gets to are values that the program has. -/
theorem Visits.carries {P : Value → Prop} (hCarries : p.Carries p.types P)
    (h : Visits p K site f) : site.expr.Carries P := by
  induction h with
  | statement hStatements =>
      refine hCarries.statements _ ?_
      rw [hStatements]
      exact List.mem_append_right _ List.mem_cons_self
  | @clause before rest function c hClauses =>
      have hItem : (function, c) ∈ clausesOf p := by simp [hClauses]
      obtain ⟨g, hFunction, hClause⟩ := List.mem_flatMap.mp hItem
      obtain ⟨entry, hEntry, rfl⟩ := List.mem_map.mp hFunction
      obtain ⟨c, hMem, ⟨⟩⟩ := List.mem_map.mp hClause
      have hFound := hp.function?_of_mem (List.mem_mergeSort.mp hEntry)
      exact ((hCarries.functions _ _ hFound).clauses c hMem).body
  | item _ ih => exact Expr.allHave_literalsOf.mp ih _ (List.mem_append_right _ List.mem_cons_self)
  | body _ ih => exact (List.forall_mem_append.mp ih).2
  | test _ ih => exact (List.forall_mem_append.mp (List.forall_mem_append.mp ih).1).1
  | yes _ ih => exact (List.forall_mem_append.mp (List.forall_mem_append.mp ih).1).2
  | no _ ih => exact (List.forall_mem_append.mp ih).2
  | set _ ih => exact ih
  | conj _ ih => exact Expr.allHave_literalsOf.mp ih _ (List.mem_append_right _ List.mem_cons_self)
  | disj _ ih => exact Expr.allHave_literalsOf.mp ih _ (List.mem_append_right _ List.mem_cons_self)
  | argument _ ih =>
      refine Expr.allHave_literalsOf.mp (List.forall_mem_append.mp ih).2 _ ?_
      exact List.mem_append_right _ List.mem_cons_self
  | named _ ih => exact List.forall_mem_nil P
  | callee _ _ ih => exact (List.forall_mem_append.mp ih).1

/-- **Checking an expression keeps types sealed** in a program that exposes nothing. -/
theorem Check.exprType_sealed (hNone : ∀ K site f, Visits p K site f → ¬ Exposes p f site)
    (e : Expr) {K : Construct} {f : Findings} (h : Visits p K (.value e) f)
    (hScope : AllSealed f.scope) : Seals (exprType p K.context e) f := by
  have hSound := hp.sound Value.remade_lasting
  have hr : p.types.Reached := hSound.reached
  cases e with
  | lit value =>
      have hValue := h.carries hp hSound.carries value (List.mem_singleton_self value)
      exact ⟨hValue.2.sealed_typeAtOnce hr, hScope⟩
  | var name =>
      refine ⟨sealed_nameType hScope name, ?_⟩
      rw [exprType, (nameType_adds name f).1]
      exact hScope
  | cond test yes no =>
      rw [exprType_cond]
      have hTest := (exprType_sealed hNone test (.test h) hScope).2
      have hYes := exprType_sealed hNone yes (.yes h) ((testResult_judges _).allSealed hTest)
      have hNo := exprType_sealed hNone no (.no h) hYes.2
      exact ⟨Registry.sealed_join hr hYes.1 hNo.1, hNo.2⟩
  | block body cast =>
      have hLast : Seals (lastType p K.context Ty.listAny body)
          { f with scope := withSetNames f.scope body } := by
        refine seals_lastType rfl (allSealed_withSetNames body hScope) fun before e rest hBody => ?_
        have hMem : e ∈ body := by simp [hBody]
        subst hBody
        exact exprType_sealed hNone e (K := K.block (before ++ e :: rest) cast) (.item h)
      rw [exprType_block]
      refine ⟨?_, (blockResult_judges cast _).allSealed hScope⟩
      cases cast with
      | none => exact hLast.1
      | some ty => exact not_not.mp fun hTy => hNone _ _ _ h (.declared rfl hTy)
  | set name ty value claims =>
      have hValue := exprType_sealed hNone value (.set h) (allSealed_setScope hScope)
      rw [exprType_set]
      cases ty with
      | none => exact ⟨hValue.1, hValue.2.insert name hValue.1⟩
      | some ty =>
          have hTy : ty.Sealed := not_not.mp fun hTy => hNone _ _ _ h (.declared rfl hTy)
          exact ⟨hTy, ((demand_judges "set" _ ty).allSealed hValue.2).insert name hTy⟩
  | lambda params ret body =>
      rw [exprType_lambda]
      refine ⟨sealed_lambdaResult params ret _ _, ?_⟩
      exact (lambdaResult_judges params ret _).allSealed hScope
  | conj operands =>
      refine seals_operandsType "and" hScope fun before e rest hOperands => ?_
      have hMem : e ∈ operands := by simp [hOperands]
      subst hOperands
      exact exprType_sealed hNone e (.conj h)
  | disj operands =>
      refine seals_operandsType "or" hScope fun before e rest hOperands => ?_
      have hMem : e ∈ operands := by simp [hOperands]
      subst hOperands
      exact exprType_sealed hNone e (.disj h)
  | call callee args =>
      have hAll : (∀ t ∈ (exprTypes p K.context args f).1, t.Sealed) ∧
          AllSealed (exprTypes p K.context args f).2.scope := by
        refine seals_exprTypes hScope fun before e rest hArgs => ?_
        have hMem : e ∈ args := by simp [hArgs]
        subst hArgs
        exact exprType_sealed hNone e (.argument h)
      obtain ⟨hTypes, hArgs⟩ := hAll
      by_cases hName : ∃ name, callee = .var name
      · obtain ⟨name, rfl⟩ := hName
        have hCall := hNone _ _ _ (.named h)
        rw [← exprTypes_state] at hCall
        rw [exprType_call_named]
        refine ⟨sealed_calleeType hr hTypes hCall, ?_⟩
        show AllSealed (calleeType p K.context name _ _).2.scope
        rw [(calleeType_adds name _ _).1]
        exact hArgs
      · rw [exprType_call p K.context (not_exists.mp hName)]
        have hVisit : Visits p K (.value callee) _ := .callee (not_exists.mp hName) h
        rw [← exprTypes_state] at hVisit
        have hCallee := exprType_sealed hNone callee hVisit hArgs
        refine ⟨sealed_valueCallType "lambda" _ _ _, ?_⟩
        exact (valueCallType_judges "lambda" _ _).allSealed hCallee.2
termination_by e

/-- **Wherever the checker gets to, the types in scope are sealed** in a program that exposes
nothing. -/
theorem Visits.allSealed (hNone : ∀ K site f, Visits p K site f → ¬ Exposes p f site)
    (h : Visits p K site f) : AllSealed f.scope := by
  have hExpr : ∀ {e : Expr} {K : Construct} {f : Findings}, Visits p K (.value e) f →
      AllSealed f.scope → AllSealed (exprType p K.context e f).2.scope := fun h hScope =>
    (exprType_sealed hp hNone _ h hScope).2
  have hStart : AllSealed (start p).scope := allSealed_withSetNames p.statements .empty
  induction h with
  | @statement before rest e hStatements =>
      refine allSealed_before before (e :: rest) hStart fun earlier item later hItems => ?_
      exact hExpr (.statement (hStatements.trans hItems))
  | clause _ =>
      refine allSealed_withParams _ (allSealed_after hStart fun earlier item later hItems => ?_)
      exact hExpr (.statement hItems)
  | @item K f before rest e cast h ih =>
      have hInner := allSealed_withSetNames (before ++ e :: rest) ih
      refine allSealed_before before (e :: rest) hInner fun earlier item later hItems => ?_
      rw [hItems] at h ⊢
      exact hExpr (K := K.block (earlier ++ item :: later) cast) (.item h)
  | body _ ih => exact allSealed_withParams _ ih
  | test _ ih => exact ih
  | yes h ih => exact (testResult_judges _).allSealed (hExpr (.test h) ih)
  | no h ih => exact hExpr (.yes h) ((testResult_judges _).allSealed (hExpr (.test h) ih))
  | set _ ih => exact allSealed_setScope ih
  | @conj K f before rest e h ih =>
      refine allSealed_before before (e :: rest) ih fun earlier item later hItems hEarlier => ?_
      exact (operandResult_judges "and" _).allSealed (hExpr (.conj (hItems ▸ h)) hEarlier)
  | @disj K f before rest e h ih =>
      refine allSealed_before before (e :: rest) ih fun earlier item later hItems hEarlier => ?_
      exact (operandResult_judges "or" _).allSealed (hExpr (.disj (hItems ▸ h)) hEarlier)
  | @argument K f callee before rest e h ih =>
      refine allSealed_before before (e :: rest) ih fun earlier item later hItems => ?_
      exact hExpr (.argument (hItems ▸ h))
  | named h ih =>
      exact allSealed_after ih fun earlier item later hItems => hExpr (.argument (hItems ▸ h))
  | callee _ h ih =>
      exact allSealed_after ih fun earlier item later hItems => hExpr (.argument (hItems ▸ h))

/-- **Whatever the checker looks at**, it infers a sealed type and leaves sealed types in scope
in a program that exposes nothing. -/
theorem Visits.seals (hNone : ∀ K site f, Visits p K site f → ¬ Exposes p f site)
    (h : Visits p K site f) : Seals (site.check p K.context) f := by
  cases site with
  | value e => exact exprType_sealed hp hNone e h (h.allSealed hp hNone)
  | callee name arguments =>
      cases h with
      | @named _ f _ args hCall =>
          have hSeals := exprType_sealed hp hNone _ hCall (hCall.allSealed hp hNone)
          rw [exprType_call_named] at hSeals
          rw [← exprTypes_state]
          exact hSeals

/-- What exposes a variable is inferred to have a type that is not sealed. -/
theorem Check.Exposes.not_sealed (h : Exposes p f site) (context : Option Context) :
    ¬ (site.check p context f).1.Sealed := by
  have hr : p.types.Reached := (hp.sound Value.remade_lasting).reached
  cases h with
  | @declared e ty hDeclared hTy =>
      cases e with
      | set name declared value claims =>
          cases hDeclared
          rw [Site.check, exprType_set]
          exact hTy
      | block body cast =>
          cases hDeclared
          rw [Site.check, exprType_block]
          exact hTy
      | _ => cases hDeclared
  | @call name arguments g choice _ hScope hFunction hChoice hReveals =>
      have hType : (calleeType p context name arguments f).1 = choice.ret?.getD Ty.any := by
        unfold calleeType namedCallType
        rw [get_bind_apply, hScope, hFunction]
        dsimp only
        rw [hChoice]
        rfl
      rw [Site.check, hType]
      exact (Clause.reveals_iff hr hChoice).mp hReveals

/-- **Which calls expose nothing**: those of functions the results of which have no variable
that stands in a signature of a parameter. -/
theorem Check.Exposes.declared_of_outside
    (hOutside : ∀ name g, p.function? name = some g → ∀ c ∈ g.clauses, c.ResultOutside)
    (h : Exposes p f site) :
    ∃ e ty, site = .value e ∧ e.declared? = some ty ∧ ¬ ty.Sealed := by
  have hr : p.types.Reached := (hp.sound Value.remade_lasting).reached
  cases h with
  | declared hDeclared hTy => exact ⟨_, _, rfl, hDeclared, hTy⟩
  | call hSealed _ hFunction hChoice hReveals =>
      have hClause := hOutside _ _ hFunction _ (match?_of_chooseFrom hChoice).1
      exact absurd hReveals (Clause.not_reveals hr hSealed hClause)

end

/-- **Types that are inferred are sealed**, and so are those in scope, if and only if nothing
exposes a variable: for every loaded program, and all that the checker looks at.

If no result of a function has a variable that stands in a signature of a parameter, nothing
but the annotation of a `set` and the cast of a block exposes one. -/
theorem inferred_sealed_iff {p : Program} (hp : p.Loaded) :
    ((∀ K site f, Visits p K site f → AllSealed f.scope ∧
        Seals (site.check p K.context) f) ↔
      ∀ K site f, Visits p K site f → ¬ Exposes p f site) ∧
    ((∀ name g, p.function? name = some g → ∀ c ∈ g.clauses, c.ResultOutside) →
      ((∀ K site f, Visits p K site f → ¬ Exposes p f site) ↔
        ∀ K e f ty, Visits p K (.value e) f → e.declared? = some ty → ty.Sealed)) := by
  refine ⟨⟨fun hAll K site f h hExposes => ?_, fun hNone K site f h => ?_⟩, fun hOutside =>
    ⟨fun hNone K e f ty h hDeclared => ?_, fun hSealed K site f h hExposes => ?_⟩⟩
  · exact hExposes.not_sealed hp K.context (hAll K site f h).2.1
  · exact ⟨h.allSealed hp hNone, h.seals hp hNone⟩
  · exact not_not.mp fun hTy => hNone K (.value e) f h (.declared hDeclared hTy)
  · obtain ⟨e, ty, rfl, hDeclared, hTy⟩ := hExposes.declared_of_outside hp hOutside
    exact hTy (hSealed K e f ty h hDeclared)

/-- A program that is read from a text, without modules. -/
def Program.ofSource (source : String) : Program :=
  (Program.absorb (Loader.ofTable {}) 5 source {}).2

theorem Program.Loaded.ofSource (source : String) : (Program.ofSource source).Loaded :=
  .more (Loader.ofTable {}) 5 source .empty

/-- A program in which a number is handed to a function of numbers, three times: as a variable
the annotation of which is a type variable, from a block with such a cast, and from a function
that says, of its own, that its result is one. -/
def vague : Program :=
  .ofSource "(def f (n:int) n) (def result (g:func[a,b]) :b (g 1))
    (set x:a 1) (f x) (f (do 1 :a)) (f (result (lambda (y:int) :c y)))"

theorem loaded_vague : vague.Loaded := .ofSource _

/-- What is read from the text. -/
theorem vague_eq :
    vague =
      { functions := { entries :=
          [("f", { name := "f", clauses := [⟨[.typed "n" Ty.int], none, .var "n", false, false⟩] }),
            ("result", { name := "result", clauses :=
              [⟨[.typed "g" (.arrow [.var "a"] (.var "b"))], some (.var "b"),
                .call (.var "g") [.lit (.int 1)], false, false⟩] })] },
        statements :=
          [.set "x" (some (.var "a")) (.lit (.int 1)) false,
            .call (.var "f") [.var "x"],
            .call (.var "f") [.block [.lit (.int 1)] (some (.var "a"))],
            .call (.var "f")
              [.call (.var "result") [.lambda [.typed "y" Ty.int] (some (.var "c")) (.var "y")]]] } := by
  cbv

theorem statements_vague :
    vague.statements =
      [.set "x" (some (.var "a")) (.lit (.int 1)) false,
        .call (.var "f") [.var "x"],
        .call (.var "f") [.block [.lit (.int 1)] (some (.var "a"))],
        .call (.var "f")
          [.call (.var "result") [.lambda [.typed "y" Ty.int] (some (.var "c")) (.var "y")]]] := by
  rw [vague_eq]

/-- Since an annotation exposes a variable, not all inferred types are sealed. -/
theorem inferred_sealed_iff_of_vague :
    vague.Loaded ∧ ¬ ∀ K site f, Visits vague K site f →
      AllSealed f.scope ∧ Seals (site.check vague K.context) f := by
  refine ⟨loaded_vague, fun hAll => ?_⟩
  have hBefore : vague.statements = [] ++ .set _ (some (.var "a")) _ _ :: _ := statements_vague
  have hNone := (inferred_sealed_iff loaded_vague).1.mp hAll _ _ _ (.statement hBefore)
  exact hNone (.declared rfl (by decide))

/-- Something in a program is inferred to have a type variable for its type. -/
def Check.Leaks (p : Program) (e : Expr) (name : String) : Prop :=
  ∃ K f, Visits p K (.value e) f ∧ (exprType p K.context e f).1 = .var name

/-- **Variables escape** from an annotation, from a cast, and from a call that finds one
inside the signature of its argument.  The checker rejects the three calls that get what has
such a type, but when the program is run they are calls with numbers. -/
theorem variables_escape :
    vague.Loaded ∧
      Leaks vague (.set "x" (some (.var "a")) (.lit (.int 1)) false) "a" ∧
      Leaks vague (.block [.lit (.int 1)] (some (.var "a"))) "a" ∧
      Leaks vague
        (.call (.var "result") [.lambda [.typed "y" Ty.int] (some (.var "c")) (.var "y")]) "c" ∧
      vague.check = [.dispatch "f" ["a"], .dispatch "f" ["a"], .dispatch "f" ["c"]] ∧
      (Session.run 40 (Session.start vague)).1 = .ok (.int 1) := by
  refine ⟨loaded_vague, ?set, ?block, ?call, ?check, ?run⟩
  case set =>
    have hBefore : vague.statements = [] ++ _ :: _ := statements_vague
    exact ⟨_, _, .statement hBefore, by rw [exprType_set]; rfl⟩
  case block =>
    have hBefore : vague.statements = [_, _] ++ .call (.var "f") ([] ++ _ :: []) :: [_] :=
      statements_vague
    exact ⟨_, _, .argument (.statement hBefore), by rw [exprType_block]; rfl⟩
  case call =>
    have hBefore : vague.statements = [_, _, _] ++ .call (.var "f") ([] ++ _ :: []) :: [] :=
      statements_vague
    refine ⟨_, _, .argument (.statement hBefore), ?_⟩
    rw [vague_eq]
    cbv
  case check =>
    rw [vague_eq]
    cbv
  case run =>
    rw [vague_eq]
    cbv

end ClauseLisp
