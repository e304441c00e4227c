import ClauseLisp.Proofs.CallsByName
import ClauseLisp.Proofs.Values.Making

/-!
# Values that calls and loops hand on

Calls bind arguments, choose clauses and look results up; a loop evaluates bodies.
None of it makes a value but by means that have been dealt with, so a machine all
values in which have a hereditary property goes on so, whatever it is asked to do,
and gives values with the property only.

## Main results

* `beginCall_yields` — what a call begins with.
* `step_yields`, `loop_yields` — one step of the loop, and a whole loop.
* `exec_yields` — whatever the machine is asked to do.
-/

namespace ClauseLisp

open Ty (Registry)
open Run (Yields Preserves)

/-- A call that is done with a value, or goes on with a body, with a property. -/
def Begun.Carries (P : Value → Prop) : Begun → Prop
  | .done value => P value
  | .enter activation => activation.body.Carries P

/-- A step that is done with a value, or goes on with a task, with a property. -/
def Progress.Carries (P : Value → Prop) : Progress → Prop
  | .done value => P value
  | .next task => task.expr.Carries P

/-- A request with values that have a property. -/
def Request.Carries (P : Value → Prop) : Request → Prop
  | .work task => task.expr.Carries P
  | .call _ arguments => AllHave P arguments

/-- A way to evaluate that keeps all values as they should be. -/
def Evaluator.Yields (r : Registry) (P : Value → Prop) (eval : Evaluator) : Prop :=
  ∀ e scope, e.Carries P → Run.Yields r P P (eval e scope)

section

variable {r : Registry} {P : Value → Prop}

/-! ## Scopes -/

theorem childScope_yields (parent : Nat) : Preserves r P (childScope parent) :=
  fun _ hs => ⟨hs.withScopes (hs.scopes.push rfl), fun _ _ => trivial⟩

theorem bindIn_yields (scope : Nat) (name : String) {value : Value} (hValue : P value) :
    Preserves r P (bindIn scope name value) := by
  refine .bind .get fun _ _ => ?_
  split
  · exact .fail _
  · exact .modify fun _ hs => hs.withScopes (hs.scopes.put scope name hValue)

theorem bindArguments_yields (scope : Nat) :
    ∀ (ps : List Pattern) {arguments : List Value}, AllHave P arguments →
      Preserves r P (bindArguments scope ps arguments) := by
  intro ps
  induction ps with
  | nil => exact fun _ => .pure trivial
  | cons p ps ih =>
      intro arguments hArguments
      cases arguments with
      | nil => exact .pure trivial
      | cons argument arguments =>
          obtain ⟨hFirst, hRest⟩ := List.forall_mem_cons.mp hArguments
          cases hName : p.name? with
          | some name =>
              simp only [bindArguments, hName]
              exact .bind (bindIn_yields scope name hFirst) fun _ _ => ih hRest
          | none =>
              simp only [bindArguments, hName]
              exact ih hRest

/-- Leaving a scope does not make a result of none, nor another one. -/
theorem eq_ok_of_outcomeAfter {ε α : Type} {fail : Error → ε} {outcome : Except ε α}
    {failure : Option Error} {a : α} (h : outcomeAfter fail outcome failure = .ok a) :
    outcome = .ok a := by
  unfold outcomeAfter at h
  split at h
  · cases h
  · exact h

theorem leaveScope_yields {α : Type} {Q : α → Prop} (scope : Nat) {outcome : Except Stop α}
    (hOutcome : ∀ a, outcome = .ok a → Q a) : Yields r P Q (leaveScope scope outcome) := by
  intro s hs
  have hScopes : (s.scopes.freeze scope).Carries P := hs.scopes.modify fun _ => rfl
  refine ⟨⟨hs.program, hScopes, hs.nodes, hs.closures, hs.hosts⟩, fun a hSame => ?_⟩
  exact hOutcome a (eq_ok_of_outcomeAfter hSame)

/-! ## Types -/

/-- A value that is required to have a type is handed on if it satisfies the type. -/
theorem requireType_yields (context : String) (ty : Ty) (value : Value) :
    Yields r P (fun v => v = value ∧ ∃ asked, (value.conforms r ty Dict.empty asked).1.1 = true)
      (requireType context ty value) := by
  refine .bind .get fun s hs => ?_
  rw [hs.program.types]
  have hAsk : Yields r P (fun found => ∃ asked, (value.conforms r ty Dict.empty asked).1 = found)
      (Run.typing (value.conforms r ty Dict.empty)) := .typing fun asked => ⟨asked, rfl⟩
  refine .bind hAsk fun found hFound => ?_
  obtain ⟨accepted, b⟩ := found
  obtain ⟨asked, hFound⟩ := hFound
  cases accepted with
  | true => exact .pure ⟨rfl, asked, by rw [hFound]⟩
  | false => exact .bind .get fun _ _ => .fail _

/-- Whether a value is required to have a type or not, it is the same value. -/
theorem requireType_hands (context : String) (ty : Ty) {value : Value} (hValue : P value) :
    Yields r P P (requireType context ty value) := by
  intro s hs
  obtain ⟨hKept, hSame⟩ := requireType_yields context ty value s hs
  exact ⟨hKept, fun v hv => (hSame v hv).1 ▸ hValue⟩

theorem chooseClause_yields (name : String) (clauses : List Clause) (arguments : List Value) :
    Yields r P (· ∈ clauses) (chooseClause name clauses arguments) := by
  refine .of_gives ?_ (chooseClause_gives name clauses arguments)
  refine .bind .get fun s _ => ?_
  have hAsk : Preserves r P (Run.typing (choose? s.program.types clauses arguments)) :=
    .typing fun _ => trivial
  refine .bind hAsk fun choice _ => ?_
  cases choice with
  | none => exact .bind .get fun _ _ => .fail _
  | some choice => exact .pure trivial

variable (h : Value.Hereditary r P)

include h in
theorem tagChecked_yields {name : String} {parent : Ty} (hParent : r.parent? name = some parent)
    {arguments : List Value} (hArguments : AllHave P arguments) :
    Yields r P P (tagChecked name parent arguments) := by
  unfold tagChecked
  split
  · rename_i argument
    refine .bind (requireType_yields name parent argument) fun value hValue => ?_
    obtain ⟨rfl, asked, hConforms⟩ := hValue
    exact .pure (h.tag hParent (List.forall_mem_singleton.mp hArguments) hConforms)
  · exact .fail _

/-! ## Calls -/

/-- A call gets a scope with its arguments, and goes on with the body of a clause. -/
theorem enter_yields (name : String) (parent : Nat) {clause : Clause} (hClause : clause.Carries P)
    {arguments : List Value} (hArguments : AllHave P arguments) (memo : Option Awaited) :
    Yields r P (Begun.Carries P) (childScope parent >>= fun scope =>
      bindArguments scope clause.params arguments >>= fun _ =>
        pure (.enter ⟨name, clause.body, scope, memo⟩)) :=
  .bind (childScope_yields parent) fun scope _ =>
    .bind (bindArguments_yields scope clause.params hArguments) fun _ _ => .pure hClause.body

variable {call : Caller} (hCall : call.Yields r P)

include h hCall

theorem exposeWhere_yields (isLiteral : Nat → Bool) :
    ∀ {arguments : List Value} (position : Nat), AllHave P arguments →
      Yields r P (AllHave P) (exposeWhere call isLiteral position arguments) := by
  intro arguments
  induction arguments with
  | nil => exact fun _ _ => .pure (List.forall_mem_nil P)
  | cons argument arguments ih =>
      intro position hArguments
      obtain ⟨hFirst, hOthers⟩ := List.forall_mem_cons.mp hArguments
      have hRest : ∀ first : Value, P first → Yields r P (AllHave P)
          (exposeWhere call isLiteral (position + 1) arguments >>= fun rest =>
            pure (first :: rest)) := fun first hFirst =>
        .bind (ih (position + 1) hOthers) fun rest hRest =>
          .pure (List.forall_mem_cons.mpr ⟨hFirst, hRest⟩)
      rw [exposeWhere]
      split
      · exact .bind (exposeHead_yields h hCall hFirst) hRest
      · exact .bind (.pure hFirst) hRest

theorem beginClosure_yields {closure : Closure} (hClosure : closure.clause.Carries P)
    {arguments : List Value} (hArguments : AllHave P arguments) :
    Yields r P (Begun.Carries P) (beginClosure call closure arguments) := by
  unfold beginClosure
  have hBegin : Yields r P (Begun.Carries P) (do
      let arguments ← exposeWhere call closure.clause.litAt 0 arguments
      let clause ← chooseClause "lambda" [closure.clause] arguments
      let scope ← childScope closure.scope
      bindArguments scope clause.params arguments
      return Begun.enter ⟨"lambda", clause.body, scope, none⟩) := by
    refine .bind (exposeWhere_yields h hCall _ 0 hArguments) fun arguments hArguments => ?_
    refine .bind (chooseClause_yields "lambda" _ arguments) fun clause hMem => ?_
    rw [List.mem_singleton.mp hMem]
    exact enter_yields "lambda" closure.scope hClosure hArguments none
  dsimp only
  split
  · exact .bind (.fail _) fun _ (_ : True) => hBegin
  · exact hBegin

theorem beginFunction_yields (fuel : Nat) (name : String) {clauses : List Clause}
    (hClauses : ∀ c ∈ clauses, c.Carries P) (isLiteral : Nat → Bool) {arguments : List Value}
    (hArguments : AllHave P arguments) :
    Yields r P (Begun.Carries P) (beginFunction call fuel name clauses isLiteral arguments) := by
  refine .bind (exposeWhere_yields h hCall isLiteral 0 hArguments) fun arguments hArguments => ?_
  refine .bind (chooseClause_yields name clauses arguments) fun clause hMem => ?_
  have hEnter : ∀ memo, Yields r P (Begun.Carries P) (beginClause name clause arguments memo) :=
    enter_yields name Scopes.globals (hClauses clause hMem) hArguments
  split
  · refine .bind (callKey_yields h hCall fuel hArguments) fun key _ => ?_
    have hRemembered : Yields r P (fun known => ∀ v, known = some v → P v) (remembered name key) := by
      refine .bind .get fun s hs => .pure fun v hKnown => ?_
      obtain ⟨f, hFunction, hMemo⟩ := Option.bind_eq_some_iff.mp hKnown
      exact (hs.program.functions name f hFunction).memo key v hMemo
    refine .bind hRemembered fun known hKnown => ?_
    cases known with
    | some value => exact .pure (hKnown value rfl)
    | none => exact hEnter _
  · exact hEnter none

theorem beginByName_yields (fuel : Nat) (name : String) {arguments : List Value}
    (hArguments : AllHave P arguments) :
    Yields r P (Begun.Carries P) (beginByName call fuel name arguments) := by
  have hDone : ∀ {x : Run Value}, Yields r P P x →
      Yields r P (Begun.Carries P) (x >>= fun value => pure (.done value)) := fun hx =>
    .bind hx fun _ hValue => .pure hValue
  intro s hs
  obtain ⟨run, hCalls, hRun⟩ := exists_callsByName s name arguments
  rw [hRun]
  refine (?_ : Yields r P (Begun.Carries P) (run call fuel)) s hs
  cases hCalls with
  | @function f hFunction =>
      have hClauses := (hs.program.functions name f hFunction).clauses
      exact beginFunction_yields h hCall fuel name hClauses f.litAt hArguments
  | tag _ hParent =>
      rw [hs.program.types] at hParent
      exact hDone (tagChecked_yields h hParent hArguments)
  | host _ _ hHost =>
      rw [hs.hosts] at hHost
      cases hHost
  | builtin _ _ _ hBuiltin =>
      have hMem := List.mem_of_find?_eq_some hBuiltin
      exact hDone (.mapError (builtin_yields h hCall fuel hMem hArguments))
  | refused error => exact .fail error

/-- **What a call begins with** has the property, or is a body with it. -/
theorem beginCall_yields (fuel : Nat) (function : Value) {arguments : List Value}
    (hArguments : AllHave P arguments) :
    Yields r P (Begun.Carries P) (beginCall call fuel function arguments) := by
  unfold beginCall
  split
  · refine .bind .get fun s hs => ?_
    split
    · rename_i closure hClosure
      exact beginClosure_yields h hCall (hs.closures _ closure hClosure) hArguments
    · exact .fail _
  · exact beginByName_yields h hCall fuel _ hArguments
  · exact .bind .get fun _ _ => .fail _

end

/-! ## Evaluating parts -/

section

variable {r : Registry} {P : Value → Prop} {eval : Evaluator} (hEval : eval.Yields r P)

include hEval

theorem evalAll_yields (scope : Nat) :
    ∀ {es : List Expr}, (∀ e ∈ es, e.Carries P) → Yields r P (AllHave P) (evalAll eval scope es) := by
  intro es
  induction es with
  | nil => exact fun _ => .pure (List.forall_mem_nil P)
  | cons e es ih =>
      intro hItems
      obtain ⟨hFirst, hRest⟩ := List.forall_mem_cons.mp hItems
      refine .bind (hEval e scope hFirst) fun value hValue => .bind (ih hRest) fun values hValues => ?_
      exact .pure (List.forall_mem_cons.mpr ⟨hValue, hValues⟩)

theorem evalChecked_yields (form : String) (ty : Option Ty) {e : Expr} (he : e.Carries P)
    (scope : Nat) : Yields r P P (evalChecked eval form ty e scope) := by
  refine .bind (hEval e scope he) fun value hValue => ?_
  cases ty with
  | some ty => exact requireType_hands form ty hValue
  | none => exact .pure hValue

theorem evalSet_yields (name : String) (ty : Option Ty) {value : Expr} (hValue : value.Carries P)
    (claims : Bool) (scope : Nat) : Yields r P P (evalSet eval name ty value claims scope) := by
  have hClaim : ∀ mark : Nat, Preserves r P
      (if claims then claimSince mark scope else pure () : Run Unit) := by
    intro mark
    cases claims with
    | true =>
        refine .modify fun s hs => ?_
        exact ⟨hs.program, hs.scopes.acquireAll scope _, hs.nodes, hs.closures, hs.hosts⟩
    | false => exact .pure trivial
  intro s hs
  rw [evalSet_apply]
  refine Yields.bind (evalChecked_yields hEval "set" ty hValue scope) (fun result hResult => ?_) s hs
  exact .bind (hClaim _) fun _ _ => .bind (bindIn_yields scope name hResult) fun _ _ => .pure hResult

variable (h : Value.Hereditary r P)

include h

theorem evalLogical_yields (form : String) (decisive : Bool) (scope : Nat) :
    ∀ {es : List Expr}, (∀ e ∈ es, e.Carries P) →
      Yields r P P (evalLogical eval form decisive scope es) := by
  intro es
  induction es with
  | nil => exact fun _ => .pure (h.bool _)
  | cons e es ih =>
      intro hItems
      obtain ⟨hFirst, hRest⟩ := List.forall_mem_cons.mp hItems
      rw [evalLogical]
      refine .bind (hEval e scope hFirst) fun value _ => ?_
      split
      · split
        · exact .pure (h.bool _)
        · exact ih hRest
      · exact .bind .get fun _ _ => .fail _

theorem evalBlock_yields (task : Task) {body : List Expr} (hBody : ∀ e ∈ body, e.Carries P)
    (cast : Option Ty) : Yields r P (Progress.Carries P) (evalBlock eval task body cast) := by
  refine .bind (childScope_yields task.scope) fun scope _ => ?_
  split
  · exact .pure h.nil
  · rename_i last hLast
    have hEnd : last.Carries P := hBody last (List.mem_of_getLast? hLast)
    have hInit : ∀ e ∈ body.dropLast, e.Carries P := fun e he =>
      hBody e (List.dropLast_subset body he)
    refine .bind (.outcome (evalAll_yields hEval scope hInit)) fun outcome _ => ?_
    cases outcome with
    | error stop => exact leaveScope_yields scope nofun
    | ok values =>
        refine .bind .get fun s _ => ?_
        split
        · exact .pure hEnd
        · refine .bind (.outcome (evalChecked_yields hEval "do" cast hEnd scope)) fun outcome hValue => ?_
          exact .bind (leaveScope_yields scope hValue) fun value hValue => .pure hValue

/-! ## Loops -/

omit hEval h in
theorem resolve_yields (h : Value.Hereditary r P) (name : String) (scope : Nat) :
    Yields r P P (resolve name scope) := by
  refine .bind .get fun s hs => ?_
  split
  · rename_i value hGet
    exact .pure (hs.scopes.get? hGet)
  · split
    · exact .pure (h.func name)
    · exact .fail _

omit hEval in
theorem newClosure_yields {clause : Clause} (hClause : clause.Carries P) (scope : Nat) :
    Yields r P P (newClosure clause scope) := by
  intro s hs
  refine ⟨⟨hs.program, hs.scopes, hs.nodes, fun id closure hGet => ?_, hs.hosts⟩, fun v hSame => ?_⟩
  · replace hGet : (s.closures.push ⟨clause, scope⟩)[id]? = some closure := hGet
    rw [Array.getElem?_push] at hGet
    split at hGet
    · cases hGet
      exact hClause
    · exact hs.closures id closure hGet
  · cases hSame
    exact h.lambda _

/-- **One step of the loop** has a value with the property, or goes on with code with it. -/
theorem step_yields {call : Caller} (hCall : call.Yields r P) (fuel : Nat) {task : Task}
    (hTask : task.expr.Carries P) : Yields r P (Progress.Carries P) (step eval call fuel task) := by
  obtain ⟨e, scope, function, pending⟩ := task
  have hDone : ∀ {x : Run Value}, Yields r P P x →
      Yields r P (Progress.Carries P) (x >>= fun value => pure (.done value)) := fun hx =>
    .bind hx fun _ hValue => .pure hValue
  cases e with
  | lit value =>
      have hValue : P value := List.forall_mem_singleton.mp hTask
      exact .pure hValue
  | var name => exact hDone (resolve_yields h name scope)
  | cond test yes no =>
      obtain ⟨hBoth, hNo⟩ := List.forall_mem_append.mp hTask
      obtain ⟨hTest, hYes⟩ := List.forall_mem_append.mp hBoth
      refine .bind (hEval test scope hTest) fun value _ => ?_
      split
      · rename_i b _
        refine .pure ?_
        cases b with
        | true => exact hYes
        | false => exact hNo
      · exact .bind .get fun _ _ => .fail _
  | block body cast =>
      exact evalBlock_yields hEval h _ (Expr.allHave_literalsOf.mp hTask) cast
  | set name ty value claims =>
      have hValue : value.Carries P := hTask
      exact hDone (evalSet_yields hEval name ty hValue claims scope)
  | lambda params ret body =>
      have hClause : (Clause.ofLambda params ret body).Carries P := hTask
      exact hDone (newClosure_yields h hClause scope)
  | conj operands =>
      exact hDone (evalLogical_yields hEval h "and" false scope (Expr.allHave_literalsOf.mp hTask))
  | disj operands =>
      exact hDone (evalLogical_yields hEval h "or" true scope (Expr.allHave_literalsOf.mp hTask))
  | call callee args =>
      obtain ⟨hCallee, hArgs⟩ := List.forall_mem_append.mp hTask
      refine .bind (hEval callee scope hCallee) fun function _ => ?_
      refine .bind (evalAll_yields hEval scope (Expr.allHave_literalsOf.mp hArgs))
        fun arguments hArguments => ?_
      refine .bind (beginCall_yields h hCall fuel function hArguments) fun begun hBegun => ?_
      cases begun with
      | done value => exact .pure hBegun
      | enter activation => exact .pure hBegun

end

theorem Memo.get?_insert (m : Memo) (written : String) (value : Value) (key : String) :
    (m.insert written value).get? key = if written = key then some value else m.get? key := by
  unfold Memo.get? Memo.insert
  rw [Std.HashMap.getElem?_insert]
  simp only [beq_iff_eq]

section

variable {r : Registry} {P : Value → Prop}

theorem Program.Carries.remember {p : Program} (hp : p.Carries r P) (function key : String)
    {value : Value} (hValue : P value) : (p.remember function key value).Carries r P := by
  refine ⟨hp.types, fun name f hGet => ?_, hp.statements⟩
  rw [Program.remember, Dict.get?_modify] at hGet
  split at hGet
  · obtain ⟨g, hFunction, rfl⟩ := Option.map_eq_some_iff.mp hGet
    have hBefore := hp.functions name g hFunction
    refine ⟨hBefore.clauses, fun other v hMemo => ?_⟩
    replace hMemo : (g.memo.insert key value).get? other = some v := hMemo
    rw [Memo.get?_insert] at hMemo
    split at hMemo
    · cases hMemo
      exact hValue
    · exact hBefore.memo other v hMemo
  · exact hp.functions name f hGet

theorem rememberAll_yields {value : Value} (hValue : P value) (slots : List Awaited) :
    Preserves r P (rememberAll value slots) := by
  refine .modify fun s hs => ⟨?_, hs.scopes, hs.nodes, hs.closures, hs.hosts⟩
  have hAll : ∀ (slots : List Awaited) (p : Program), p.Carries r P →
      (slots.foldl (fun p slot => p.remember slot.function slot.key value) p).Carries r P := by
    intro slots
    induction slots with
    | nil => exact fun _ hp => hp
    | cons slot slots ih => exact fun p hp => ih _ (hp.remember slot.function slot.key hValue)
  exact hAll slots s.program hs.program

/-- **A loop** has a value with the property, if its steps have. -/
theorem loop_yields {step : Task → Run Progress}
    (hStep : ∀ task, task.expr.Carries P → Yields r P (Progress.Carries P) (step task))
    (fuel : Nat) : ∀ {task : Task}, task.expr.Carries P → Yields r P P (loop step fuel task) := by
  induction fuel with
  | zero => exact fun _ => .throw .outOfFuel
  | succ fuel ih =>
      intro task hTask
      refine .bind (.outcome (hStep task hTask)) fun outcome hProgress => ?_
      rcases outcome with stop | value | next
      · exact .throw _
      · have hValue : P value := hProgress _ rfl
        exact .bind (rememberAll_yields hValue task.pending) fun _ _ => .pure hValue
      · exact ih (hProgress _ rfl)

/-- **Whatever the machine is asked to do**, all values stay as they should be, and so is
the result. -/
theorem exec_yields (h : Value.Hereditary r P) (fuel : Nat) :
    ∀ (level : Nat) (request : Request), request.Carries P →
      Yields r P P (exec fuel level request) := by
  induction fuel with
  | zero => exact fun _ _ _ => .throw .outOfFuel
  | succ fuel ih =>
      intro level request hRequest
      cases request with
      | work task =>
          rw [exec]
          split
          · exact .fail _
          · have hEval : Evaluator.Yields r P fun e scope =>
                exec fuel (level + 1) (.work { expr := e, scope }) := fun e scope he =>
              ih (level + 1) _ he
            have hCall : Caller.Yields r P fun function arguments =>
                exec fuel (level + 1) (.call function arguments) := fun function arguments hArgs =>
              ih (level + 1) _ hArgs
            exact loop_yields (fun task hTask => step_yields hEval h hCall fuel hTask) fuel hRequest
      | call function arguments =>
          have hCall : Caller.Yields r P fun f args => exec fuel level (.call f args) :=
            fun f args hArgs => ih level _ hArgs
          rw [exec]
          refine .bind (beginCall_yields h hCall fuel function hRequest) fun begun hBegun => ?_
          cases begun with
          | done value => exact .pure hBegun
          | enter activation => exact ih level (.work activation.task) hBegun

end

end ClauseLisp
