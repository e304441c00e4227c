import ClauseLisp.Proofs.CallsByName
import ClauseLisp.Proofs.Choice.Matching
import ClauseLisp.Proofs.Frame.Basic

/-!
# What calls leave alone

Between two evaluations the machine forces lazy lists, makes memo keys, runs
builtins and chooses clauses.  All of this is made of a few moves, none of which
writes to a scope that exists.  So it keeps every relation that the moves keep,
if the way to call functions does.

## Main results

* `beginCall_keeps` — what a call begins with keeps the relation.
* `isPlaced_of_beginCall` — the body that a call goes on with is placed.
-/

namespace ClauseLisp

/-! ## New scopes -/

theorem modify_push {α : Type} (xs : Array α) (a : α) (f : α → α) :
    (xs.push a).modify xs.size f = xs.push (f a) := by
  refine Array.ext_getElem? fun i => ?_
  rw [Array.getElem?_modify, Array.getElem?_push, Array.getElem?_push]
  by_cases hLast : i = xs.size
  · simp [hLast]
  · simp [hLast, Ne.symm hLast]

/-- A scope that has just been made can be written to. -/
theorem bindIn_entered (s : State) (parent : Nat) (vars : Dict Value) (name : String)
    (value : Value) :
    bindIn s.scopes.table.size name value (s.entered parent vars) =
      (.ok (), s.entered parent (vars.insert name value)) := by
  have hNew : (s.entered parent vars).scopes.isFrozen s.scopes.table.size = false := by
    simp [State.entered, Scopes.isFrozen]
  unfold bindIn
  rw [Run.get_bind_apply, hNew]
  show (Except.ok (), { s with
    scopes := (s.entered parent vars).scopes.put s.scopes.table.size name value }) = _
  rw [Scopes.put, State.entered, modify_push]
  rfl

/-- Binding parameters in a scope that has just been made only fills this scope. -/
theorem bindArguments_entered (s : State) (parent : Nat) :
    ∀ (ps : List Pattern) (arguments : List Value) (vars : Dict Value), ∃ vars',
      bindArguments s.scopes.table.size ps arguments (s.entered parent vars) =
        (.ok (), s.entered parent vars') := by
  intro ps
  induction ps with
  | nil => exact fun _ vars => ⟨vars, rfl⟩
  | cons p ps ih =>
      intro arguments vars
      cases arguments with
      | nil => exact ⟨vars, rfl⟩
      | cons argument arguments =>
          cases hName : p.name? with
          | none =>
              obtain ⟨vars', hRest⟩ := ih arguments vars
              refine ⟨vars', ?_⟩
              simp only [bindArguments, hName, hRest]
          | some name =>
              obtain ⟨vars', hRest⟩ := ih arguments (vars.insert name argument)
              refine ⟨vars', ?_⟩
              simp only [bindArguments, hName]
              rw [Run.bind_apply_ok (bindIn_entered s parent vars name argument), hRest]

section

variable {R : Access → State → State → Prop}

/-- A way to call functions that keeps a relation. -/
def Caller.Keeps (R : Access → State → State → Prop) (call : Caller) : Prop :=
  ∀ function arguments, ClauseLisp.Keeps R .nothing (call function arguments)

variable (hR : Frame R)

include hR

/-! ## Making things -/

theorem newNode_keeps (iterator state : Value) : Keeps R .nothing (newNode iterator state) :=
  fun s hPlaced _ =>
    ⟨⟨hPlaced.program, hPlaced.closures⟩, Nat.le_refl _, hR.node s iterator state⟩

theorem newValue_keeps (value : Value) : Keeps R .nothing (newValue value) := by
  unfold newValue
  split
  · exact .typing hR _
  · exact .pure hR _

theorem printLine_keeps (line : String) : Keeps R .nothing (printLine line) := by
  intro s hPlaced _
  refine ⟨⟨hPlaced.program, hPlaced.closures⟩, Nat.le_refl _, ?_⟩
  show R .nothing s { s with output := s.output ++ line ++ "\n" }
  rw [String.append_assoc]
  exact hR.printed s (line ++ "\n")

/-! ## Forcing lazy lists -/

omit hR in
/-- The first outcome that is stored stands; otherwise the iterator is believed. -/
theorem recordStep_apply (node : Nat) (iterator : Value) (step : IterStep) (s : State) :
    (recordStep node iterator step s).2 =
      match s.nodes.outcome? node with
      | some _ => s
      | none => s.settled node iterator step := by
  unfold recordStep
  rw [Run.get_bind_apply]
  cases s.nodes.outcome? node with
  | some forced => rfl
  | none => cases step <;> rfl

variable {call : Caller} (hCall : call.Keeps R)

include hCall

/-- A node is settled by calling its iterator, if that succeeds. -/
theorem force_keeps (node : Nat) : Keeps R .nothing (force call node) := by
  intro s hPlaced hFits
  unfold force
  rw [Run.get_bind_apply]
  cases hNode : s.nodes[node]? with
  | none => exact .refl hR _ hPlaced
  | some n =>
      cases hFresh : n.outcome with
      | some forced =>
          simp only [hFresh]
          exact .refl hR _ hPlaced
      | none =>
          simp only [hFresh]
          have hKept : Kept R .nothing s (call n.iterator [n.state] s).2 :=
            hCall n.iterator [n.state] s hPlaced hFits
          rw [Run.bind_apply]
          rcases hRun : call n.iterator [n.state] s with ⟨stop | result, s'⟩ <;> rw [hRun] at hKept
          · exact hKept
          · cases hStep : IterStep.ofValue? result with
            | none =>
                simp only [hStep]
                exact hKept
            | some step =>
                simp only [hStep]
                rw [recordStep_apply]
                split
                · exact hKept
                · rename_i hOutcome
                  have hRelated : R .nothing s (s'.settled node n.iterator step) :=
                    hR.trans hKept.related (hR.settled n.iterator step hOutcome)
                  cases step with
                  | finish =>
                      exact ⟨⟨hKept.placed.program, hKept.placed.closures⟩, hKept.scopes, hRelated⟩
                  | advance head state =>
                      exact ⟨⟨hKept.placed.program, hKept.placed.closures⟩, hKept.scopes, hRelated⟩

theorem uncons_keeps (context : String) (value : Value) :
    Keeps R .nothing (uncons call context value) := by
  unfold uncons
  split
  · exact .pure hR _
  · exact .pure hR _
  · refine .bind hR (force_keeps hR hCall _) fun forced => ?_
    cases forced with
    | ended => exact .pure hR _
    | item head next => exact .pure hR _
  · exact .bind hR (.get hR) fun s => .fail hR _

theorem exposeHead_keeps (value : Value) : Keeps R .nothing (exposeHead call value) := by
  unfold exposeHead
  split
  · refine .bind hR (force_keeps hR hCall _) fun forced => ?_
    cases forced with
    | ended => exact .pure hR _
    | item head next => exact .pure hR _
  · exact .pure hR _

theorem elements_keeps (fuel : Nat) (context : String) (value : Value) :
    Keeps R .nothing (elements call fuel context value) := by
  have hOnto : ∀ (done : List Value) (value : Value),
      Keeps R .nothing (elementsOnto call context fuel done value) := by
    induction fuel with
    | zero => exact fun _ _ => .throw hR .outOfFuel
    | succ fuel ih =>
        intro done value
        refine .bind hR (uncons_keeps hR hCall context value) fun cell => ?_
        cases cell with
        | none => exact .pure hR _
        | some parts => exact ih (parts.1 :: done) parts.2
  exact hOnto [] value

/-! ## Memo keys -/

theorem listKeyOnto_keeps {key : Value → Run String} (hKey : ∀ value, Keeps R .nothing (key value))
    (fuel : Nat) :
    ∀ (done : String) (value : Value), Keeps R .nothing (listKeyOnto call key fuel done value) := by
  induction fuel with
  | zero => exact fun _ _ => .throw hR .outOfFuel
  | succ fuel ih =>
      intro done value
      refine .bind hR (uncons_keeps hR hCall "memo" value) fun cell => ?_
      cases cell with
      | none => exact .pure hR _
      | some parts => exact .bind hR (hKey parts.1) fun k => ih (done ++ k ++ " ") parts.2

theorem valueKey_keeps (fuel : Nat) :
    ∀ value : Value, Keeps R .nothing (valueKey call fuel value) := by
  induction fuel with
  | zero => exact fun _ => .throw hR .outOfFuel
  | succ fuel ih =>
      intro value
      unfold valueKey
      split
      · exact .pure hR _
      · exact .pure hR _
      · exact .pure hR _
      · exact .pure hR _
      · exact .pure hR _
      · exact .bind hR (ih _) fun k => .pure hR _
      · exact .bind hR (listKeyOnto_keeps hR hCall ih fuel "(" _) fun items => .pure hR _

theorem callKey_keeps (fuel : Nat) (arguments : List Value) :
    Keeps R .nothing (callKey call fuel arguments) := by
  have hOnto : ∀ (arguments : List Value) (done : String),
      Keeps R .nothing (callKeyOnto call fuel done arguments) := by
    intro arguments
    induction arguments with
    | nil => exact fun _ => .pure hR _
    | cons argument arguments ih =>
        intro done
        exact .bind hR (valueKey_keeps hR hCall fuel argument) fun k => ih (done ++ k ++ " ")
  exact hOnto arguments ""

/-! ## Builtins -/

omit hCall in
theorem listArgument_keeps (arguments : List Value) (position : Nat) :
    Keeps R .nothing (listArgument arguments position) := by
  unfold listArgument
  split
  · exact .fail hR _
  · split
    · exact .pure hR _
    · exact .bind hR (.get hR) fun s => .fail hR _

theorem listsEqual_keeps {equal : Value → Value → Run Bool}
    (hEqual : ∀ left right, Keeps R .nothing (equal left right)) (fuel : Nat) :
    ∀ left right : Value, Keeps R .nothing (listsEqual call equal fuel left right) := by
  induction fuel with
  | zero => exact fun _ _ => .throw hR .outOfFuel
  | succ fuel ih =>
      intro left right
      refine .bind hR (uncons_keeps hR hCall "=" left) fun leftCell => ?_
      refine .bind hR (uncons_keeps hR hCall "=" right) fun rightCell => ?_
      cases leftCell with
      | none => cases rightCell <;> exact .pure hR _
      | some leftParts =>
          cases rightCell with
          | none => exact .pure hR _
          | some rightParts =>
              refine .bind hR (hEqual leftParts.1 rightParts.1) fun same => ?_
              split
              · exact ih leftParts.2 rightParts.2
              · exact .pure hR _

theorem equalForced_keeps (fuel : Nat) :
    ∀ left right : Value, Keeps R .nothing (equalForced call fuel left right) := by
  induction fuel with
  | zero => exact fun _ _ => .throw hR .outOfFuel
  | succ fuel ih =>
      intro left right
      rw [equalForced]
      split
      · exact listsEqual_keeps hR hCall ih fuel left right
      · exact .pure hR _

theorem allEqual_keeps (fuel : Nat) :
    ∀ arguments : List Value, Keeps R .nothing (allEqual call fuel arguments) := by
  intro arguments
  induction arguments with
  | nil => exact .pure hR _
  | cons left rest ih =>
      cases rest with
      | nil => exact .pure hR _
      | cons right rest =>
          rw [allEqual]
          refine .bind hR (equalForced_keeps hR hCall fuel left right) fun same => ?_
          split
          · exact ih
          · exact .pure hR _

theorem elementsOfAll_keeps (fuel : Nat) (context : String) :
    ∀ values : List Value, Keeps R .nothing (elementsOfAll call fuel context values) := by
  intro values
  induction values with
  | nil => exact .pure hR _
  | cons value values ih =>
      refine .bind hR (elements_keeps hR hCall fuel context value) fun items => ?_
      exact .bind hR ih fun others => .pure hR _

theorem concatAll_keeps (fuel : Nat) (arguments : List Value) :
    Keeps R .nothing (concatAll call fuel arguments) := by
  unfold concatAll
  split
  · exact .pure hR _
  · exact .pure hR _
  · split
    · exact .bind hR (.get hR) fun s => .fail hR _
    · refine .bind hR (elementsOfAll_keeps hR hCall fuel "concat" arguments.dropLast) fun items => ?_
      exact .bind hR (.get hR) fun s => newValue_keeps hR _

theorem forceLists_keeps (fuel : Nat) (context : String) :
    ∀ values : List Value, Keeps R .nothing (forceLists call fuel context values) := by
  intro values
  induction values with
  | nil => exact .pure hR _
  | cons value values ih =>
      unfold forceLists
      split
      · exact .bind hR (elements_keeps hR hCall fuel context value) fun _ => ih
      · exact ih

omit hCall in
theorem openPath_keeps (path : String) : Keeps R .nothing (openPath path) := by
  unfold openPath
  refine .bind hR (.get hR) fun _ => ?_
  split
  · exact .throw hR _
  · split
    · exact .fail hR _
    · rename_i stream _
      intro s hPlaced hFits
      have hOpened : Kept R .nothing s
          { s with streams := s.streams.push stream, unclaimed := s.streams.size :: s.unclaimed } :=
        ⟨⟨hPlaced.program, hPlaced.closures⟩, Nat.le_refl _, hR.opened s stream⟩
      exact hOpened.trans hR (newNode_keeps hR (.func Builtin.readCharName) (.int s.streams.size) _
        hOpened.placed (hFits.mono hOpened.scopes))

omit hCall in
theorem readNext_keeps (handle : Int) : Keeps R .nothing (readNext handle) := by
  unfold readNext
  split
  · exact .fail hR _
  · rename_i index _
    intro s hPlaced hFits
    cases hStream : s.streams[index]? with
    | none =>
        simp only [Run.get_bind_apply, hStream]
        exact .refl hR _ hPlaced
    | some stream =>
        have hRelated := hR.read s index stream hStream
        rcases hStep : stream.read with ⟨result, later⟩
        rw [hStep] at hRelated
        have hRead : Kept R .nothing s
            { s with streams := s.streams.modify index fun _ => later } :=
          ⟨⟨hPlaced.program, hPlaced.closures⟩, Nat.le_refl _, hRelated⟩
        simp only [Run.get_bind_apply, hStream, hStep]
        refine hRead.trans hR ?_
        rcases result with cause | _ | c
        · exact .refl hR _ hRead.placed
        · exact .refl hR _ hRead.placed
        · have hValue : ∀ s' : State, Keeps R .nothing (newValue (Value.ofList s'.program.types
              [.str (String.singleton c), .int handle])) := fun s' => newValue_keeps hR _
          exact hValue _ _ hRead.placed (hFits.mono hRead.scopes)

omit hCall in
theorem makeLazy_keeps (arguments : List Value) : Keeps R .nothing (makeLazy arguments) := by
  unfold makeLazy
  split
  · split
    · exact newNode_keeps hR _ _
    · exact .bind hR (.get hR) fun s => .fail hR _
  · exact .fail hR _

theorem printAll_keeps (fuel : Nat) (arguments : List Value) :
    Keeps R .nothing (printAll call fuel arguments) := by
  refine .bind hR (forceLists_keeps hR hCall fuel "print" arguments) fun _ => ?_
  refine .bind hR (.get hR) fun s => ?_
  exact .bind hR (printLine_keeps hR _) fun _ => .pure hR _

theorem intrinsic_keeps (fuel : Nat) (arguments : List Value) (intrinsic : Intrinsic) :
    Keeps R .nothing (intrinsic.run call fuel arguments) := by
  have hList : ∀ {α : Type} (f : Value → Run α), (∀ list, Keeps R .nothing (f list)) →
      Keeps R .nothing (listArgument arguments 0 >>= f) := fun f hf =>
    .bind hR (listArgument_keeps hR arguments 0) hf
  cases intrinsic with
  | equal => exact .bind hR (allEqual_keeps hR hCall fuel arguments) fun _ => .pure hR _
  | head =>
      refine hList _ fun list => .bind hR (uncons_keeps hR hCall "head" list) fun cell => ?_
      cases cell with
      | none => exact .fail hR _
      | some parts => exact .pure hR _
  | tail =>
      refine hList _ fun list => .bind hR (uncons_keeps hR hCall "tail" list) fun cell => ?_
      cases cell with
      | none => exact .pure hR _
      | some parts => exact .pure hR _
  | isEmpty =>
      exact hList _ fun list => .bind hR (uncons_keeps hR hCall "empty?" list) fun _ => .pure hR _
  | gen => exact makeLazy_keeps hR arguments
  | concat => exact concatAll_keeps hR hCall fuel arguments
  | print => exact printAll_keeps hR hCall fuel arguments
  | openFile =>
      simp only [Intrinsic.run]
      split
      · split
        · exact openPath_keeps hR _
        · exact .bind hR (.get hR) fun s => .fail hR _
      · exact .fail hR _
  | readChar =>
      simp only [Intrinsic.run]
      split
      · exact readNext_keeps hR _
      · exact .bind hR (.get hR) fun s => .fail hR _
      · exact .fail hR _

theorem builtin_keeps (fuel : Nat) (b : Builtin) (arguments : List Value) :
    Keeps R .nothing (b.run call fuel arguments) := by
  unfold Builtin.run
  split
  · refine .bind hR (.get hR) fun s => ?_
    exact .bind hR (.ofExcept hR _) fun value => newValue_keeps hR value
  · exact intrinsic_keeps hR hCall fuel arguments _

/-! ## Calls -/

theorem exposeWhere_keeps (isLiteral : Nat → Bool) :
    ∀ (arguments : List Value) (position : Nat),
      Keeps R .nothing (exposeWhere call isLiteral position arguments) := by
  intro arguments
  induction arguments with
  | nil => exact fun _ => .pure hR _
  | cons argument arguments ih =>
      intro position
      rw [exposeWhere]
      have hRest : ∀ first : Value, Keeps R .nothing
          (exposeWhere call isLiteral (position + 1) arguments >>= fun rest =>
            pure (first :: rest)) := fun _ =>
        .bind hR (ih (position + 1)) fun _ => .pure hR _
      split
      · exact .bind hR (exposeHead_keeps hR hCall argument) hRest
      · exact .bind hR (.pure hR argument) hRest

omit hCall in
theorem chooseClause_keeps (name : String) (clauses : List Clause) (arguments : List Value) :
    Keeps R .nothing (chooseClause name clauses arguments) := by
  refine .bind hR (.get hR) fun s => ?_
  refine .bind hR (.typing hR _) fun choice => ?_
  cases choice with
  | none => exact .bind hR (.get hR) fun s => .fail hR _
  | some choice => exact .pure hR _

omit hCall in
theorem requireType_keeps (context : String) (ty : Ty) (value : Value) :
    Keeps R .nothing (requireType context ty value) := by
  refine .bind hR (.get hR) fun s => .bind hR (.typing hR _) fun result => ?_
  obtain ⟨accepted, b⟩ := result
  cases accepted with
  | true => exact .pure hR _
  | false => exact .bind hR (.get hR) fun s => .fail hR _

omit hCall in
theorem tagChecked_keeps (name : String) (parent : Ty) (arguments : List Value) :
    Keeps R .nothing (tagChecked name parent arguments) := by
  unfold tagChecked
  split
  · exact .bind hR (requireType_keeps hR name parent _) fun _ => .pure hR _
  · exact .fail hR _

omit hCall in
theorem entered_kept {s : State} (h : s.Placed) (parent : Nat) (vars : Dict Value) :
    Kept R .nothing s (s.entered parent vars) := by
  refine ⟨⟨h.program, h.closures⟩, ?_, hR.entered s parent vars⟩
  rw [State.entered, Array.size_push]
  exact Nat.le_succ _

omit hCall in
/-- The scope of a call is made and filled at once. -/
theorem enter_keeps {α : Type} (parent : Nat) (ps : List Pattern) (arguments : List Value)
    {f : Nat → Run α} (hf : ∀ scope, Keeps R .nothing (f scope)) :
    Keeps R .nothing (childScope parent >>= fun scope =>
      bindArguments scope ps arguments >>= fun _ => f scope) := by
  intro s hPlaced hFits
  obtain ⟨vars, hBind⟩ := bindArguments_entered s parent ps arguments {}
  have hEntered : Kept R .nothing s (s.entered parent vars) := entered_kept hR hPlaced parent vars
  show Kept R .nothing s ((bindArguments s.scopes.table.size ps arguments >>= fun _ =>
    f s.scopes.table.size) (s.entered parent {})).2
  rw [Run.bind_apply_ok hBind]
  exact hEntered.trans hR (hf s.scopes.table.size _ hEntered.placed (hFits.mono hEntered.scopes))

theorem beginClosure_keeps (closure : Closure) (arguments : List Value) :
    Keeps R .nothing (beginClosure call closure arguments) := by
  unfold beginClosure
  have hBegin : Keeps R .nothing (do
      let arguments ← exposeWhere call closure.clause.litAt 0 arguments
      let clause ← chooseClause "lambda" [closure.clause] arguments
      let scope ← childScope closure.scope
      bindArguments scope clause.params arguments
      return Begun.enter ⟨"lambda", clause.body, scope, none⟩) :=
    .bind hR (exposeWhere_keeps hR hCall _ arguments 0) fun arguments =>
      .bind hR (chooseClause_keeps hR "lambda" _ arguments) fun clause =>
        enter_keeps hR closure.scope clause.params arguments fun scope => .pure hR _
  dsimp only
  split
  · exact .bind hR (.fail hR _) fun _ => hBegin
  · exact hBegin

omit hCall in
theorem beginClause_keeps (name : String) (clause : Clause) (arguments : List Value)
    (memo : Option Awaited) : Keeps R .nothing (beginClause name clause arguments memo) :=
  enter_keeps hR Scopes.globals clause.params arguments fun _ => .pure hR _

theorem beginFunction_keeps (fuel : Nat) (name : String) (clauses : List Clause)
    (isLiteral : Nat → Bool) (arguments : List Value) :
    Keeps R .nothing (beginFunction call fuel name clauses isLiteral arguments) := by
  refine .bind hR (exposeWhere_keeps hR hCall isLiteral arguments 0) fun arguments => ?_
  refine .bind hR (chooseClause_keeps hR name clauses arguments) fun clause => ?_
  split
  · refine .bind hR (callKey_keeps hR hCall fuel arguments) fun key => ?_
    refine .bind hR (.bind hR (.get hR) fun s => .pure hR _) fun known => ?_
    cases known with
    | some value => exact .pure hR _
    | none => exact beginClause_keeps hR name clause arguments _
  · exact beginClause_keeps hR name clause arguments none

theorem beginByName_keeps (fuel : Nat) (name : String) (arguments : List Value) :
    Keeps R .nothing (beginByName call fuel name arguments) := by
  intro s hPlaced hFits
  obtain ⟨run, hCalls, hRun⟩ := exists_callsByName s name arguments
  rw [hRun]
  refine (?_ : Keeps R .nothing (run call fuel)) s hPlaced hFits
  cases hCalls with
  | @function f => exact beginFunction_keeps hR hCall fuel name f.clauses f.litAt arguments
  | @tag parent =>
      exact .bind hR (tagChecked_keeps hR name parent arguments) fun _ => .pure hR _
  | host =>
      refine .bind hR (.mapError (.ofExcept hR _)) fun value => ?_
      exact .bind hR (newValue_keeps hR value) fun _ => .pure hR _
  | @builtin b =>
      exact .bind hR (.mapError (builtin_keeps hR hCall fuel b arguments)) fun _ => .pure hR _
  | refused error => exact .fail hR error

/-- **What a call begins with keeps the relation.** -/
theorem beginCall_keeps (fuel : Nat) (function : Value) (arguments : List Value) :
    Keeps R .nothing (beginCall call fuel function arguments) := by
  unfold beginCall
  split
  · refine .bind hR (.get hR) fun s => ?_
    split
    · exact beginClosure_keeps hR hCall _ arguments
    · exact .fail hR _
  · exact beginByName_keeps hR hCall fuel _ arguments
  · exact .bind hR (.get hR) fun s => .fail hR _

end

/-! ## Bodies -/

/-- Every result of a computation, from whatever state, has a property. -/
def Gives {α : Type} (P : α → Prop) (x : Run α) : Prop :=
  ∀ (s : State) (value : α), (x s).1 = .ok value → P value

namespace Gives

variable {α β : Type} {P : α → Prop} {Q : β → Prop}

theorem pure {value : α} (h : P value) : Gives P (Pure.pure value : Run α) := by
  intro s other hSame
  cases hSame
  exact h

theorem fail (error : Error) : Gives P (ClauseLisp.fail error : Run α) := fun _ _ h => nomatch h

theorem bind {x : Run α} {f : α → Run β} (hx : Gives P x) (hf : ∀ value, P value → Gives Q (f value)) :
    Gives Q (x >>= f) := by
  intro s other h
  obtain ⟨value, s', hFirst, hRest⟩ := Run.bind_eq_ok (Prod.ext h rfl)
  exact hf value (hx s value (congrArg Prod.fst hFirst)) s' other (congrArg Prod.fst hRest)

/-- Looking at the state does not change it. -/
theorem of_get {f : State → Run β} {s : State} {value : β} (hf : Gives Q (f s))
    (h : ((get >>= f) s).1 = .ok value) : Q value :=
  hf s value h

/-- Nothing has to be known of the first result. -/
theorem after {x : Run α} {f : α → Run β} (hf : ∀ value, Gives Q (f value)) : Gives Q (x >>= f) :=
  bind (fun _ _ _ => trivial : Gives (fun _ => True) x) fun value _ => hf value

end Gives

/-- A call that is done, or goes on with a body that is placed. -/
def Begun.IsPlaced : Begun → Prop
  | .done _ => True
  | .enter activation => activation.body.isPlaced false = true

theorem chooseClause_gives (name : String) (clauses : List Clause) (arguments : List Value) :
    Gives (· ∈ clauses) (chooseClause name clauses arguments) := by
  refine .after fun s => ?_
  have hChosen : Gives (fun choice => ∀ c, choice = some c → c.clause ∈ clauses)
      (Run.typing (choose? s.program.types clauses arguments)) := by
    intro s' choice h c hc
    have hFrom : (chooseFrom s.program.types arguments 0 clauses s'.asked).1 = some c := by
      rw [← hc]
      exact Except.ok.inj h
    exact (match?_of_chooseFrom hFrom).1
  refine hChosen.bind fun choice hMem => ?_
  cases choice with
  | none => exact .after fun s => .fail _
  | some choice => exact .pure (hMem choice rfl)

theorem beginClosure_gives {call : Caller} {closure : Closure}
    (h : closure.clause.body.isPlaced false = true) (arguments : List Value) :
    Gives Begun.IsPlaced (beginClosure call closure arguments) := by
  unfold beginClosure
  have hBegin : Gives Begun.IsPlaced (do
      let arguments ← exposeWhere call closure.clause.litAt 0 arguments
      let clause ← chooseClause "lambda" [closure.clause] arguments
      let scope ← childScope closure.scope
      bindArguments scope clause.params arguments
      return Begun.enter ⟨"lambda", clause.body, scope, none⟩) := by
    refine .after fun arguments => (chooseClause_gives _ _ arguments).bind fun clause hMem => ?_
    refine .after fun scope => .after fun _ => .pure ?_
    rw [List.mem_singleton.mp hMem]
    exact h
  dsimp only
  split
  · exact .after fun _ => hBegin
  · exact hBegin

theorem beginClause_gives {name : String} {clause : Clause} (h : clause.body.isPlaced false = true)
    (arguments : List Value) (memo : Option Awaited) :
    Gives Begun.IsPlaced (beginClause name clause arguments memo) :=
  .after fun _ => .after fun _ => .pure h

theorem beginFunction_gives {call : Caller} {fuel : Nat} {name : String} {clauses : List Clause}
    (h : ∀ c ∈ clauses, c.body.isPlaced false = true) (isLiteral : Nat → Bool)
    (arguments : List Value) :
    Gives Begun.IsPlaced (beginFunction call fuel name clauses isLiteral arguments) := by
  refine .after fun arguments => (chooseClause_gives name clauses arguments).bind fun clause hMem => ?_
  split
  · refine .after fun key => .after fun known => ?_
    cases known with
    | some value => exact .pure trivial
    | none => exact beginClause_gives (h clause hMem) arguments _
  · exact beginClause_gives (h clause hMem) arguments none

theorem beginByName_gives {call : Caller} {fuel : Nat} {name : String} {arguments : List Value}
    {s : State} {begun : Begun} (hPlaced : s.Placed)
    (h : (beginByName call fuel name arguments s).1 = .ok begun) : begun.IsPlaced := by
  have hDone : ∀ x : Run Value, Gives Begun.IsPlaced (x >>= fun value => pure (.done value)) :=
    fun x => .after fun value => .pure trivial
  obtain ⟨run, hCalls, hRun⟩ := exists_callsByName s name arguments
  rw [hRun] at h
  refine (?_ : Gives Begun.IsPlaced (run call fuel)) s begun h
  cases hCalls with
  | @function f hFunction =>
      exact beginFunction_gives (hPlaced.program.functions name f hFunction) f.litAt arguments
  | tag => exact hDone _
  | host => exact .after fun value => hDone (newValue value)
  | builtin => exact hDone _
  | refused error => exact .fail error

/-- **The body that a call goes on with is placed.** -/
theorem isPlaced_of_beginCall {call : Caller} {fuel : Nat} {function : Value}
    {arguments : List Value} {s : State} {begun : Begun} (hPlaced : s.Placed)
    (h : (beginCall call fuel function arguments s).1 = .ok begun) : begun.IsPlaced := by
  unfold beginCall at h
  cases hFunction : function.untagged with
  | lambda id =>
      simp only [hFunction] at h
      refine Gives.of_get ?_ h
      cases hClosure : s.closures[id]? with
      | some closure => exact beginClosure_gives (hPlaced.closures id closure hClosure) arguments
      | none => exact .fail _
  | func name =>
      simp only [hFunction] at h
      exact beginByName_gives hPlaced h
  | _ =>
    simp only [hFunction] at h
    exact Gives.of_get (.fail _) h

end ClauseLisp
