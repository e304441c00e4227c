import ClauseLisp.Proofs.Trace.Basic

/-!
# Tracing calls

Forcing lazy lists, memo keys and builtins ask for calls of iterators only, and what else
they do is made of still moves.  So what a call begins with can be traced: it prepares
the arguments, chooses a clause, makes a key, and whatever it asks for on the way is the
call of an iterator in the state that it has come to.

## Main results

* `beginCall_traceable` — what a call begins with.
-/

namespace ClauseLisp

/-! ## Still moves -/

theorem newNode_traceable (iterator state : Value) : Traceable fun _ => newNode iterator state :=
  .still fun s => .node s iterator state

theorem newValue_traceable (value : Value) : Traceable fun _ => newValue value := by
  unfold newValue
  split
  · exact .typing _
  · exact .pure _

theorem printLine_traceable (line : String) : Traceable fun _ => printLine line := by
  refine .still fun s => ?_
  show s.Still { s with output := s.output ++ line ++ "\n" }
  rw [String.append_assoc]
  exact .printed s (line ++ "\n")

theorem bindIn_traceable (scope : Nat) (name : String) (value : Value) :
    Traceable fun _ => bindIn scope name value := by
  refine .bind .get fun s => ?_
  split
  · exact .fail _
  · exact .still fun _ => .of_same rfl rfl rfl rfl

theorem childScope_traceable (parent : Nat) : Traceable fun _ => childScope parent :=
  .still fun _ => .of_same rfl rfl rfl rfl

/-- An error that shows something of the state. -/
theorem get_fail_traceable {α : Type} (error : State → Error) :
    Traceable fun _ => (MonadState.get >>= fun s => ClauseLisp.fail (error s) : Run α) :=
  .bind .get fun _ => .fail _

/-! ## Forcing lazy lists -/

theorem uncons_traceable (context : String) (value : Value) :
    Traceable fun worker => uncons worker.caller context value := by
  unfold uncons
  cases value.untagged with
  | nil => exact .pure _
  | cell head tail elem => exact .pure _
  | lazy node =>
      refine .bind (force_traceable node) fun forced => ?_
      cases forced with
      | ended => exact .pure _
      | item head next => exact .pure _
  | _ => exact get_fail_traceable fun s => .cast context "list" (s.repr _) 0

theorem exposeHead_traceable (value : Value) :
    Traceable fun worker => exposeHead worker.caller value := by
  unfold exposeHead
  cases value with
  | lazy node =>
      refine .bind (force_traceable node) fun forced => ?_
      cases forced with
      | ended => exact .pure _
      | item head next => exact .pure _
  | _ => exact .pure _

theorem elements_traceable (fuel : Nat) (context : String) (value : Value) :
    Traceable fun worker => elements worker.caller fuel context value := by
  have hOnto : ∀ (done : List Value) (value : Value),
      Traceable fun worker => elementsOnto worker.caller context fuel done value := by
    induction fuel with
    | zero => exact fun _ _ => .throw .outOfFuel
    | succ fuel ih =>
        intro done value
        refine .bind (uncons_traceable context value) fun cell => ?_
        cases cell with
        | none => exact .pure _
        | some parts => exact ih (parts.1 :: done) parts.2
  exact hOnto [] value

/-! ## Memo keys -/

theorem listKeyOnto_traceable (key : Worker → Value → Run String)
    (hKey : ∀ value, Traceable fun worker => key worker value) (fuel : Nat) :
    ∀ (done : String) (value : Value),
      Traceable fun worker => listKeyOnto worker.caller (key worker) fuel done value := by
  induction fuel with
  | zero => exact fun _ _ => .throw .outOfFuel
  | succ fuel ih =>
      intro done value
      refine .bind (uncons_traceable "memo" value) fun cell => ?_
      cases cell with
      | none => exact .pure _
      | some parts => exact .bind (hKey parts.1) fun k => ih (done ++ k ++ " ") parts.2

theorem valueKey_traceable (fuel : Nat) :
    ∀ value : Value, Traceable fun worker => valueKey worker.caller fuel value := by
  induction fuel with
  | zero => exact fun _ => .throw .outOfFuel
  | succ fuel ih =>
      intro value
      have hList : ∀ list : Value, Traceable fun worker =>
          listKeyOnto worker.caller (valueKey worker.caller fuel) fuel "(" list >>= fun items =>
            pure (items ++ ")") := fun list =>
        .bind (listKeyOnto_traceable (fun worker => valueKey worker.caller fuel) ih fuel "(" list)
          fun items => .pure _
      cases value with
      | tagged name inner => exact .bind (ih inner) fun k => .pure _
      | nil => exact hList .nil
      | cell head tail elem => exact hList (.cell head tail elem)
      | lazy node => exact hList (.lazy node)
      | _ => exact .pure _

theorem callKey_traceable (fuel : Nat) (arguments : List Value) :
    Traceable fun worker => callKey worker.caller fuel arguments := by
  have hOnto : ∀ (arguments : List Value) (done : String),
      Traceable fun worker => callKeyOnto worker.caller fuel done arguments := by
    intro arguments
    induction arguments with
    | nil => exact fun _ => .pure _
    | cons argument arguments ih =>
        intro done
        exact .bind (valueKey_traceable fuel argument) fun k => ih (done ++ k ++ " ")
  exact hOnto arguments ""

/-! ## Builtins -/

theorem listArgument_traceable (arguments : List Value) (position : Nat) :
    Traceable fun _ => listArgument arguments position := by
  unfold listArgument
  split
  · exact .fail _
  · split
    · exact .pure _
    · exact get_fail_traceable fun s => s.view.argumentError "list" _ position

theorem listsEqual_traceable (equal : Worker → Value → Value → Run Bool)
    (hEqual : ∀ left right, Traceable fun worker => equal worker left right) (fuel : Nat) :
    ∀ left right : Value,
      Traceable fun worker => listsEqual worker.caller (equal worker) fuel left right := by
  induction fuel with
  | zero => exact fun _ _ => .throw .outOfFuel
  | succ fuel ih =>
      intro left right
      refine .bind (uncons_traceable "=" left) fun leftCell => ?_
      refine .bind (uncons_traceable "=" right) fun rightCell => ?_
      cases leftCell with
      | none => cases rightCell <;> exact .pure _
      | some leftParts =>
          cases rightCell with
          | none => exact .pure _
          | some rightParts =>
              refine .bind (hEqual leftParts.1 rightParts.1) fun same => ?_
              split
              · exact ih leftParts.2 rightParts.2
              · exact .pure _

theorem equalForced_traceable (fuel : Nat) :
    ∀ left right : Value, Traceable fun worker => equalForced worker.caller fuel left right := by
  induction fuel with
  | zero => exact fun _ _ => .throw .outOfFuel
  | succ fuel ih =>
      intro left right
      simp only [equalForced]
      split
      · exact listsEqual_traceable (fun worker => equalForced worker.caller fuel) ih fuel left right
      · exact .pure _

theorem allEqual_traceable (fuel : Nat) :
    ∀ arguments : List Value, Traceable fun worker => allEqual worker.caller fuel arguments := by
  intro arguments
  induction arguments with
  | nil => exact .pure _
  | cons left rest ih =>
      cases rest with
      | nil => exact .pure _
      | cons right rest =>
          simp only [allEqual]
          refine .bind (equalForced_traceable fuel left right) fun same => ?_
          split
          · exact ih
          · exact .pure _

theorem elementsOfAll_traceable (fuel : Nat) (context : String) :
    ∀ values : List Value,
      Traceable fun worker => elementsOfAll worker.caller fuel context values := by
  intro values
  induction values with
  | nil => exact .pure _
  | cons value values ih =>
      refine .bind (elements_traceable fuel context value) fun items => ?_
      exact .bind ih fun others => .pure _

theorem concatAll_traceable (fuel : Nat) (arguments : List Value) :
    Traceable fun worker => concatAll worker.caller fuel arguments := by
  unfold concatAll
  split
  · exact .pure _
  · exact .pure _
  · split
    · exact get_fail_traceable fun s => s.view.argumentError "list" _ _
    · refine .bind (elementsOfAll_traceable fuel "concat" arguments.dropLast) fun items => ?_
      exact .bind .get fun s => newValue_traceable _

theorem forceLists_traceable (fuel : Nat) (context : String) :
    ∀ values : List Value,
      Traceable fun worker => forceLists worker.caller fuel context values := by
  intro values
  induction values with
  | nil => exact .pure _
  | cons value values ih =>
      unfold forceLists
      split
      · exact .bind (elements_traceable fuel context value) fun _ => ih
      · exact ih

theorem printAll_traceable (fuel : Nat) (arguments : List Value) :
    Traceable fun worker => printAll worker.caller fuel arguments := by
  refine .bind (forceLists_traceable fuel "print" arguments) fun _ => ?_
  refine .bind .get fun s => ?_
  exact .bind (printLine_traceable _) fun _ => .pure _

theorem openPath_traceable (path : String) : Traceable fun _ => openPath path := by
  unfold openPath
  refine .bind .get fun s => ?_
  split
  · exact .throw _
  · split
    · exact .fail _
    · refine .bind .get fun s => ?_
      refine .bind (.still fun _ => .of_same rfl rfl rfl rfl) fun _ => ?_
      exact newNode_traceable _ _

theorem readNext_traceable (handle : Int) : Traceable fun _ => readNext handle := by
  unfold readNext
  split
  · exact .fail _
  · refine .bind .get fun s => ?_
    split
    · exact .fail _
    · rename_i stream _
      rcases stream.read with ⟨result, later⟩
      refine .bind (.still fun _ => .of_same rfl rfl rfl rfl) fun _ => ?_
      rcases result with cause | _ | c
      · exact .fail _
      · exact .pure _
      · exact .bind .get fun s => newValue_traceable _

theorem makeLazy_traceable (arguments : List Value) : Traceable fun _ => makeLazy arguments := by
  unfold makeLazy
  split
  · split
    · exact newNode_traceable _ _
    · exact get_fail_traceable fun s => s.view.argumentError "func" _ 0
  · exact .fail _

theorem intrinsic_traceable (fuel : Nat) (arguments : List Value) (intrinsic : Intrinsic) :
    Traceable fun worker => intrinsic.run worker.caller fuel arguments := by
  have hList : ∀ {α : Type} (f : Worker → Value → Run α),
      (∀ list, Traceable fun worker => f worker list) →
      Traceable fun worker => listArgument arguments 0 >>= f worker := fun f hf =>
    .bind (listArgument_traceable arguments 0) hf
  cases intrinsic with
  | equal => exact .bind (allEqual_traceable fuel arguments) fun _ => .pure _
  | head =>
      refine hList _ fun list => .bind (uncons_traceable "head" list) fun cell => ?_
      cases cell with
      | none => exact .fail _
      | some parts => exact .pure _
  | tail =>
      refine hList _ fun list => .bind (uncons_traceable "tail" list) fun cell => ?_
      cases cell with
      | none => exact .pure _
      | some parts => exact .pure _
  | isEmpty =>
      exact hList _ fun list => .bind (uncons_traceable "empty?" list) fun _ => .pure _
  | gen => exact makeLazy_traceable arguments
  | concat => exact concatAll_traceable fuel arguments
  | print => exact printAll_traceable fuel arguments
  | openFile =>
      simp only [Intrinsic.run]
      split
      · split
        · exact openPath_traceable _
        · exact get_fail_traceable fun s => s.view.argumentError "str" _ 0
      · exact .fail _
  | readChar =>
      simp only [Intrinsic.run]
      split
      · exact readNext_traceable _
      · exact get_fail_traceable fun s => s.view.argumentError "int" _ 0
      · exact .fail _

theorem builtin_traceable (fuel : Nat) (b : Builtin) (arguments : List Value) :
    Traceable fun worker => b.run worker.caller fuel arguments := by
  unfold Builtin.run
  split
  · refine .bind .get fun s => ?_
    exact .bind (.ofExcept _) fun value => newValue_traceable value
  · exact intrinsic_traceable fuel arguments _

/-! ## Calls -/

theorem exposeWhere_traceable (isLiteral : Nat → Bool) :
    ∀ (arguments : List Value) (position : Nat),
      Traceable fun worker => exposeWhere worker.caller isLiteral position arguments := by
  intro arguments
  induction arguments with
  | nil => exact fun _ => .pure _
  | cons argument arguments ih =>
      intro position
      simp only [exposeWhere]
      have hRest : ∀ first : Value, Traceable fun worker =>
          exposeWhere worker.caller isLiteral (position + 1) arguments >>= fun rest =>
            pure (first :: rest) := fun _ =>
        .bind (ih (position + 1)) fun _ => .pure _
      split
      · exact .bind (exposeHead_traceable argument) hRest
      · exact .bind (.pure argument) hRest

theorem chooseClause_traceable (name : String) (clauses : List Clause) (arguments : List Value) :
    Traceable fun _ => chooseClause name clauses arguments := by
  refine .bind .get fun s => ?_
  refine .bind (.typing _) fun choice => ?_
  cases choice with
  | none => exact get_fail_traceable fun s => .dispatch name _
  | some choice => exact .pure _

theorem requireType_traceable (context : String) (ty : Ty) (value : Value) :
    Traceable fun _ => requireType context ty value := by
  refine .bind .get fun s => .bind (.typing _) fun result => ?_
  obtain ⟨accepted, b⟩ := result
  cases accepted with
  | true => exact .pure _
  | false => exact get_fail_traceable fun s => .cast context ty.text (s.repr value) 0

theorem tagChecked_traceable (name : String) (parent : Ty) (arguments : List Value) :
    Traceable fun _ => tagChecked name parent arguments := by
  unfold tagChecked
  split
  · exact .bind (requireType_traceable name parent _) fun _ => .pure _
  · exact .fail _

theorem bindArguments_traceable (scope : Nat) :
    ∀ (ps : List Pattern) (arguments : List Value),
      Traceable fun _ => bindArguments scope ps arguments := by
  intro ps
  induction ps with
  | nil => exact fun _ => .pure _
  | cons p ps ih =>
      intro arguments
      cases arguments with
      | nil => exact .pure _
      | cons argument arguments =>
          unfold bindArguments
          split
          · exact .bind (bindIn_traceable scope _ argument) fun _ => ih arguments
          · exact .bind (.pure ()) fun _ => ih arguments

/-- A scope is made and filled, and the call goes on with a body there. -/
theorem enter_traceable (parent : Nat) (ps : List Pattern) (arguments : List Value)
    (activation : Nat → Activation) :
    Traceable fun _ => childScope parent >>= fun scope =>
      bindArguments scope ps arguments >>= fun _ => (pure (.enter (activation scope)) : Run Begun) :=
  .bind (childScope_traceable parent) fun scope =>
    .bind (bindArguments_traceable scope ps arguments) fun _ => .pure _

theorem beginClosure_traceable (closure : Closure) (arguments : List Value) :
    Traceable fun worker => beginClosure worker.caller closure arguments := by
  have hBegin : Traceable fun worker => (do
      let arguments ← exposeWhere worker.caller closure.clause.litAt 0 arguments
      let clause ← chooseClause "lambda" [closure.clause] arguments
      let scope ← childScope closure.scope
      bindArguments scope clause.params arguments
      return Begun.enter ⟨"lambda", clause.body, scope, none⟩) :=
    .bind (exposeWhere_traceable _ arguments 0) fun arguments =>
      .bind (chooseClause_traceable "lambda" _ arguments) fun clause =>
        enter_traceable closure.scope clause.params arguments
          fun scope => ⟨"lambda", clause.body, scope, none⟩
  unfold beginClosure
  dsimp only
  split
  · exact .bind (.fail _) fun _ => hBegin
  · exact hBegin

theorem beginClause_traceable (name : String) (clause : Clause) (arguments : List Value)
    (memo : Option Awaited) : Traceable fun _ => beginClause name clause arguments memo :=
  enter_traceable Scopes.globals clause.params arguments
    fun scope => ⟨name, clause.body, scope, memo⟩

theorem beginFunction_traceable (fuel : Nat) (name : String) (clauses : List Clause)
    (isLiteral : Nat → Bool) (arguments : List Value) :
    Traceable fun worker => beginFunction worker.caller fuel name clauses isLiteral arguments := by
  refine .bind (exposeWhere_traceable isLiteral arguments 0) fun arguments => ?_
  refine .bind (chooseClause_traceable name clauses arguments) fun clause => ?_
  split
  · refine .bind (callKey_traceable fuel arguments) fun key => ?_
    refine .bind (.bind .get fun s => .pure _) fun known => ?_
    cases known with
    | some value => exact .pure _
    | none => exact beginClause_traceable name clause arguments _
  · exact beginClause_traceable name clause arguments none

theorem beginByName_traceable (fuel : Nat) (name : String) (arguments : List Value) :
    Traceable fun worker => beginByName worker.caller fuel name arguments := by
  intro s
  obtain ⟨run, hCalls, hRun⟩ := exists_callsByName s name arguments
  refine .congr ((?_ : Traceable fun worker => run worker.caller fuel) s)
    fun worker => hRun worker.caller fuel
  cases hCalls with
  | @function f => exact beginFunction_traceable fuel name f.clauses f.litAt arguments
  | @tag parent => exact .bind (tagChecked_traceable name parent arguments) fun _ => .pure _
  | host =>
      refine .bind (.mapError (.ofExcept _)) fun value => ?_
      exact .bind (newValue_traceable value) fun _ => .pure _
  | @builtin b => exact .bind (.mapError (builtin_traceable fuel b arguments)) fun _ => .pure _
  | refused error => exact .fail error

/-- **What a call begins with can be traced.** -/
theorem beginCall_traceable (fuel : Nat) (function : Value) (arguments : List Value) :
    Traceable fun worker => beginCall worker.caller fuel function arguments := by
  unfold beginCall
  cases function.untagged with
  | lambda id =>
      refine .bind .get fun s => ?_
      cases s.closures[id]? with
      | some closure => exact beginClosure_traceable closure arguments
      | none => exact .fail _
  | func name => exact beginByName_traceable fuel name arguments
  | _ => exact get_fail_traceable fun s => .eval (.notFunction (s.repr _))

end ClauseLisp
