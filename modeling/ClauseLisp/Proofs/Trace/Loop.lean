import ClauseLisp.Proofs.Frame.Loop
import ClauseLisp.Proofs.Trace.Calls

/-!
# Tracing loops

One step of a loop asks for parts of its expression, one level deeper, and for calls of
iterators.  A loop asks for what its steps ask for.  The one thing that it does beside
is to keep its value in the end, for all the calls that wait for it, so it is traced up to
there (`loopValue`).

## Main results

* `step_traceable` — one step of the loop.
* `loopValue_traceable` — a loop up to its value.
* `loopValue_ends` — how it ends, and where.
-/

namespace ClauseLisp

/-! ## Evaluating parts -/

theorem evalAll_traceable (scope : Nat) :
    ∀ es : List Expr, Traceable fun worker => evalAll worker.evaluator scope es := by
  intro es
  induction es with
  | nil => exact .pure _
  | cons e es ih => exact .bind (.eval e scope) fun value => .bind ih fun values => .pure _

theorem evalLogical_traceable (form : String) (decisive : Bool) (scope : Nat) :
    ∀ es : List Expr,
      Traceable fun worker => evalLogical worker.evaluator form decisive scope es := by
  intro es
  induction es with
  | nil => exact .pure _
  | cons e es ih =>
      refine .bind (.eval e scope) fun value => ?_
      cases value.untagged with
      | bool b =>
          dsimp only
          split
          · exact .pure _
          · exact ih
      | _ => exact get_fail_traceable fun s => .typing (.operand form (s.repr _))

theorem resolve_traceable (name : String) (scope : Nat) : Traceable fun _ => resolve name scope := by
  refine .bind .get fun s => ?_
  split
  · exact .pure _
  · split
    · exact .pure _
    · exact .fail _

theorem evalChecked_traceable (form : String) (ty : Option Ty) (e : Expr) (scope : Nat) :
    Traceable fun worker => evalChecked worker.evaluator form ty e scope := by
  refine .bind (.eval e scope) fun value => ?_
  cases ty with
  | some ty => exact requireType_traceable form ty value
  | none => exact .pure value

theorem evalSet_traceable (name : String) (ty : Option Ty) (value : Expr) (claims : Bool)
    (scope : Nat) :
    Traceable fun worker => evalSet worker.evaluator name ty value claims scope := by
  intro s
  have hClaim : Traceable fun _ =>
      (if claims then claimSince s.unclaimed.length scope else pure () : Run Unit) := by
    split
    · exact .still fun _ => .of_same rfl rfl rfl rfl
    · exact .pure ()
  exact .congr ((Traceable.bind (evalChecked_traceable "set" ty value scope) fun result =>
    .bind hClaim fun _ => .bind (bindIn_traceable scope name result) fun _ => .pure result) s)
    fun worker => evalSet_apply worker.evaluator name ty value claims scope s

theorem evalLast_traceable (cast : Option Ty) (last : Expr) (scope : Nat) :
    Traceable fun worker => evalLast worker.evaluator cast last scope :=
  evalChecked_traceable "do" cast last scope

theorem leaveScope_traceable {α : Type} (scope : Nat) (outcome : Except Stop α) :
    Traceable fun _ => leaveScope scope outcome :=
  .still fun _ => .of_same rfl rfl rfl rfl

theorem evalBlock_traceable (task : Task) (body : List Expr) (cast : Option Ty) :
    Traceable fun worker => evalBlock worker.evaluator task body cast := by
  refine .bind (childScope_traceable task.scope) fun scope => ?_
  cases body.getLast? with
  | none => exact .pure _
  | some last =>
      refine .outcome_bind (evalAll_traceable scope body.dropLast) (fun outcome => ?_)
        fun _ _ _ => rfl
      cases outcome with
      | error stop => exact leaveScope_traceable scope _
      | ok values =>
          refine .bind .get fun s => ?_
          split
          · exact .pure _
          · refine .outcome_bind (evalLast_traceable cast last scope) (fun outcome => ?_)
              fun _ _ _ => rfl
            exact .bind (leaveScope_traceable scope outcome) fun value => .pure _

/-! ## Steps -/

theorem newClosure_traceable (clause : Clause) (scope : Nat) :
    Traceable fun _ => newClosure clause scope :=
  .still fun s => .closure s clause scope

/-- A step of a loop that asks a worker. -/
def Worker.step (worker : Worker) (fuel : Nat) : Task → Run Progress :=
  ClauseLisp.step worker.evaluator worker.caller fuel

/-- **One step of the loop can be traced.** -/
theorem step_traceable (fuel : Nat) (task : Task) :
    Traceable fun worker => worker.step fuel task := by
  unfold Worker.step step
  cases task.expr with
  | lit value => exact .pure _
  | var name => exact .bind (resolve_traceable name task.scope) fun _ => .pure _
  | cond test yes no =>
      refine .bind (.eval test task.scope) fun value => ?_
      cases value.untagged with
      | bool b => exact .pure _
      | _ => exact get_fail_traceable fun s => .typing (.condition (s.repr _))
  | block body cast => exact evalBlock_traceable task body cast
  | set name ty value claims =>
      exact .bind (evalSet_traceable name ty value claims task.scope) fun _ => .pure _
  | lambda params ret body => exact .bind (newClosure_traceable _ task.scope) fun _ => .pure _
  | conj operands =>
      exact .bind (evalLogical_traceable "and" false task.scope operands) fun _ => .pure _
  | disj operands =>
      exact .bind (evalLogical_traceable "or" true task.scope operands) fun _ => .pure _
  | call callee args =>
      refine .bind (.eval callee task.scope) fun function => ?_
      refine .bind (evalAll_traceable task.scope args) fun arguments => ?_
      refine .bind (beginCall_traceable fuel function arguments) fun begun => ?_
      cases begun with
      | done value => exact .pure _
      | enter activation => exact .pure _

/-! ## Loops -/

/-- The tasks that a loop goes on to, and the states in which it does. -/
inductive GoesOnTo (step : Task → Run Progress) (task : Task) (s : State) : Task → State → Prop where
  | refl : GoesOnTo step task s task s
  | next {last next : Task} {u u' : State} : GoesOnTo step task s last u →
      step last u = (.ok (.next next), u') → GoesOnTo step task s next u'

theorem GoesOnTo.after {step : Task → Run Progress} {task next last : Task} {s s' u : State}
    (hStep : step task s = (.ok (.next next), s')) (h : GoesOnTo step next s' last u) :
    GoesOnTo step task s last u := by
  induction h with
  | refl => exact .next .refl hStep
  | next _ hLast ih => exact .next ih hLast

/-- A loop up to its value: the slots that wait for it are not filled yet. -/
def loopValue (step : Task → Run Progress) : Nat → Task → Run (Value × List Awaited)
  | 0, _ => throw .outOfFuel
  | fuel + 1, task => do
    match ← (step task).outcome with
    | .error stop => throw (stop.leaving task.function)
    | .ok (.next task) => loopValue step fuel task
    | .ok (.done value) => return (value, task.pending)

/-- Keep a value in the slots that wait for it. -/
def keepValue (result : Value × List Awaited) : Run Value := do
  rememberAll result.1 result.2
  return result.1

/-- **A loop keeps its value in the end**, if it has one. -/
theorem loop_apply (step : Task → Run Progress) (fuel : Nat) :
    ∀ (task : Task) (s : State),
      loop step fuel task s = (loopValue step fuel task >>= keepValue) s := by
  induction fuel with
  | zero => exact fun _ _ => rfl
  | succ fuel ih =>
      intro task s
      rw [loop, loopValue, Run.outcome_bind_apply, Run.bind_apply, Run.outcome_bind_apply]
      rcases step task s with ⟨stop | value | next, s'⟩
      · rfl
      · rfl
      · rw [← Run.bind_apply]
        exact ih next s'

/-- How a loop ends: at the bound on its steps, where a step stops, or where one has a
value, for which the slots of the last task wait. -/
inductive Ends (step : Task → Run Progress) (task : Task) (s : State) :
    Except Stop (Value × List Awaited) × State → Prop where
  | exhausted {last : Task} {u : State} :
      GoesOnTo step task s last u → Ends step task s (.error .outOfFuel, u)
  | stopped {last : Task} {u s' : State} {stop : Stop} :
      GoesOnTo step task s last u → step last u = (.error stop, s') →
      Ends step task s (.error (stop.leaving last.function), s')
  | done {last : Task} {u s' : State} {value : Value} :
      GoesOnTo step task s last u → step last u = (.ok (.done value), s') →
      Ends step task s (.ok (value, last.pending), s')

theorem Ends.after {step : Task → Run Progress} {task next : Task} {s s' : State}
    {outcome : Except Stop (Value × List Awaited) × State}
    (hStep : step task s = (.ok (.next next), s')) (h : Ends step next s' outcome) :
    Ends step task s outcome := by
  cases h with
  | exhausted hChain => exact .exhausted (.after hStep hChain)
  | stopped hChain hLast => exact .stopped (.after hStep hChain) hLast
  | done hChain hLast => exact .done (.after hStep hChain) hLast

/-- **How a loop ends.** -/
theorem loopValue_ends (step : Task → Run Progress) (fuel : Nat) :
    ∀ (task : Task) (s : State), Ends step task s (loopValue step fuel task s) := by
  induction fuel with
  | zero => exact fun _ _ => .exhausted .refl
  | succ fuel ih =>
      intro task s
      rw [loopValue, Run.outcome_bind_apply]
      rcases hRun : step task s with ⟨stop | value | next, s'⟩
      · exact .stopped .refl hRun
      · exact .done .refl hRun
      · exact .after hRun (ih next s')

/-- **A loop can be traced up to its value.** -/
theorem loopValue_traceable (bound fuel : Nat) :
    ∀ task : Task, Traceable fun worker => loopValue (worker.step bound) fuel task := by
  induction fuel with
  | zero => exact fun _ => .throw .outOfFuel
  | succ fuel ih =>
      intro task
      refine .outcome_bind (step_traceable bound task) (fun outcome => ?_) fun _ _ _ => rfl
      rcases outcome with stop | value | next
      · exact .throw _
      · exact .pure _
      · exact ih next

end ClauseLisp
