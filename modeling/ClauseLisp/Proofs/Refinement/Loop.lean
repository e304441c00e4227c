import Mathlib
import ClauseLisp.Proofs.Refinement.Machine
import ClauseLisp.Proofs.Refinement.Reference

/-!
# The loop agrees with plain recursion

The machine drops the frame of an expression in tail position: it goes on with
another task and keeps, for the end of the chain, the calls that wait for the
value.  `Reference.exec` keeps every frame.  Both come to the same end.

The two readings are joined by two equations about one step.  A step does not
look at the function and the waiting calls of its task, it only carries them
along (`step_eq_within`), and plain recursion is one step followed by the
recursive call for the task it goes on with (`evalWith_eq_follow`).  The rest
is an induction over the chain of tail calls inside an induction on fuel.

## Main results

* `reference_refines_exec` — where plain recursion comes to an end, so does
  the machine, with any larger fuel.
* `exec_refines_reference` — and the other way round.
* `exec_agrees_with_reference` — both together, for an expression in a scope.
-/

namespace ClauseLisp

/-! ## What is done at the end of a task -/

theorem rememberAll_apply (value : Value) (slots : List Awaited) (s : State) :
    rememberAll value slots s =
      (.ok (),
        { s with
          program :=
            slots.foldl (fun p slot => p.remember slot.function slot.key value) s.program }) :=
  rfl

theorem settling_apply (function : Option String) (slots : List Awaited) (x : Run Value)
    (s : State) :
    settling function slots x s =
      match x s with
      | (.error stop, s') => (.error (stop.leaving function), s')
      | (.ok value, s') => (.ok value, (rememberAll value slots s').2) := by
  unfold settling
  rw [Run.outcome_bind_apply]
  rcases x s with ⟨_ | value, s'⟩ <;> rfl

/-- With no function to name and no call that waits, nothing is done. -/
theorem settling_none (x : Run Value) : settling none [] x = x := by
  funext s
  rw [settling_apply]
  rcases x s with ⟨stop | value, s'⟩
  · cases stop <;> rfl
  · rfl

theorem leaving_sameRoot {stop stop' : Stop} (h : stop.SameRoot stop')
    (function : Option String) :
    (stop.leaving function).SameRoot (stop'.leaving function) := by
  cases stop with
  | error e =>
      obtain ⟨e', rfl, hErr⟩ := Stop.SameRoot.error_left h
      cases function with
      | none => exact hErr
      | some name => exact hErr.inCall name name
  | outOfFuel =>
      cases stop' <;> cases h
      exact Stop.SameRoot.refl _
  | unread path =>
      cases stop' <;> cases h
      exact Stop.SameRoot.refl _

/-- An error that leaves two functions is the same as one that leaves the inner
one only. -/
theorem leaving_leaving_sameRoot (stop : Stop) (inner outer : Option String) :
    ((stop.leaving inner).leaving outer).SameRoot (stop.leaving (inner.or outer)) := by
  cases stop with
  | error e =>
      cases inner with
      | none => exact Stop.SameRoot.refl _
      | some f =>
          cases outer with
          | none => exact Stop.SameRoot.refl _
          | some g => exact Error.sameRoot_inCall_inCall f g e
  | outOfFuel => exact Stop.SameRoot.refl _
  | unread path => exact Stop.SameRoot.refl _

/-- Doing what is due for the inner task and then for the outer one is doing
both at once at the end of the chain. -/
theorem settling_settling (inner outer : Option String) (slots slots' : List Awaited)
    (x : Run Value) (s : State) :
    SameOutcome (settling outer slots' (settling inner slots x) s).1
        (settling (inner.or outer) (slots ++ slots') x s).1 ∧
      (settling outer slots' (settling inner slots x) s).2 =
        (settling (inner.or outer) (slots ++ slots') x s).2 := by
  simp only [settling_apply]
  rcases x s with ⟨stop | value, s'⟩
  · exact ⟨leaving_leaving_sameRoot stop inner outer, rfl⟩
  · refine ⟨rfl, ?_⟩
    simp only [rememberAll_apply, List.foldl_append]

/-! ## One step -/

/-- A task on its own: no function is named, and no call waits. -/
def Task.bare (task : Task) : Task := { expr := task.expr, scope := task.scope }

/-- A task as the continuation of another one. -/
def Task.within (outer inner : Task) : Task :=
  { inner with
    function := inner.function.or outer.function
    pending := inner.pending ++ outer.pending }

/-- What a step gives, as the continuation of a task. -/
def Progress.within (outer : Task) : Progress → Progress
  | .done value => .done value
  | .next inner => .next (outer.within inner)

/-- A step only carries the function and the waiting calls of its task along. -/
theorem step_eq_within (eval : Evaluator) (call : Caller) (fuel : Nat) (task : Task) :
    step eval call fuel task =
      (step eval call fuel task.bare >>= fun p => pure (p.within task)) := by
  obtain ⟨e, scope, function, pending⟩ := task
  cases e with
  | lit value => rfl
  | var name => simp only [step, Task.bare, bind_assoc, pure_bind, Progress.within]
  | cond test yes no =>
      simp only [step, Task.bare, bind_assoc]
      congr 1
      funext value
      cases value.untagged <;> rfl
  | block body cast =>
      simp only [step, Task.bare, evalBlock, bind_assoc]
      congr 1
      funext inner
      cases body.getLast? with
      | none => rfl
      | some last =>
          simp only [bind_assoc]
          congr 1
          funext outcome
          cases outcome with
          | error stop =>
              funext s
              rw [Run.bind_apply]
              rfl
          | ok values =>
              simp only [bind_assoc]
              congr 1
              funext s
              split
              · rfl
              · simp only [bind_assoc, pure_bind, Progress.within]
  | set name ty value claims => simp only [step, Task.bare, bind_assoc, pure_bind, Progress.within]
  | lambda params ret body => simp only [step, Task.bare, bind_assoc, pure_bind, Progress.within]
  | conj operands => simp only [step, Task.bare, bind_assoc, pure_bind, Progress.within]
  | disj operands => simp only [step, Task.bare, bind_assoc, pure_bind, Progress.within]
  | call callee args =>
      simp only [step, Task.bare, bind_assoc]
      congr 1
      funext function
      congr 1
      funext arguments
      congr 1
      funext begun
      cases begun with
      | done value => rfl
      | enter activation =>
          simp only [pure_bind, Progress.within, Task.within, Task.enter, Option.some_or,
            List.append_nil]

namespace Reference

/-- Go on after a step by recursion. -/
def follow (same : Evaluator) : Progress → Run Value
  | .done value => pure value
  | .next task => settling task.function task.pending (same task.expr task.scope)

/-- Plain recursion is a step of the loop and a recursive call for the rest. -/
theorem evalWith_eq_follow (deeper same : Evaluator) (call : Caller) (fuel scope : Nat)
    (e : Expr) :
    evalWith deeper same call fuel scope e =
      (step deeper call fuel { expr := e, scope } >>= follow same) := by
  cases e with
  | lit value => rfl
  | var name => simp only [evalWith, step, bind_assoc, pure_bind, follow, bind_pure]
  | cond test yes no =>
      simp only [evalWith, step, bind_assoc]
      congr 1
      funext value
      cases value.untagged with
      | bool b => exact (settling_none _).symm
      | _ => rfl
  | block body cast =>
      simp only [evalWith, step, Reference.evalBlock, ClauseLisp.evalBlock, bind_assoc]
      congr 1
      funext inner
      cases body.getLast? with
      | none => rfl
      | some last =>
          simp only [bind_assoc]
          congr 1
          funext outcome
          cases outcome with
          | error stop =>
              funext s
              rw [Run.bind_apply]
              rfl
          | ok values =>
              simp only [bind_assoc]
              congr 1
              funext s
              split
              · exact (settling_none _).symm
              · simp only [bind_assoc, pure_bind, follow, bind_pure]
  | set name ty value claims =>
      simp only [evalWith, step, bind_assoc, pure_bind, follow, bind_pure]
  | lambda params ret body =>
      simp only [evalWith, step, bind_assoc, pure_bind, follow, bind_pure]
  | conj operands => simp only [evalWith, step, bind_assoc, pure_bind, follow, bind_pure]
  | disj operands => simp only [evalWith, step, bind_assoc, pure_bind, follow, bind_pure]
  | call callee args =>
      simp only [evalWith, step, bind_assoc]
      congr 1
      funext function
      congr 1
      funext arguments
      congr 1
      funext begun
      cases begun with
      | done value => rfl
      | enter activation =>
          simp only [pure_bind, follow, evalBody, Task.enter, List.append_nil]

end Reference

/-- What becomes of a task after a step: `rest` is for the task that the step
goes on with. -/
def afterStep (task : Task) (rest : Task → Run Value) : Except Stop Progress → Run Value
  | .error stop => throw (stop.leaving task.function)
  | .ok (.done value) => do
    rememberAll value task.pending
    return value
  | .ok (.next inner) => rest inner

theorem afterStep_refines (task : Task) {rest rest' : Task → Run Value}
    (hRest : ∀ inner, Refines (rest inner) (rest' inner)) {o o' : Except Stop Progress}
    (h : SameOutcome o o') : Refines (afterStep task rest o) (afterStep task rest' o') := by
  cases o with
  | error stop =>
      obtain ⟨stop', rfl, hStop⟩ := SameOutcome.error_left h
      exact Refines.of_same fun s => ⟨leaving_sameRoot hStop task.function, rfl⟩
  | ok progress =>
      obtain rfl := SameOutcome.ok_left h
      cases progress with
      | done value => exact Refines.refl _
      | next inner => exact hRest inner

theorem loop_succ (eval : Evaluator) (call : Caller) (fuel steps : Nat) (task : Task) :
    loop (step eval call fuel) (steps + 1) task =
      ((step eval call fuel task.bare).outcome >>=
        afterStep task fun inner => loop (step eval call fuel) steps (task.within inner)) := by
  rw [loop, step_eq_within]
  funext s
  rw [Run.outcome_bind_apply, Run.outcome_bind_apply, Run.bind_apply]
  rcases step eval call fuel task.bare s with ⟨_ | _ | inner, s'⟩ <;> rfl

theorem settling_follow (same : Evaluator) (task : Task) (x : Run Progress) :
    settling task.function task.pending (x >>= Reference.follow same) =
      (x.outcome >>=
        afterStep task fun inner =>
          settling task.function task.pending
            (settling inner.function inner.pending (same inner.expr inner.scope))) := by
  funext s
  rw [settling_apply, Run.outcome_bind_apply, Run.bind_apply]
  rcases x s with ⟨_ | _ | inner, s'⟩
  · rfl
  · rfl
  · simp only [afterStep, Reference.follow]
    exact (settling_apply task.function task.pending _ s').symm

/-! ## The chain of tail calls

Both directions are inductions over the chain.  The hypotheses speak of the
evaluations one level deeper, which the steps of the chain make.
-/

namespace Reference

/-- Expressions, evaluated by plain recursion. -/
abbrev evalAt (fuel level : Nat) : Evaluator := fun e scope => exec fuel level (.eval e scope)

/-- Calls, evaluated by plain recursion. -/
abbrev callAt (fuel level : Nat) : Caller :=
  fun function arguments => exec fuel level (.call function arguments)

end Reference

/-- Expressions, evaluated by the machine. -/
abbrev evalAt (fuel level : Nat) : Evaluator :=
  fun e scope => exec fuel level (.work { expr := e, scope })

/-- Calls, evaluated by the machine. -/
abbrev callAt (fuel level : Nat) : Caller :=
  fun function arguments => exec fuel level (.call function arguments)

/-- Plain recursion, with what is due at the end of a task. -/
def settledTask (fuel level : Nat) (task : Task) : Run Value :=
  settling task.function task.pending (Reference.exec fuel level (.eval task.expr task.scope))

theorem settledTask_succ {level : Nat} (hLevel : level < maxLevel) (fuel : Nat) (task : Task) :
    settledTask (fuel + 1) level task =
      ((step (Reference.evalAt fuel (level + 1)) (Reference.callAt fuel (level + 1)) fuel
          task.bare).outcome >>=
        afterStep task fun inner =>
          settling task.function task.pending (settledTask fuel level inner)) := by
  have hNot : ¬ level ≥ maxLevel := by omega
  rw [settledTask, Reference.exec, if_neg hNot, Reference.evalWith_eq_follow]
  exact settling_follow _ task _

/-- What is due for a task and the one it continues can be done at once. -/
theorem settledTask_within (fuel level : Nat) (outer inner : Task) (s : State) :
    SameOutcome
        (settling outer.function outer.pending (settledTask fuel level inner) s).1
        (settledTask fuel level (outer.within inner) s).1 ∧
      (settling outer.function outer.pending (settledTask fuel level inner) s).2 =
        (settledTask fuel level (outer.within inner) s).2 :=
  settling_settling _ _ _ _ _ s

/-- A chain of tail calls on one level: plain recursion refines to the loop. -/
theorem settledTask_refines_loop {level : Nat} (hLevel : level < maxLevel) {eval : Evaluator}
    {call : Caller} {n bound : Nat} (hBound : n ≤ bound)
    (hEval : ∀ k ≤ n, (Reference.evalAt k (level + 1)).Refines eval)
    (hCall : ∀ k ≤ n, (Reference.callAt k (level + 1)).Refines call) :
    ∀ k, k ≤ n + 1 → ∀ steps, k ≤ steps → ∀ task,
      Refines (settledTask k level task) (loop (step eval call bound) steps task) := by
  intro k
  induction k with
  | zero => intro _ steps _ task; exact fun s => .inl rfl
  | succ k ih =>
      intro hk steps hSteps task
      obtain ⟨steps, rfl⟩ : ∃ j, steps = j + 1 := ⟨steps - 1, by omega⟩
      rw [settledTask_succ hLevel, loop_succ]
      have hStep := step_refines (hEval k (by omega)) (hCall k (by omega))
        (show k ≤ bound by omega) task.bare
      refine Refines.outcome_bind hStep (fun s => rfl) fun o o' hSame => ?_
      refine afterStep_refines task (fun inner => ?_) hSame
      exact (Refines.of_same (settledTask_within k level task inner)).trans
        (ih (by omega) steps (by omega) (task.within inner))

/-- A chain of tail calls on one level: the loop refines to plain recursion. -/
theorem loop_refines_settledTask {level : Nat} (hLevel : level < maxLevel) {eval : Evaluator}
    {call : Caller} {fuel n : Nat} (hFuel : fuel ≤ n)
    (hEval : ∀ k, n ≤ k → eval.Refines (Reference.evalAt k (level + 1)))
    (hCall : ∀ k, n ≤ k → call.Refines (Reference.callAt k (level + 1))) :
    ∀ steps k, n + steps ≤ k → ∀ task,
      Refines (loop (step eval call fuel) steps task) (settledTask k level task) := by
  intro steps
  induction steps with
  | zero => intro k _ task; exact fun s => .inl rfl
  | succ steps ih =>
      intro k hk task
      obtain ⟨k, rfl⟩ : ∃ j, k = j + 1 := ⟨k - 1, by omega⟩
      rw [settledTask_succ hLevel, loop_succ]
      have hStep := step_refines (hEval k (by omega)) (hCall k (by omega))
        (show fuel ≤ k by omega) task.bare
      refine Refines.outcome_bind hStep (fun s => rfl) fun o o' hSame => ?_
      refine afterStep_refines task (fun inner => ?_) hSame
      refine (ih k (by omega) (task.within inner)).trans (Refines.of_same fun s => ?_)
      have hSame' := settledTask_within k level task inner s
      exact ⟨hSame'.1.symm, hSame'.2.symm⟩

/-! ## All levels -/

/-- Beyond the last level both stop with the depth limit, the machine before it
looks at the function of its task. -/
theorem settledTask_sameOutcome_depthLimit (task : Task) (fuel : Nat) {level : Nat}
    (hLevel : level ≥ maxLevel) (s : State) :
    SameOutcome (settledTask (fuel + 1) level task s).1
        (.error (.error (.eval (.depthLimit maxLevel)))) ∧
      (settledTask (fuel + 1) level task s).2 = s := by
  have hNamed : ¬ (Error.eval (.depthLimit maxLevel)).root.Unnamed := by
    rintro ⟨_, _, _, hEq⟩
    cases hEq
  rw [settledTask, Reference.exec, if_pos hLevel, settling_apply]
  cases task.function with
  | none => exact ⟨SameOutcome.refl _, rfl⟩
  | some name => exact ⟨Error.sameRoot_inCall hNamed name, rfl⟩

/-- **Plain recursion refines to the machine**, on every level and for every
larger fuel. -/
theorem reference_refines_exec (n : Nat) :
    ∀ bound, n < bound → ∀ level,
      (∀ task, Refines (settledTask n level task) (exec bound level (.work task))) ∧
        (Reference.callAt n level).Refines (callAt bound level) := by
  induction n using Nat.strongRecOn with
  | ind n ih =>
      intro bound hBound level
      cases n with
      | zero => exact ⟨fun task s => .inl rfl, fun function arguments s => .inl rfl⟩
      | succ n =>
          obtain ⟨bound, rfl⟩ : ∃ b, bound = b + 1 := ⟨bound - 1, by omega⟩
          constructor
          · intro task
            by_cases hLevel : level ≥ maxLevel
            · rw [exec, if_pos hLevel]
              exact Refines.of_same fun s =>
                settledTask_sameOutcome_depthLimit task n hLevel s
            · rw [exec, if_neg hLevel]
              refine settledTask_refines_loop (by omega) (show n ≤ bound by omega) ?_ ?_
                (n + 1) (Nat.le_refl _) bound (by omega) task
              · intro k hk e scope
                have hTask := (ih k (by omega) bound (by omega) (level + 1)).1
                  { expr := e, scope }
                rwa [settledTask, settling_none] at hTask
              · intro k hk
                exact (ih k (by omega) bound (by omega) (level + 1)).2
          · intro function arguments
            have hHere := ih n (by omega) bound (by omega) level
            refine Refines.bind
              (beginCall_refines hHere.2 (show n ≤ bound by omega) function arguments)
              fun begun => ?_
            cases begun with
            | done value => exact Refines.refl _
            | enter activation => exact hHere.1 activation.task

/-- Fuel with which plain recursion goes as far as the machine: each loop may
take as many steps as it has fuel, and plain recursion nests them. -/
def recursionFuel : Nat → Nat
  | 0 => 0
  | fuel + 1 => recursionFuel fuel + fuel + 1

theorem le_recursionFuel (fuel : Nat) : fuel ≤ recursionFuel fuel := by
  induction fuel with
  | zero => exact Nat.le_refl 0
  | succ fuel ih =>
      rw [recursionFuel]
      omega

/-- **The machine refines to plain recursion**, on every level. -/
theorem exec_refines_reference (fuel : Nat) :
    ∀ n, recursionFuel fuel ≤ n → ∀ level,
      (∀ task, Refines (exec fuel level (.work task)) (settledTask n level task)) ∧
        (callAt fuel level).Refines (Reference.callAt n level) := by
  induction fuel with
  | zero =>
      intro n _ level
      exact ⟨fun task s => .inl rfl, fun function arguments s => .inl rfl⟩
  | succ fuel ih =>
      intro n hn level
      rw [recursionFuel] at hn
      obtain ⟨n, rfl⟩ : ∃ k, n = k + 1 := ⟨n - 1, by omega⟩
      constructor
      · intro task
        by_cases hLevel : level ≥ maxLevel
        · rw [exec, if_pos hLevel]
          refine Refines.of_same fun s => ?_
          have hSame := settledTask_sameOutcome_depthLimit task n hLevel s
          exact ⟨hSame.1.symm, hSame.2.symm⟩
        · rw [exec, if_neg hLevel]
          refine loop_refines_settledTask (by omega) (le_recursionFuel fuel) ?_ ?_
            fuel (n + 1) (by omega) task
          · intro k hk e scope
            have hTask := (ih k hk (level + 1)).1 { expr := e, scope }
            rwa [settledTask, settling_none] at hTask
          · intro k hk
            exact (ih k hk (level + 1)).2
      · intro function arguments
        have hHere := ih n (by omega) level
        have hFuel : fuel ≤ n := by
          have := le_recursionFuel fuel
          omega
        refine Refines.bind (beginCall_refines hHere.2 hFuel function arguments) fun begun => ?_
        cases begun with
        | done value => exact Refines.refl _
        | enter activation => exact hHere.1 activation.task

/-- Where plain recursion comes to an end, the machine comes to the same one. -/
theorem exec_of_reference {fuel level : Nat} {e : Expr} {scope : Nat} {s s' : State}
    {outcome : Except Stop Value}
    (hRef : Reference.exec fuel level (.eval e scope) s = (outcome, s'))
    (hEnd : outcome ≠ .error .outOfFuel) {bound : Nat} (hBound : fuel < bound) :
    ∃ outcome', exec bound level (.work { expr := e, scope }) s = (outcome', s') ∧
      SameOutcome outcome outcome' := by
  have hRefines := (reference_refines_exec fuel bound hBound level).1 { expr := e, scope } s
  rw [settledTask, settling_none, hRef] at hRefines
  rcases hRefines with hFuel | ⟨hOut, hState⟩
  · exact absurd hFuel hEnd
  · exact ⟨_, Prod.ext rfl hState.symm, hOut⟩

/-- Where the machine comes to an end, plain recursion comes to the same one. -/
theorem reference_of_exec {bound level : Nat} {e : Expr} {scope : Nat} {s s' : State}
    {outcome : Except Stop Value}
    (hExec : exec bound level (.work { expr := e, scope }) s = (outcome, s'))
    (hEnd : outcome ≠ .error .outOfFuel) :
    ∃ fuel outcome', Reference.exec fuel level (.eval e scope) s = (outcome', s') ∧
      SameOutcome outcome outcome' := by
  have hRefines :=
    (exec_refines_reference bound _ (Nat.le_refl _) level).1 { expr := e, scope } s
  rw [settledTask, settling_none, hExec] at hRefines
  rcases hRefines with hFuel | ⟨hOut, hState⟩
  · exact absurd hFuel hEnd
  · exact ⟨_, _, Prod.ext rfl hState.symm, hOut⟩

/-- A computation that ends beyond the last level, from some state. -/
def HitsDepthLimit (x : Run Value) (s : State) : Prop :=
  ∃ error s', x s = (.error (.error error), s') ∧ error.root = .eval (.depthLimit maxLevel)

/-- The root of an error is the same on both sides. -/
theorem SameOutcome.root_eq {e : Error} {o : Except Stop Value}
    (h : SameOutcome (.error (.error e)) o) :
    ∃ e', o = .error (.error e') ∧ e'.root = e.root := by
  obtain ⟨stop, rfl, hStop⟩ := SameOutcome.error_left h
  obtain ⟨e', rfl, hErr⟩ := Stop.SameRoot.error_left hStop
  exact ⟨e', rfl, hErr.1.symm⟩

/-- **The loop agrees with plain recursion.**  From any state and on any level,
if plain recursion comes to an end, the machine comes to the same end with any
larger fuel: the same value or the same root error, and the same state, which
holds what has been printed, the memo tables, the lazy nodes, the scopes and
the open files.  Conversely, whatever the machine ends with, plain recursion
ends with as well.  So the depth limit is met exactly where plain recursion,
which stays on its level for everything in tail position, meets it. -/
theorem exec_agrees_with_reference (level : Nat) (e : Expr) (scope : Nat) (s : State) :
    (∀ fuel outcome s', Reference.exec fuel level (.eval e scope) s = (outcome, s') →
      outcome ≠ .error .outOfFuel →
      ∀ bound, fuel < bound →
        ∃ outcome', exec bound level (.work { expr := e, scope }) s = (outcome', s') ∧
          SameOutcome outcome outcome') ∧
    (∀ bound outcome s', exec bound level (.work { expr := e, scope }) s = (outcome, s') →
      outcome ≠ .error .outOfFuel →
        ∃ fuel outcome', Reference.exec fuel level (.eval e scope) s = (outcome', s') ∧
          SameOutcome outcome outcome') ∧
    ((∃ bound, HitsDepthLimit (exec bound level (.work { expr := e, scope })) s) ↔
      ∃ fuel, HitsDepthLimit (Reference.exec fuel level (.eval e scope)) s) := by
  refine ⟨fun fuel outcome s' hRef hEnd bound hBound => exec_of_reference hRef hEnd hBound,
    fun bound outcome s' hExec hEnd => reference_of_exec hExec hEnd, ?_, ?_⟩
  · rintro ⟨bound, error, s', hExec, hRoot⟩
    obtain ⟨fuel, outcome, hRef, hSame⟩ := reference_of_exec hExec (by simp)
    obtain ⟨error', rfl, hRoot'⟩ := hSame.root_eq
    exact ⟨fuel, error', s', hRef, hRoot'.trans hRoot⟩
  · rintro ⟨fuel, error, s', hRef, hRoot⟩
    obtain ⟨outcome, hExec, hSame⟩ := exec_of_reference hRef (by simp) (Nat.lt_succ_self fuel)
    obtain ⟨error', rfl, hRoot'⟩ := hSame.root_eq
    exact ⟨fuel + 1, error', s', hExec, hRoot'.trans hRoot⟩

/-- A machine with two memoized functions, the first of which ends in a call of
the second. -/
def memoChain : State :=
  let clause (body : Expr) : Clause := ⟨[], none, body, true, true⟩
  let outer := clause (.cond (.lit (.bool true)) (.call (.var "inner") []) (.lit .nil))
  let inner := clause (.block [.lit (.int 1), .lit (.int 7)] none)
  { program :=
      { functions :=
          ⟨[("outer", { name := "outer", clauses := [outer] }),
            ("inner", { name := "inner", clauses := [inner] })]⟩ } }

/-- On a chain of two memoized tail calls that ends in a block, plain recursion
comes to an end, and the machine to the same one. -/
theorem exec_agrees_on_memoChain :
    (Reference.exec 6 0 (.eval (.call (.var "outer") []) 0) memoChain).1 = .ok (.int 7) ∧
      ∃ outcome,
        exec 7 0 (.work { expr := .call (.var "outer") [], scope := 0 }) memoChain =
            (outcome, (Reference.exec 6 0 (.eval (.call (.var "outer") []) 0) memoChain).2) ∧
          SameOutcome (.ok (.int 7)) outcome := by
  have hRef :
      (Reference.exec 6 0 (.eval (.call (.var "outer") []) 0) memoChain).1 = .ok (.int 7) := by
    cbv
  refine ⟨hRef, ?_⟩
  exact (exec_agrees_with_reference 0 (.call (.var "outer") []) 0 memoChain).1 6 _ _
    (Prod.ext hRef rfl) (by simp) 7 (by omega)

end ClauseLisp
