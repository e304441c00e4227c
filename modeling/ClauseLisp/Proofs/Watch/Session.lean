import ClauseLisp.Machine.Session
import ClauseLisp.Proofs.Watch.Loop

/-!
# Watched sessions

What a session does at top level, done by the watched machine.  Loading is not watched:
it evaluates nothing.

## Main results

* `Guide.evalStatements_follows` — expressions at top level.
* `Guide.run_follows` — whole runs.
-/

namespace ClauseLisp

namespace Watch

/-- `Session.evalInOrder`, watched. -/
noncomputable def evalInOrder (w : Watch) (fuel : Nat) (last : Value) : List Expr → Run Value
  | [] => return last
  | e :: es => do
    let value ← w.exec fuel 0 (.work { expr := e, scope := Scopes.globals })
    w.evalInOrder fuel value es

/-- `Session.evalText`, watched. -/
noncomputable def evalText (w : Watch) (load : Loader) (fuel : Nat) (source : String) :
    Run Value := do
  let statements ← Session.load load fuel source
  let outcome ← (w.evalInOrder fuel .nil statements).outcome
  Session.closeUnclaimed outcome

/-- `Session.run`, watched. -/
noncomputable def run (w : Watch) (fuel : Nat) : Run Value := do
  let outcome ← (w.evalInOrder fuel .nil (← get).program.statements).outcome
  let outcome ← (Session.closeUnclaimed outcome).outcome
  leaveScope Scopes.globals outcome

/-- `Session.apply`, watched. -/
noncomputable def apply (w : Watch) (fuel : Nat) (function : Value) (arguments : List Value) :
    Run Value :=
  w.exec fuel 0 (.call function arguments)

end Watch

theorem closeUnclaimed_quiet {α : Type} (outcome : Except Stop α) (s : State) :
    s.Quiet (Session.closeUnclaimed outcome s).2 := ⟨rfl, rfl, rfl, rfl⟩

namespace Guide

variable {γ : Guide} {r : γ.Record}

theorem evalInOrder_follows (fuel : Nat) :
    ∀ (es : List Expr) {r : γ.Record} (last : Value), (∀ e ∈ es, γ.Home r e Scopes.globals) →
      γ.Follows r (Session.evalInOrder fuel last es) fun w => w.evalInOrder fuel last es := by
  intro es
  induction es with
  | nil => exact fun last _ => .pure last
  | cons e es ih =>
      intro r last hHome
      obtain ⟨hFirst, hRest⟩ := List.forall_mem_cons.mp hHome
      refine .bind (exec_follows fuel 0 ⟨hFirst, List.forall_mem_nil _⟩) fun value r' hLe => ?_
      exact ih value fun e he => γ.home_mono hLe (hRest e he)

/-- **Expressions at top level**, and closing what is unclaimed after them. -/
theorem evalStatements_follows (fuel : Nat) {es : List Expr}
    (hHome : ∀ e ∈ es, γ.Home r e Scopes.globals) :
    γ.Follows r ((Session.evalInOrder fuel .nil es).outcome >>= Session.closeUnclaimed)
      fun w => (w.evalInOrder fuel .nil es).outcome >>= Session.closeUnclaimed :=
  .outcome_bind (evalInOrder_follows fuel es .nil hHome) fun outcome _ _ =>
    .of_quiet (closeUnclaimed_quiet outcome)

/-- **A whole run.** -/
theorem run_follows (fuel : Nat)
    (hHome : ∀ s, γ.Valid r s → ∀ e ∈ s.program.statements, γ.Home r e Scopes.globals) :
    γ.Follows r (Session.run fuel) fun w => w.run fuel := by
  have hStatements : ∀ es : List Expr, (∀ e ∈ es, γ.Home r e Scopes.globals) → γ.Follows r
      ((Session.evalInOrder fuel .nil es).outcome >>= fun outcome =>
        (Session.closeUnclaimed outcome).outcome >>= leaveScope Scopes.globals)
      (fun w => (w.evalInOrder fuel .nil es).outcome >>= fun outcome =>
        (Session.closeUnclaimed outcome).outcome >>= leaveScope Scopes.globals) := by
    intro es hEs
    refine .outcome_bind (evalInOrder_follows fuel es .nil hEs) fun outcome r' _ => ?_
    refine .outcome_bind (.of_quiet (closeUnclaimed_quiet outcome)) fun outcome r'' _ => ?_
    exact .of_quiet (leaveScope_quiet Scopes.globals outcome)
  exact fun s hValid => hStatements s.program.statements (hHome s hValid) s hValid

theorem apply_follows (fuel : Nat) (function : Value) (arguments : List Value) :
    γ.Follows r (Session.apply fuel function arguments) fun w => w.apply fuel function arguments :=
  exec_follows fuel 0 trivial

end Guide

end ClauseLisp
