import ClauseLisp.Proofs.Trace.Jobs

/-!
# The jobs of a session

A session is given texts, whole runs and values to call.  Each of these starts jobs on the
outermost level, one after the other: the expressions that a text adds, all of them if
the program is run, or the call.  `Session.Performs` relates the state in which a session
begins and what it is given to all that is really done in the course of it.

## Main results

* `Session.Starts`, `Session.Performs` — the jobs of a session.
* `Session.Carries.throughout` — what holds of loads and of all moves holds throughout a session.
-/

namespace ClauseLisp

namespace Session

/-! ## What sessions are given -/

/-- What a session is given: a text, a run of the whole program, or a value to call. -/
inductive Given where
  | text (load : Loader) (fuel : Nat) (source : String)
  | run (fuel : Nat)
  | call (fuel : Nat) (function : Value) (arguments : List Value)

/-- What a session does with it. -/
def Given.perform : Given → Run Value
  | .text load fuel source => evalText load fuel source
  | .run fuel => Session.run fuel
  | .call fuel function arguments => Session.apply fuel function arguments

/-- The state after all that a session is given, whatever the outcomes are. -/
def after (s : State) (given : List Given) : State :=
  given.foldl (fun s given => (given.perform s).2) s

/-- The states in which a session begins: a program has been loaded, and nothing has been
evaluated. -/
inductive Begins : State → Prop where
  | start {program : Program} (files : Files) (hosts : Dict HostOperation) :
      program.Loaded → Begins { Session.start program with files, hosts }

theorem Begins.outcome? {s : State} (h : Begins s) (node : Nat) : s.nodes.outcome? node = none := by
  obtain ⟨files, hosts, -⟩ := h
  rfl

/-! ## Jobs -/

/-- Expressions are evaluated at top level, one after the other, until one stops. -/
inductive InOrder (fuel : Nat) : List Expr → State → Job → Prop where
  | first {e : Expr} {es : List Expr} {s : State} :
      InOrder fuel (e :: es) s ⟨fuel, 0, .work { expr := e, scope := Scopes.globals }, s⟩
  | next {e : Expr} {es : List Expr} {s s' : State} {value : Value} {j : Job} :
      evalGlobal fuel e s = (.ok value, s') → InOrder fuel es s' j → InOrder fuel (e :: es) s j

/-- The jobs that are started if a session is given something. -/
inductive Given.Starts (s : State) : Given → Job → Prop where
  | text {load : Loader} {fuel : Nat} {source : String} {statements : List Expr} {s' : State}
      {j : Job} : Session.load load fuel source s = (.ok statements, s') →
      InOrder fuel statements s' j → Given.Starts s (.text load fuel source) j
  | run {fuel : Nat} {j : Job} :
      InOrder fuel s.program.statements s j → Given.Starts s (.run fuel) j
  | call {fuel : Nat} {function : Value} {arguments : List Value} :
      Given.Starts s (.call fuel function arguments) ⟨fuel, 0, .call function arguments, s⟩

/-- The jobs that are started in a session. -/
inductive Starts : State → List Given → Job → Prop where
  | first {s : State} {given : Given} {rest : List Given} {j : Job} :
      given.Starts s j → Starts s (given :: rest) j
  | later {s : State} {given : Given} {rest : List Given} {j : Job} :
      Starts (given.perform s).2 rest j → Starts s (given :: rest) j

/-- **All that is done in the course of a session.** -/
def Performs (s : State) (given : List Given) (j : Job) : Prop :=
  ∃ start, Starts s given start ∧ start.Performs j

/-- Nobody waits for what a session starts. -/
theorem Starts.pending {s : State} {given : List Given} {j : Job} (h : Starts s given j) :
    j.request.pending = [] := by
  have hOrder : ∀ {fuel : Nat} {es : List Expr} {s : State} {j : Job}, InOrder fuel es s j →
      j.request.pending = [] := by
    intro fuel es s j h
    induction h with
    | first => rfl
    | next _ _ ih => exact ih
  induction h with
  | first hStarts =>
      cases hStarts with
      | text _ h => exact hOrder h
      | run h => exact hOrder h
      | call => rfl
  | later _ ih => exact ih

/-! ## What holds of a session -/

/-- A relation between states that holds of still moves and of loads. -/
structure Carries (R : State → State → Prop) : Prop where
  trans : ∀ {s s' s'' : State}, R s s' → R s' s'' → R s s''
  still : ∀ {s s' : State}, s.Still s' → R s s'
  load : ∀ (load : Loader) (fuel : Nat) (source : String) (s : State),
    R s (Session.load load fuel source s).2

namespace Carries

variable {R : State → State → Prop} (h : Carries R)

include h

theorem evalInOrder {fuel : Nat} :
    ∀ {es : List Expr} (last : Value) {s : State},
      (∀ {j : Job}, InOrder fuel es s j → Job.Throughout R j.Performs j.state j.run.2) →
      Job.Throughout R (fun k => ∃ j, InOrder fuel es s j ∧ j.Performs k) s
        (Session.evalInOrder fuel last es s).2 := by
  intro es
  induction es with
  | nil =>
      intro last s _
      refine ⟨h.still (.refl s), ?_⟩
      rintro k ⟨j, hOrder, -⟩
      cases hOrder
  | cons e es ih =>
      intro last s hJobs
      have hFirst : Job.Throughout R _ s (evalGlobal fuel e s).2 := hJobs .first
      rw [Session.evalInOrder, Run.bind_apply]
      rcases hRun : evalGlobal fuel e s with ⟨stop | value, s'⟩ <;> rw [hRun] at hFirst
      · refine ⟨hFirst.whole, ?_⟩
        rintro k ⟨j, hOrder, hPerforms⟩
        cases hOrder with
        | first => exact hFirst.parts hPerforms
        | next hValue => cases hRun.symm.trans hValue
      · refine hFirst.trans (ih value fun hOrder => hJobs (.next hRun hOrder)) h.trans ?_
        rintro k ⟨j, hOrder, hPerforms⟩
        cases hOrder with
        | first => exact .inl hPerforms
        | next hValue hOrder =>
            obtain ⟨-, rfl⟩ := Prod.mk.inj (hRun.symm.trans hValue)
            exact .inr ⟨j, hOrder, hPerforms⟩

/-- **One thing that a session is given.** -/
theorem perform (given : Given) {s : State}
    (hJobs : ∀ {j : Job}, given.Starts s j → Job.Throughout R j.Performs j.state j.run.2) :
    Job.Throughout R (fun k => ∃ j, given.Starts s j ∧ j.Performs k) s (given.perform s).2 := by
  have hTidied : ∀ s : State, s.Still s.tidied := fun _ => .of_same rfl rfl rfl rfl
  cases given with
  | text load fuel source =>
      have hLoad : Job.Throughout R (fun _ => False) s _ :=
        ⟨h.load load fuel source s, False.elim⟩
      rw [Given.perform, Session.evalText, Run.bind_apply]
      rcases hRun : Session.load load fuel source s with ⟨stop | statements, s'⟩ <;>
        rw [hRun] at hLoad
      · refine ⟨hLoad.whole, ?_⟩
        rintro k ⟨j, hStarts, -⟩
        cases hStarts with
        | text hLoaded => cases hRun.symm.trans hLoaded
      · have hOrder := h.evalInOrder .nil fun hOrder => hJobs (.text hRun hOrder)
        refine hLoad.trans (hOrder.move h.trans (h.still (hTidied _))) h.trans ?_
        rintro k ⟨j, hStarts, hPerforms⟩
        refine .inr ?_
        cases hStarts with
        | text hLoaded hOrder =>
            obtain ⟨⟨⟩, rfl⟩ := Prod.mk.inj (hRun.symm.trans hLoaded)
            exact ⟨j, hOrder, hPerforms⟩
  | run fuel =>
      have hOrder := h.evalInOrder .nil fun hOrder => hJobs (.run hOrder)
      have hLeft : Job.Throughout R _ s (Session.run fuel s).2 :=
        (hOrder.move h.trans (h.still (hTidied _))).move h.trans
          (h.still (.of_same rfl rfl rfl rfl))
      refine ⟨hLeft.whole, ?_⟩
      rintro k ⟨j, hStarts, hPerforms⟩
      cases hStarts with
      | run hOrder => exact hLeft.parts ⟨j, hOrder, hPerforms⟩
  | call fuel function arguments =>
      have hCall := hJobs (Given.Starts.call : Given.Starts s (.call fuel function arguments) _)
      refine ⟨hCall.whole, ?_⟩
      rintro k ⟨j, hStarts, hPerforms⟩
      cases hStarts with
      | call => exact hCall.parts hPerforms

/-- **What holds of loads and throughout all jobs that are started holds throughout a
session.** -/
theorem throughout {given : List Given} {s : State}
    (hJobs : ∀ {j : Job}, Starts s given j → Job.Throughout R j.Performs j.state j.run.2) :
    Job.Throughout R (Performs s given) s (after s given) := by
  induction given generalizing s with
  | nil =>
      refine ⟨h.still (.refl s), ?_⟩
      rintro k ⟨j, hStarts, -⟩
      cases hStarts
  | cons first rest ih =>
      have hFirst := h.perform first fun hStarts => hJobs (.first hStarts)
      have hRest := ih fun hStarts => hJobs (.later hStarts)
      refine hFirst.trans hRest h.trans ?_
      rintro k ⟨j, hStarts, hPerforms⟩
      cases hStarts with
      | first hStarts => exact .inl ⟨j, hStarts, hPerforms⟩
      | later hStarts => exact .inr ⟨j, hStarts, hPerforms⟩

end Carries

end Session

end ClauseLisp
