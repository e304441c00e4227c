import ClauseLisp.Proofs.Trace.Loop

/-!
# The jobs of a run

A job is something that the machine is asked to do: within which bounds, on which level,
and in which state.  In the course of it the machine asks for other jobs, each in the
state that it has come to, and these ask for more.  `Job.Performs` relates a job to all
that is really done in the course of it; since the whole state belongs to a job, with its
program and its scopes, there is no doubt in which state something was done.

What holds of a whole run is shown from what holds of its moves: still moves, settling
nodes after the calls of their iterators, and keeping the values of loops.  For these
moves it is known which job has made them, and that it is one of the run (`Job.Tracks`).

## Main results

* `exec_succ` — what the machine does, with what it asks for left open.
* `Job.Performs`, `Job.Asks.cases` — the jobs of a run, and what they may be.
* `Job.Tracks.throughout` — what holds of all moves holds throughout a run.
-/

namespace ClauseLisp

/-! ## Serving a request -/

/-- The machine itself. -/
def Worker.ofMachine (fuel level : Nat) : Worker := exec fuel level

/-- The level on which the machine asks for what it needs for a request. -/
def Request.inner (level : Nat) : Request → Nat
  | .work _ => level + 1
  | .call _ _ => level

/-- What the machine does with a request, with a worker for all that it asks for. -/
def Worker.serve (worker : Worker) (fuel level : Nat) : Request → Run Value
  | .work task =>
    if level ≥ maxLevel then fail (.eval (.depthLimit maxLevel))
    else loop (worker.step fuel) fuel task
  | .call function arguments => do
    match ← beginCall worker.caller fuel function arguments with
    | .done value => return value
    | .enter activation => worker (.work activation.task)

/-- The slots in which the result of a request is waited for. -/
def Request.pending : Request → List Awaited
  | .work task => task.pending
  | .call _ _ => []

/-- **The machine serves requests by asking itself.** -/
theorem exec_succ (fuel level : Nat) (request : Request) :
    exec (fuel + 1) level request =
      (Worker.ofMachine fuel (request.inner level)).serve fuel level request := by
  cases request <;> rfl

/-- One step of a loop of the machine on a level. -/
def stepAt (fuel level : Nat) : Task → Run Progress := (Worker.ofMachine fuel (level + 1)).step fuel

theorem exec_work (fuel level : Nat) (task : Task) :
    exec (fuel + 1) level (.work task) =
      if level ≥ maxLevel then fail (.eval (.depthLimit maxLevel))
      else loop (stepAt fuel level) fuel task := rfl

/-- `Worker.serve`, up to the value of a loop. -/
def Worker.workOut (worker : Worker) (fuel level : Nat) : Request → Run (Value × List Awaited)
  | .work task =>
    if level ≥ maxLevel then fail (.eval (.depthLimit maxLevel))
    else loopValue (worker.step fuel) fuel task
  | .call function arguments => do
    match ← beginCall worker.caller fuel function arguments with
    | .done value => return (value, [])
    | .enter activation => do
      let value ← worker (.work activation.task)
      return (value, [])

namespace Worker

theorem serve_apply (worker : Worker) (fuel level : Nat) (request : Request) (s : State) :
    worker.serve fuel level request s = (worker.workOut fuel level request >>= keepValue) s := by
  cases request with
  | work task =>
      simp only [serve, workOut]
      split
      · rfl
      · exact loop_apply _ _ _ _
  | call function arguments =>
      rw [serve, workOut, Run.bind_apply, bind_assoc, Run.bind_apply]
      rcases beginCall worker.caller fuel function arguments s with
        ⟨stop | value | activation, s'⟩
      · rfl
      · rfl
      · show worker (.work activation.task) s' =
          ((worker (.work activation.task) >>= fun value => pure (value, [])) >>= keepValue) s'
        rw [bind_assoc, Run.bind_apply]
        rcases worker (.work activation.task) s' with ⟨stop | value, s''⟩ <;> rfl

theorem workOut_traceable (fuel level : Nat) (request : Request) :
    Traceable fun worker => worker.workOut fuel level request := by
  cases request with
  | work task =>
      simp only [workOut]
      split
      · exact .fail _
      · exact loopValue_traceable fuel fuel task
  | call function arguments =>
      refine .bind (beginCall_traceable fuel function arguments) fun begun => ?_
      cases begun with
      | done value => exact .pure _
      | enter activation => exact .bind (fun _ => .ask _) fun value => .pure _

/-- **Which slots wait for a value**: those of the last task of a loop, if it is the value
of one. -/
theorem slots_of_workOut {fuel level : Nat} {request : Request} {s s' : State} {value : Value}
    {slots : List Awaited}
    (h : (Worker.ofMachine fuel (request.inner level)).workOut fuel level request s =
      (.ok (value, slots), s')) :
    slots = [] ∨ ∃ task, request = .work task ∧
      Ends (stepAt fuel level) task s (.ok (value, slots), s') := by
  cases request with
  | work task =>
      refine .inr ⟨task, rfl, ?_⟩
      simp only [workOut] at h
      split at h
      · cases h
      · rw [← h]
        exact loopValue_ends (stepAt fuel level) fuel task s
  | call function arguments =>
      obtain ⟨begun, u, -, hBegun⟩ := Run.bind_eq_ok h
      cases begun with
      | done result =>
          cases hBegun
          exact .inl rfl
      | enter activation =>
          obtain ⟨result, u', -, hDone⟩ := Run.bind_eq_ok hBegun
          cases hDone
          exact .inl rfl

/-- Keeping a value asks for nothing. -/
theorem asksFor_serve {worker : Worker} {fuel level : Nat} {request asked : Request} {s u : State} :
    AsksFor (fun worker => worker.serve fuel level request) worker s asked u ↔
      AsksFor (fun worker => worker.workOut fuel level request) worker s asked u := by
  rw [asksFor_congr fun worker => worker.serve_apply fuel level request s,
    (workOut_traceable fuel level request s).asksFor_bind (g := fun _ => keepValue)]
  refine or_iff_left ?_
  rintro ⟨result, s', -, hAsked⟩
  exact not_asksFor_of_eq _ (fun _ => rfl) hAsked

/-- What asks for parts of expressions and for calls only asks for nothing that waits with
slots. -/
theorem pending_of_asksFor {α : Type} {x : Evaluator → Caller → Run α} {worker : Worker} {s u : State}
    {request : Request}
    (h : AsksFor (fun worker => x worker.evaluator worker.caller) worker s request u) :
    request.pending = [] := by
  by_contra hPending
  refine not_asksFor_of_eq (x worker.evaluator worker.caller s).1 (fun alarm => ?_) h
  have hEvaluator : (worker.refusing request u alarm).evaluator = worker.evaluator := by
    funext e scope t
    refine refusing_other (fun hSame => hPending ?_) alarm
    rw [← hSame.1]
    rfl
  have hCaller : (worker.refusing request u alarm).caller = worker.caller := by
    funext function arguments t
    refine refusing_other (fun hSame => hPending ?_) alarm
    rw [← hSame.1]
    rfl
  rw [hEvaluator, hCaller]

end Worker

/-! ## Jobs -/

/-- Something that the machine is asked to do, within bounds, on a level and in a state. -/
structure Job where
  fuel : Nat
  level : Nat
  request : Request
  state : State

namespace Job

/-- What comes of it, and the state that it leaves. -/
def run (j : Job) : Except Stop Value × State := exec j.fuel j.level j.request j.state

/-- **A job asks for another one**, in the state that it has come to. -/
inductive Asks : Job → Job → Prop where
  | asks {fuel level : Nat} {request asked : Request} {s u : State} :
      AsksFor (fun worker => worker.serve fuel level request)
        (.ofMachine fuel (request.inner level)) s asked u →
      Asks ⟨fuel + 1, level, request, s⟩ ⟨fuel, request.inner level, asked, u⟩

/-- **All that is done in the course of a job**, the job itself included. -/
def Performs : Job → Job → Prop := Relation.ReflTransGen Asks

/-- What is done in the course of a job, other than the job itself. -/
def Inside : Job → Job → Prop := Relation.TransGen Asks

/-- **What a job may ask for**: nobody waits for its result in a memo table, or it is the
body of the call that the job is. -/
theorem Asks.cases {j k : Job} (h : j.Asks k) :
    k.request.pending = [] ∨ ∃ fuel level function arguments s activation u,
      j = ⟨fuel + 1, level, .call function arguments, s⟩ ∧
        beginCall (.ofMachine fuel level) fuel function arguments s =
          (.ok (.enter activation), u) ∧
        k = ⟨fuel, level, .work activation.task, u⟩ := by
  obtain @⟨fuel, level, request, asked, s, u, hAsked⟩ := h
  cases request with
  | work task =>
      refine .inl (Worker.pending_of_asksFor (x := fun eval call =>
        if level ≥ maxLevel then fail (.eval (.depthLimit maxLevel))
        else loop (step eval call fuel) fuel task) hAsked)
  | call function arguments =>
      have hBegin := beginCall_traceable fuel function arguments s
      rcases hBegin.asksFor_bind.mp hAsked with hFirst | ⟨begun, s', hBegun, hRest⟩
      · exact .inl (Worker.pending_of_asksFor (x := fun _ call =>
          beginCall call fuel function arguments) hFirst)
      · cases begun with
        | done value => exact absurd hRest (not_asksFor_of_eq _ fun _ => rfl)
        | enter activation =>
            obtain ⟨rfl, rfl⟩ := TraceableAt.asksFor_ask.mp hRest
            exact .inr ⟨fuel, level, function, arguments, s, activation, s', rfl, hBegun, rfl⟩

/-! ## What holds of a run -/

/-- A relation holds from one state to another, and throughout all that is done between
them: up to it, of it, and from there on. -/
structure Throughout (R : State → State → Prop) (jobs : Job → Prop) (s s' : State) : Prop where
  whole : R s s'
  parts : ∀ {j : Job}, jobs j → R s j.state ∧ R j.state j.run.2 ∧ R j.run.2 s'

/-- One thing after the other. -/
theorem Throughout.trans {R : State → State → Prop} {jobs jobs' all : Job → Prop}
    {s s' s'' : State} (h : Throughout R jobs s s') (h' : Throughout R jobs' s' s'')
    (hTrans : ∀ {s s' s'' : State}, R s s' → R s' s'' → R s s'')
    (hAll : ∀ {j : Job}, all j → jobs j ∨ jobs' j) : Throughout R all s s'' := by
  refine ⟨hTrans h.whole h'.whole, fun hJob => ?_⟩
  rcases hAll hJob with hFirst | hSecond
  · obtain ⟨hBefore, hDuring, hAfter⟩ := h.parts hFirst
    exact ⟨hBefore, hDuring, hTrans hAfter h'.whole⟩
  · obtain ⟨hBefore, hDuring, hAfter⟩ := h'.parts hSecond
    exact ⟨hTrans h.whole hBefore, hDuring, hAfter⟩

/-- One thing after the other, where nothing is done in the second one. -/
theorem Throughout.move {R : State → State → Prop} {jobs : Job → Prop} {s s' s'' : State}
    (h : Throughout R jobs s s') (hTrans : ∀ {s s' s'' : State}, R s s' → R s' s'' → R s s'')
    (hMove : R s' s'') : Throughout R jobs s s'' := by
  have hNothing : Throughout R (fun _ => False) s' s'' := ⟨hMove, nofun⟩
  exact h.trans hNothing hTrans .inl

theorem Throughout.mono {R R' : State → State → Prop} {jobs : Job → Prop} {s s' : State}
    (h : Throughout R jobs s s') (hR : ∀ {u u' : State}, R u u' → R' u u') :
    Throughout R' jobs s s' :=
  ⟨hR h.whole, fun hJob => (h.parts hJob).imp hR (.imp hR hR)⟩

/-- A relation between states that holds of every move in the course of a job: of still
moves, of settling a node after the call of its iterator, and of keeping the value of a
loop, where this call and this loop are among what is done. -/
structure Tracks (j : Job) (R : State → State → Prop) : Prop where
  trans : ∀ {s s' s'' : State}, R s s' → R s' s'' → R s s''
  still : ∀ {s s' : State}, s.Still s' → R s s'
  settled : ∀ {fuel level node : Nat} {n : LazyNode} {u u' : State} {step : IterStep},
    j.Performs ⟨fuel, level, .call n.iterator [n.state], u⟩ →
    n.Says (.ofMachine fuel level) node u u' step → R u' (u'.settled node n.iterator step)
  kept : ∀ {fuel level : Nat} {task last : Task} {s u s' : State} {value : Value},
    j.Performs ⟨fuel + 1, level, .work task, s⟩ →
    exec (fuel + 1) level (.work task) s = (.ok value, s'.keeping value last.pending) →
    GoesOnTo (stepAt fuel level) task s last u →
    stepAt fuel level last u = (.ok (.done value), s') → R s' (s'.keeping value last.pending)

namespace Tracks

variable {R : State → State → Prop}

theorem asked {j k : Job} (h : j.Tracks R) (hAsks : j.Asks k) : k.Tracks R where
  trans := h.trans
  still := h.still
  settled hPerforms := h.settled (.head hAsks hPerforms)
  kept hPerforms := h.kept (.head hAsks hPerforms)

/-- **What holds of all that a job asks for holds of it**, up to the value of a loop. -/
theorem spans_of_asked {fuel level : Nat} {request : Request} {s : State}
    (hTrans : ∀ {s s' s'' : State}, R s s' → R s' s'' → R s s'')
    (hStill : ∀ {s s' : State}, s.Still s' → R s s')
    (hAsked : ∀ {k : Job}, Asks ⟨fuel + 1, level, request, s⟩ k →
      k.Tracks R ∧ R k.state k.run.2) :
    Spans R (.ofMachine fuel (request.inner level))
      (AsksFor (fun worker => worker.workOut fuel level request)
        (.ofMachine fuel (request.inner level)) s) s
      ((Worker.ofMachine fuel (request.inner level)).workOut fuel level request s).2 := by
  have hOwn : ∀ {asked : Request} {u : State},
      AsksFor (fun worker => worker.workOut fuel level request)
        (.ofMachine fuel (request.inner level)) s asked u →
      Asks ⟨fuel + 1, level, request, s⟩ ⟨fuel, request.inner level, asked, u⟩ := fun h =>
    .asks (Worker.asksFor_serve.mpr h)
  refine (Worker.workOut_traceable fuel level request s).spans ?_
  exact
    { trans := hTrans
      still := hStill
      answered := fun h => (hAsked (hOwn h)).2
      settled := fun h => (hAsked (hOwn h)).1.settled .refl }

/-- **Keeping the value of a job in the end**, if it is a loop. -/
theorem run_of_workOut {fuel level : Nat} {request : Request} {s : State}
    (h : Tracks ⟨fuel + 1, level, request, s⟩ R) :
    R ((Worker.ofMachine fuel (request.inner level)).workOut fuel level request s).2
      (exec (fuel + 1) level request s).2 := by
  have hServe := (Worker.ofMachine fuel (request.inner level)).serve_apply fuel level request s
  rw [← exec_succ, Run.bind_apply] at hServe
  rcases hOut : (Worker.ofMachine fuel (request.inner level)).workOut fuel level request s with
    ⟨stop | ⟨value, slots⟩, s'⟩ <;> rw [hOut] at hServe <;> rw [hServe]
  · exact h.still (.refl s')
  · show R s' (s'.keeping value slots)
    rcases Worker.slots_of_workOut hOut with rfl | ⟨task, rfl, hEnds⟩
    · exact h.still (.refl s')
    · cases hEnds with
      | done hChain hDone => exact h.kept .refl hServe hChain hDone

/-- **What holds of every move holds throughout a run.** -/
theorem throughout {j : Job} (h : j.Tracks R) : Throughout R j.Performs j.state j.run.2 := by
  obtain ⟨fuel, level, request, s⟩ := j
  induction fuel generalizing level request s with
  | zero =>
      refine ⟨h.still (.refl s), fun {k} hPerforms => ?_⟩
      have hSame : k = ⟨0, level, request, s⟩ :=
        hPerforms.cases_head.elim Eq.symm fun ⟨_, hAsks, _⟩ => nomatch hAsks
      subst hSame
      exact ⟨h.still (.refl s), h.still (.refl s), h.still (.refl s)⟩
  | succ fuel ih =>
      have hAsked : ∀ {k : Job}, Asks ⟨fuel + 1, level, request, s⟩ k →
          k.Tracks R ∧ R k.state k.run.2 := fun hAsks => by
        have hInner := h.asked hAsks
        cases hAsks with
        | asks _ => exact ⟨hInner, (ih _ _ _ hInner).whole⟩
      have hOut := spans_of_asked (R := R) h.trans h.still hAsked
      have hEnd := h.run_of_workOut
      have hWhole := h.trans hOut.through hEnd
      refine ⟨hWhole, fun hPerforms => ?_⟩
      rcases hPerforms.cases_head with rfl | ⟨i, hAsks, hRest⟩
      · exact ⟨h.still (.refl s), hWhole, h.still (.refl _)⟩
      · have hInner := h.asked hAsks
        cases hAsks with
        | asks hAsked =>
            have hOwn := Worker.asksFor_serve.mp hAsked
            obtain ⟨hBefore, hDuring, hAfter⟩ := (ih _ _ _ hInner).parts hRest
            exact ⟨h.trans (hOut.before hOwn) hBefore, hDuring,
              h.trans hAfter (h.trans (hOut.after hOwn) hEnd)⟩

end Tracks

end Job

end ClauseLisp
