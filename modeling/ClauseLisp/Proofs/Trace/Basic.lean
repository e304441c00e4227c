import ClauseLisp.Proofs.Lazy.WriteOnce

/-!
# What a computation asks for

The machine does what it is asked to do by asking itself, one level deeper or in the
next call, for other things: expressions that have to be evaluated, iterators that have to
be called.  To see which of these it really asks for, and in which state, the way to do
them is left open: a `Worker` does what is asked, and a computation asks for something in
some state if it stops as soon as the worker refuses just this, in just this state.
The whole state counts, so nothing can be asked for in a state that the computation does
not come to.

A computation is `Traceable` if nothing that it does is hidden from this.  Then a relation
between states holds of the whole if it holds of its own moves and of everything that it
asks for (`Admits`, `Spans`).

## Main results

* `AsksFor`, `TraceableAt` — what is asked for, and that it accounts for everything.
* `TraceableAt.asksFor_bind` — what a sequence asks for.
* `asksFor_force` — forcing a node asks for the call of its iterator and for nothing else.
* `force_traceable`, `Traceable.bind` — how traceable computations are made.
-/

namespace ClauseLisp

/-! ## Workers -/

/-- The way to do what the machine is asked to do. -/
abbrev Worker := Request → Run Value

namespace Worker

/-- The way to call functions. -/
def caller (worker : Worker) : Caller := fun function arguments =>
  worker (.call function arguments)

/-- The way to evaluate expressions. -/
def evaluator (worker : Worker) : Evaluator := fun e scope => worker (.work { expr := e, scope })

open Classical in
/-- A worker who refuses one request in one state.  This is no error of the program, which
might get another text on the way or be replaced. -/
noncomputable def refusing (worker : Worker) (request : Request) (u : State) (alarm : String) :
    Worker := fun other s =>
  if other = request ∧ s = u then (.error (.unread alarm), s) else worker other s

theorem refusing_self (worker : Worker) (request : Request) (u : State) (alarm : String) :
    worker.refusing request u alarm request u = (.error (.unread alarm), u) := if_pos ⟨rfl, rfl⟩

theorem refusing_other {worker : Worker} {request other : Request} {u s : State}
    (h : ¬ (other = request ∧ s = u)) (alarm : String) :
    worker.refusing request u alarm other s = worker other s := if_neg h

end Worker

/-- **A computation asks for something in a state**: it stops there if this is refused,
whatever it is told. -/
def AsksFor {α : Type} (x : Worker → Run α) (worker : Worker) (s : State) (request : Request)
    (u : State) : Prop :=
  ∀ alarm, (x (worker.refusing request u alarm) s).1 = .error (.unread alarm)

/-- A computation that comes out in the same way whatever it is told asks for nothing. -/
theorem not_asksFor_of_eq {α : Type} {x : Worker → Run α} {worker : Worker} {s : State}
    {request : Request} {u : State} (outcome : Except Stop α)
    (h : ∀ alarm, (x (worker.refusing request u alarm) s).1 = outcome) :
    ¬ AsksFor x worker s request u := by
  intro hAsks
  have hFirst := (h "").symm.trans (hAsks "")
  have hOther := (h "a").symm.trans (hAsks "a")
  rw [hFirst] at hOther
  exact absurd (Stop.unread.inj (Except.error.inj hOther)) (by decide)

/-- Only what a computation does from the state matters. -/
theorem asksFor_congr {α : Type} {x y : Worker → Run α} {worker : Worker} {s : State}
    {request : Request} {u : State} (h : ∀ worker, y worker s = x worker s) :
    AsksFor y worker s request u ↔ AsksFor x worker s request u := by
  simp only [AsksFor, h]

/-! ## Moves -/

/-- A move that neither settles a node nor keeps a result. -/
structure State.Still (s s' : State) : Prop where
  later : s.Later s'
  program : s'.program = s.program
  fresh : ∀ node, s.nodes.outcome? node = none → s'.nodes.outcome? node = none

namespace State.Still

theorem of_same {s s' : State} (hProgram : s'.program = s.program) (hNodes : s'.nodes = s.nodes)
    (hClosures : s'.closures = s.closures) (hOutput : s'.output = s.output) : s.Still s' :=
  ⟨.of_same hNodes hClosures hOutput, hProgram, fun _ hFresh => hNodes ▸ hFresh⟩

theorem refl (s : State) : s.Still s := of_same rfl rfl rfl rfl

theorem node (s : State) (iterator state : Value) :
    s.Still { s with nodes := s.nodes.push { iterator, state } } := by
  refine ⟨.node s iterator state, rfl, fun node hFresh => ?_⟩
  exact (LazyNodes.outcome?_push s.nodes iterator state node).trans hFresh

theorem printed (s : State) (text : String) : s.Still { s with output := s.output ++ text } :=
  ⟨.printed s text, rfl, fun _ hFresh => hFresh⟩

theorem closure (s : State) (clause : Clause) (scope : Nat) :
    s.Still { s with closures := s.closures.push ⟨clause, scope⟩ } :=
  ⟨.closure s clause scope, rfl, fun _ hFresh => hFresh⟩

end State.Still

/-- **The iterator of a node says how the list goes on**: it is called with the state of
the node while the node is there and has not been settled, and when it is done the node
has not been settled meanwhile. -/
structure LazyNode.Says (n : LazyNode) (call : Caller) (node : Nat) (s s' : State)
    (step : IterStep) : Prop where
  found : s.nodes[node]? = some n
  fresh : n.outcome = none
  completed : ∃ result, call n.iterator [n.state] s = (.ok result, s') ∧
    IterStep.ofValue? result = some step
  unsettled : s'.nodes.outcome? node = none

/-- A relation between states that holds of still moves, of what a worker does when it is
asked, and of settling a node with what its iterator has said when it was asked. -/
structure Admits (R : State → State → Prop) (worker : Worker) (asked : Request → State → Prop) :
    Prop where
  trans : ∀ {s s' s'' : State}, R s s' → R s' s'' → R s s''
  still : ∀ {s s' : State}, s.Still s' → R s s'
  answered : ∀ {request : Request} {u : State}, asked request u → R u (worker request u).2
  settled : ∀ {n : LazyNode} {node : Nat} {u u' : State} {step : IterStep},
    asked (.call n.iterator [n.state]) u → n.Says worker.caller node u u' step →
      R u' (u'.settled node n.iterator step)

namespace Admits

variable {R : State → State → Prop} {worker : Worker} {asked : Request → State → Prop}

theorem refl (h : Admits R worker asked) (s : State) : R s s := h.still (.refl s)

theorem mono {fewer : Request → State → Prop} (h : Admits R worker asked)
    (hFewer : ∀ {request : Request} {u : State}, fewer request u → asked request u) :
    Admits R worker fewer :=
  ⟨h.trans, h.still, fun hAsked => h.answered (hFewer hAsked),
    fun hAsked => h.settled (hFewer hAsked)⟩

end Admits

/-- A relation holds from one state to another, and on the way to and from everything that
is asked for in between. -/
structure Spans (R : State → State → Prop) (worker : Worker) (asked : Request → State → Prop)
    (s s' : State) : Prop where
  through : R s s'
  before : ∀ {request : Request} {u : State}, asked request u → R s u
  after : ∀ {request : Request} {u : State}, asked request u → R (worker request u).2 s'

/-! ## Sequences -/

/-- Go on with a value, or pass an error on. -/
def orElse {α β : Type} (f : α → Run β) : Except Stop α → Run β
  | .ok a => f a
  | .error stop => throw stop

/-- A sequence looks at how its first part has come out. -/
theorem bind_eq_outcome_bind {α β : Type} (x : Run α) (f : α → Run β) (s : State) :
    (x >>= f) s = (x.outcome >>= orElse f) s := by
  rw [Run.bind_apply, Run.outcome_bind_apply]
  rcases x s with ⟨stop | a, s'⟩ <;> rfl

/-! ## Traceable computations -/

/-- **All that a computation does from a state can be traced**: what it does not ask for
does not matter to it, and a relation that holds of still moves and of what it asks for
holds of all of it. -/
structure TraceableAt {α : Type} (x : Worker → Run α) (s : State) : Prop where
  refused : ∀ (worker : Worker) (request : Request) (u : State),
    (∀ alarm, x (worker.refusing request u alarm) s = x worker s) ∨ AsksFor x worker s request u
  spans : ∀ {R : State → State → Prop} {worker : Worker}, Admits R worker (AsksFor x worker s) →
    Spans R worker (AsksFor x worker s) s (x worker s).2

/-- A computation that can be traced from every state. -/
def Traceable {α : Type} (x : Worker → Run α) : Prop := ∀ s : State, TraceableAt x s

namespace TraceableAt

variable {α β : Type} {x : Worker → Run α} {s : State}

/-- Only what a computation does from this state matters. -/
theorem congr {y : Worker → Run α} (hx : TraceableAt x s)
    (h : ∀ worker, y worker s = x worker s) : TraceableAt y s := by
  refine ⟨fun worker request u => ?_, fun {R worker} hR => ?_⟩
  · rcases hx.refused worker request u with hEqual | hAsked
    · exact .inl fun alarm => by rw [h, h, hEqual alarm]
    · exact .inr ((asksFor_congr h).mpr hAsked)
  · obtain ⟨hThrough, hBefore, hAfter⟩ := hx.spans (hR.mono (asksFor_congr h).mpr)
    rw [h worker]
    exact ⟨hThrough, fun hAsked => hBefore ((asksFor_congr h).mp hAsked),
      fun hAsked => hAfter ((asksFor_congr h).mp hAsked)⟩

/-- A computation that asks for nothing and makes a still move. -/
theorem still {x : Run α} (h : s.Still (x s).2) : TraceableAt (fun _ => x) s := by
  have hNothing : ∀ {worker request u}, ¬ AsksFor (fun _ => x) worker s request u :=
    not_asksFor_of_eq _ fun _ => rfl
  exact ⟨fun _ _ _ => .inl fun _ => rfl, fun hR =>
    ⟨hR.still h, fun hAsked => absurd hAsked hNothing, fun hAsked => absurd hAsked hNothing⟩⟩

/-- **What a sequence asks for** if its second part looks at how the first one has come out:
what the first part asks for, and what the second one asks for after it. -/
theorem asksFor_outcome_bind {g : Worker → Except Stop α → Run β} (hx : TraceableAt x s)
    (hAlarm : ∀ worker alarm t,
      (g worker (.error (.unread alarm)) t).1 = .error (.unread alarm))
    {worker : Worker} {request : Request} {u : State} :
    AsksFor (fun worker => (x worker).outcome >>= g worker) worker s request u ↔
      AsksFor x worker s request u ∨
        AsksFor (fun worker' => g worker' (x worker s).1) worker (x worker s).2 request u := by
  have hAt : ∀ worker' : Worker, ((x worker').outcome >>= g worker') s =
      g worker' (x worker' s).1 (x worker' s).2 := fun _ => rfl
  simp only [AsksFor, hAt]
  constructor
  · intro hAsked
    rcases hx.refused worker request u with hEqual | hFirst
    · refine .inr fun alarm => ?_
      have hStops := hAsked alarm
      rwa [hEqual alarm] at hStops
    · exact .inl hFirst
  · rintro (hFirst | hRest) alarm
    · rw [hFirst alarm]
      exact hAlarm _ alarm _
    · rcases hx.refused worker request u with hEqual | hFirst
      · rw [hEqual alarm]
        exact hRest alarm
      · rw [hFirst alarm]
        exact hAlarm _ alarm _

/-- **One computation after the other**, whatever the outcome of the first one is. -/
theorem outcome_bind {g : Worker → Except Stop α → Run β} (hx : TraceableAt x s)
    (hg : ∀ outcome, Traceable fun worker => g worker outcome)
    (hAlarm : ∀ worker alarm t,
      (g worker (.error (.unread alarm)) t).1 = .error (.unread alarm)) :
    TraceableAt (fun worker => (x worker).outcome >>= g worker) s := by
  have hAsks {worker : Worker} {request : Request} {u : State} :=
    @asksFor_outcome_bind _ _ _ _ g hx hAlarm worker request u
  refine ⟨fun worker request u => ?_, fun {R worker} hR => ?_⟩
  · rcases hx.refused worker request u with hEqual | hFirst
    · rcases (hg (x worker s).1 (x worker s).2).refused worker request u with hEqual' | hRest
      · refine .inl fun alarm => ?_
        rw [Run.outcome_bind_apply, Run.outcome_bind_apply, hEqual alarm]
        exact hEqual' alarm
      · exact .inr (hAsks.mpr (.inr hRest))
    · exact .inr (hAsks.mpr (.inl hFirst))
  · have hFirst := hx.spans (hR.mono fun hAsked => hAsks.mpr (.inl hAsked))
    have hRest := (hg (x worker s).1 (x worker s).2).spans
      (hR.mono fun hAsked => hAsks.mpr (.inr hAsked))
    refine ⟨hR.trans hFirst.through hRest.through, fun hAsked => ?_, fun hAsked => ?_⟩
    · rcases hAsks.mp hAsked with hAsked | hAsked
      · exact hFirst.before hAsked
      · exact hR.trans hFirst.through (hRest.before hAsked)
    · rcases hAsks.mp hAsked with hAsked | hAsked
      · exact hR.trans (hFirst.after hAsked) hRest.through
      · exact hRest.after hAsked

/-- **What a sequence asks for**, if an error of the first part ends it. -/
theorem asksFor_bind {g : Worker → α → Run β} (hx : TraceableAt x s) {worker : Worker}
    {request : Request} {u : State} :
    AsksFor (fun worker => x worker >>= g worker) worker s request u ↔
      AsksFor x worker s request u ∨ ∃ a s', x worker s = (.ok a, s') ∧
        AsksFor (fun worker' => g worker' a) worker s' request u := by
  rw [asksFor_congr fun worker => bind_eq_outcome_bind (x worker) (g worker) s,
    hx.asksFor_outcome_bind (g := fun worker => orElse (g worker)) fun _ _ _ => rfl]
  refine or_congr_right ?_
  rcases x worker s with ⟨stop | a, s'⟩
  · exact ⟨fun hAsked => absurd hAsked (not_asksFor_of_eq _ fun _ => rfl), nofun⟩
  · refine ⟨fun hAsked => ⟨a, s', rfl, hAsked⟩, ?_⟩
    rintro ⟨_, _, hRun, hAsked⟩
    cases hRun
    exact hAsked

/-- Asking for something. -/
theorem asksFor_ask {worker : Worker} {asked request : Request} {u : State} :
    AsksFor (fun worker => worker asked) worker s request u ↔ asked = request ∧ s = u := by
  refine ⟨fun hAsked => ?_, ?_⟩
  · by_contra hOther
    exact not_asksFor_of_eq _
      (fun alarm => congrArg Prod.fst (Worker.refusing_other hOther alarm)) hAsked
  · rintro ⟨rfl, rfl⟩ alarm
    exact congrArg Prod.fst (worker.refusing_self asked s alarm)

/-- **One computation after the other.** -/
theorem bind {g : Worker → α → Run β} (hx : TraceableAt x s)
    (hg : ∀ a, Traceable fun worker => g worker a) :
    TraceableAt (fun worker => x worker >>= g worker) s := by
  refine congr (hx.outcome_bind (g := fun worker => orElse (g worker)) (fun outcome => ?_)
    fun _ _ _ => rfl) fun worker => bind_eq_outcome_bind (x worker) (g worker) s
  cases outcome with
  | ok a => exact hg a
  | error stop => exact fun t => .still (.refl t)

theorem mapError {f : Error → Error} (hx : TraceableAt x s) :
    TraceableAt (fun worker => Run.mapError f (x worker)) s := by
  refine congr (hx.outcome_bind (g := fun _ outcome => Run.mapError f fun t => (outcome, t))
    (fun outcome t => .still ?_) fun _ _ _ => rfl) fun worker => rfl
  rcases outcome with (error | _ | _) | value <;> exact .refl t

/-- **What is asked for.** -/
theorem ask (request : Request) : TraceableAt (fun worker => worker request) s := by
  refine ⟨fun worker other u => ?_, fun {R worker} hR =>
    ⟨hR.answered (asksFor_ask.mpr ⟨rfl, rfl⟩), fun hAsked => ?_, fun hAsked => ?_⟩⟩
  · by_cases hSame : request = other ∧ s = u
    · exact .inr (asksFor_ask.mpr hSame)
    · exact .inl fun alarm => Worker.refusing_other hSame alarm
  · obtain ⟨-, rfl⟩ := asksFor_ask.mp hAsked
    exact hR.refl s
  · obtain ⟨rfl, rfl⟩ := asksFor_ask.mp hAsked
    exact hR.refl _

end TraceableAt

namespace Traceable

variable {α β : Type} {x : Worker → Run α}

theorem still {x : Run α} (h : ∀ s : State, s.Still (x s).2) : Traceable fun _ => x :=
  fun s => .still (h s)

theorem pure (value : α) : Traceable fun _ => (Pure.pure value : Run α) := still fun s => .refl s

theorem throw (stop : Stop) : Traceable fun _ => (MonadExcept.throw stop : Run α) :=
  still fun s => .refl s

theorem fail (error : Error) : Traceable fun _ => (ClauseLisp.fail error : Run α) := throw _

theorem get : Traceable fun _ => (MonadState.get : Run State) := still fun s => .refl s

theorem ofExcept (x : Except Error α) : Traceable fun _ => Run.ofExcept x := by
  cases x with
  | ok value => exact pure value
  | error error => exact fail error

theorem typing (x : Typing α) : Traceable fun _ => Run.typing x :=
  still fun _ => .of_same rfl rfl rfl rfl

theorem bind {g : Worker → α → Run β} (hx : Traceable x)
    (hg : ∀ a, Traceable fun worker => g worker a) : Traceable fun worker => x worker >>= g worker :=
  fun s => (hx s).bind hg

theorem mapError {f : Error → Error} (hx : Traceable x) :
    Traceable fun worker => Run.mapError f (x worker) := fun s => (hx s).mapError

theorem outcome_bind {g : Worker → Except Stop α → Run β} (hx : Traceable x)
    (hg : ∀ outcome, Traceable fun worker => g worker outcome)
    (hAlarm : ∀ worker alarm t,
      (g worker (.error (.unread alarm)) t).1 = .error (.unread alarm)) :
    Traceable fun worker => (x worker).outcome >>= g worker := fun s =>
  (hx s).outcome_bind hg hAlarm

/-- Calls of functions are asked for. -/
theorem call (function : Value) (arguments : List Value) :
    Traceable fun worker => worker.caller function arguments := fun _ => .ask _

/-- Parts of expressions are asked for. -/
theorem eval (e : Expr) (scope : Nat) : Traceable fun worker => worker.evaluator e scope :=
  fun _ => .ask _

end Traceable

/-! ## Forcing -/

section

variable {node : Nat} {n : LazyNode} {s : State}

/-- **Forcing a node asks for the call of its iterator** with its state, there and then, and
for nothing else; if the node has been settled, or there is none, for nothing at all. -/
theorem asksFor_force {worker : Worker} {request : Request} {u : State} :
    AsksFor (fun worker => force worker.caller node) worker s request u ↔
      s = u ∧ ∃ n, s.nodes[node]? = some n ∧ n.outcome = none ∧
        request = .call n.iterator [n.state] := by
  cases hNode : s.nodes[node]? with
  | none =>
      refine ⟨fun hAsked => ?_, nofun⟩
      refine absurd hAsked (not_asksFor_of_eq (.ok .ended) fun alarm => ?_)
      rw [force_of_none hNode]
  | some n =>
      cases hOutcome : n.outcome with
      | some forced =>
          refine ⟨fun hAsked => ?_, fun ⟨_, m, hSame, hFresh, _⟩ => ?_⟩
          · refine absurd hAsked (not_asksFor_of_eq (.ok forced) fun alarm => ?_)
            rw [force_of_outcome (LazyNodes.outcome?_eq_some.mpr ⟨n, hNode, hOutcome⟩)]
          · cases hSame
            rw [hOutcome] at hFresh
            cases hFresh
      | none =>
          rw [asksFor_congr fun worker => force_of_fresh hNode hOutcome worker.caller,
            (Traceable.call n.iterator [n.state] s).asksFor_bind (g := fun _ => n.settle node)]
          constructor
          · rintro (hAsked | ⟨result, s', -, hAsked⟩)
            · obtain ⟨rfl, rfl⟩ := TraceableAt.asksFor_ask.mp hAsked
              exact ⟨rfl, n, rfl, hOutcome, rfl⟩
            · exact absurd hAsked (not_asksFor_of_eq _ fun _ => rfl)
          · rintro ⟨rfl, m, hSame, -, rfl⟩
            cases hSame
            exact .inl (TraceableAt.asksFor_ask.mpr ⟨rfl, rfl⟩)

/-- What is done with the result of an iterator is a still move, or settles the node. -/
theorem LazyNode.settle_cases (n : LazyNode) (node : Nat) (result : Value) (s : State) :
    (n.settle node result s).2 = s ∨ ∃ step, IterStep.ofValue? result = some step ∧
      s.nodes.outcome? node = none ∧
        (n.settle node result s).2 = s.settled node n.iterator step := by
  unfold settle
  cases hStep : IterStep.ofValue? result with
  | none => exact .inl rfl
  | some step =>
      simp only [recordStep_apply]
      cases hOutcome : s.nodes.outcome? node with
      | some forced => exact .inl rfl
      | none => exact .inr ⟨step, rfl, rfl, rfl⟩

/-- **Forcing a node can be traced.** -/
theorem force_traceable (node : Nat) : Traceable fun worker => force worker.caller node := by
  intro s
  cases hNode : s.nodes[node]? with
  | none =>
      exact .congr (.still (x := Pure.pure LazyOutcome.ended) (.refl s)) fun worker =>
        force_of_none hNode worker.caller
  | some n =>
      cases hOutcome : n.outcome with
      | some forced =>
          exact .congr (.still (x := Pure.pure forced) (.refl s)) fun worker =>
            force_of_outcome (LazyNodes.outcome?_eq_some.mpr ⟨n, hNode, hOutcome⟩) worker.caller
      | none =>
          have hAsks : ∀ {worker : Worker}, AsksFor (fun worker => force worker.caller node) worker s
              (.call n.iterator [n.state]) s :=
            asksFor_force.mpr ⟨rfl, n, hNode, hOutcome, rfl⟩
          refine ⟨fun worker request u => ?_, fun {R worker} hR => ?_⟩
          · by_cases hSame : Request.call n.iterator [n.state] = request ∧ s = u
            · obtain ⟨rfl, rfl⟩ := hSame
              exact .inr hAsks
            · refine .inl fun alarm => ?_
              simp only [force_of_fresh hNode hOutcome, Run.bind_apply, Worker.caller]
              rw [Worker.refusing_other hSame]
          · have hCall : R s (worker.caller n.iterator [n.state] s).2 := hR.answered hAsks
            have hAfter : R (worker.caller n.iterator [n.state] s).2
                (force worker.caller node s).2 := by
              rw [force_of_fresh hNode hOutcome, Run.bind_apply]
              rcases hRun : worker.caller n.iterator [n.state] s with ⟨stop | result, s'⟩
              · exact hR.refl s'
              · show R s' (n.settle node result s').2
                rcases n.settle_cases node result s' with hSame | ⟨step, hStep, hFresh, hSettled⟩
                · rw [hSame]
                  exact hR.refl s'
                · rw [hSettled]
                  exact hR.settled hAsks ⟨hNode, hOutcome, ⟨result, hRun, hStep⟩, hFresh⟩
            refine ⟨hR.trans hCall hAfter, fun hAsked => ?_, fun hAsked => ?_⟩
            · obtain ⟨rfl, -⟩ := asksFor_force.mp hAsked
              exact hR.refl s
            · obtain ⟨rfl, m, hSame, -, rfl⟩ := asksFor_force.mp hAsked
              rw [hNode] at hSame
              cases hSame
              exact hAfter

end

end ClauseLisp
