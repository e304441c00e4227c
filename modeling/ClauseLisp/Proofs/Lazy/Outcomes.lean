import ClauseLisp.Proofs.Trace.Sessions

/-!
# Where outcomes come from

A node gets its outcome after a call of its iterator that the run has really made, with the
state of the node, and that was completed; what the call has given is what the outcome
says, and the next node is the one that was made then.  `SettledBy` says this of two
states and of the calls that have been made, and it holds throughout every run and every
session, however they end.

Forcing a node may fail, and then it has stored nothing.  If the node has an outcome all
the same, it has been forced again while its iterator was working, and a call that was
completed inside the one that failed has said it.

## Main results

* `Job.settledBy` — where the outcomes come from that a job leaves.
* `Session.nodes_settle_once` — the same for sessions, where outcomes stand, and what is
  left by forcing that fails.
-/

namespace ClauseLisp

/-! ## Outcomes -/

/-- The outcome of a node that its iterator has said: the list ends, or it has the head
and goes on in the next node that is made, with the same iterator and the state that was
said. -/
inductive IterStep.Gives (nodes : LazyNodes) (iterator : Value) (next : Nat) :
    IterStep → LazyOutcome → Prop
  | finish : Gives nodes iterator next .finish .ended
  | advance {head state : Value} {n : LazyNode} :
      nodes[next]? = some n → n.iterator = iterator → n.state = state →
      Gives nodes iterator next (.advance head state) (.item head (.lazy next))

theorem IterStep.Gives.mono {nodes nodes' : LazyNodes} {iterator : Value} {next : Nat}
    {step : IterStep} {forced : LazyOutcome} (h : step.Gives nodes iterator next forced)
    (hKept : nodes.Kept nodes') : step.Gives nodes' iterator next forced := by
  cases h with
  | finish => exact .finish
  | @advance head state n hNext hIterator hState =>
      obtain ⟨n', hNext', hBecomes⟩ := hKept next n hNext
      exact .advance hNext' (hBecomes.iterator.trans hIterator) (hBecomes.state.trans hState)

/-- **A job has said the outcome of a node**: it was the call of its iterator with its
state, was completed before the node was settled, and gave this outcome. -/
inductive Job.Settles (nodes : LazyNodes) (node : Nat) (forced : LazyOutcome) : Job → Prop
  | called {fuel level : Nat} {n m : LazyNode} {s s' : State} {step : IterStep} :
      n.Says (.ofMachine fuel level) node s s' step → nodes[node]? = some m → n.Becomes m →
      m.outcome = some forced → step.Gives nodes n.iterator s'.nodes.size forced →
      Settles nodes node forced ⟨fuel, level, .call n.iterator [n.state], s⟩

theorem Job.Settles.mono {nodes nodes' : LazyNodes} {node : Nat} {forced : LazyOutcome} {j : Job}
    (h : j.Settles nodes node forced) (hKept : nodes.Kept nodes') :
    j.Settles nodes' node forced := by
  obtain ⟨hSays, hNode, hBecomes, hForced, hGives⟩ := h
  obtain ⟨m', hNode', hBecomes'⟩ := hKept node _ hNode
  exact .called hSays hNode' (hBecomes.trans hBecomes') (hBecomes'.outcome forced hForced)
    (hGives.mono hKept)

/-- Of what is new between two states, and of nothing else, some of the jobs have said the
outcomes. -/
structure SettledBy (jobs : Job → Prop) (s s' : State) : Prop where
  later : s.Later s'
  settled : ∀ (node : Nat) (forced : LazyOutcome), s.nodes.outcome? node = none →
    s'.nodes.outcome? node = some forced → ∃ j, jobs j ∧ j.Settles s'.nodes node forced

namespace SettledBy

variable {jobs : Job → Prop} {s s' s'' : State}

/-- Moves that settle nothing. -/
theorem of_fresh (h : s.Later s')
    (hFresh : ∀ node, s.nodes.outcome? node = none → s'.nodes.outcome? node = none) :
    SettledBy jobs s s' :=
  ⟨h, fun node _ hBefore hForced => nomatch (hFresh node hBefore).symm.trans hForced⟩

theorem of_same (hNodes : s'.nodes = s.nodes) (hClosures : s'.closures = s.closures)
    (hOutput : s'.output = s.output) : SettledBy jobs s s' :=
  .of_fresh (.of_same hNodes hClosures hOutput) fun _ hFresh => hNodes ▸ hFresh

theorem trans (h : SettledBy jobs s s') (h' : SettledBy jobs s' s'') : SettledBy jobs s s'' where
  later := h.later.trans h'.later
  settled node forced hFresh hForced := by
    cases hOutcome : s'.nodes.outcome? node with
    | none => exact h'.settled node forced hOutcome hForced
    | some earlier =>
        -- Settled in the first part; the outcome stands in the second one.
        have hStands := h'.later.nodes.outcome? hOutcome
        rw [hForced, Option.some.injEq] at hStands
        subst hStands
        obtain ⟨j, hJob, hSettles⟩ := h.settled node forced hFresh hOutcome
        exact ⟨j, hJob, hSettles.mono h'.later.nodes⟩

end SettledBy

/-! ## Settling a node -/

/-- In a state in which a node has been settled, the other nodes are as they were, or new
and not settled. -/
theorem outcome?_settled {s : State} {node other : Nat} {iterator : Value} {step : IterStep}
    (hOther : node ≠ other) :
    (s.settled node iterator step).nodes.outcome? other = s.nodes.outcome? other := by
  cases step with
  | finish => simp only [State.settled, LazyNodes.outcome?, Array.getElem?_modify, if_neg hOther]
  | advance head state =>
      rw [← LazyNodes.outcome?_push s.nodes iterator state other]
      simp only [State.settled, LazyNodes.outcome?, Array.getElem?_modify, if_neg hOther]

/-- The outcome that a node is settled with is the one its iterator has said. -/
theorem gives_settled {s : State} {node : Nat} {n : LazyNode} {step : IterStep}
    {forced : LazyOutcome} (hNode : s.nodes[node]? = some n)
    (hForced : (s.settled node n.iterator step).nodes.outcome? node = some forced) :
    step.Gives (s.settled node n.iterator step).nodes n.iterator s.nodes.size forced := by
  have hOld : node < s.nodes.size := (Array.getElem?_eq_some_iff.mp hNode).1
  obtain ⟨m, hSettled, hOutcome⟩ := LazyNodes.outcome?_eq_some.mp hForced
  cases step with
  | finish =>
      replace hSettled : (s.nodes.modify node _)[node]? = some m := hSettled
      rw [Array.getElem?_modify, if_pos rfl, hNode] at hSettled
      cases hSettled
      cases hOutcome
      exact .finish
  | advance head state =>
      replace hSettled : ((s.nodes.push _).modify node _)[node]? = some m := hSettled
      rw [Array.getElem?_modify, if_pos rfl, Array.getElem?_push, if_neg (Nat.ne_of_lt hOld),
        hNode] at hSettled
      cases hSettled
      cases hOutcome
      have hNext : ((s.nodes.push { iterator := n.iterator, state }).modify node fun n =>
          { n with outcome := some (.item head (.lazy s.nodes.size)) })[s.nodes.size]? =
            some { iterator := n.iterator, state } := by
        rw [Array.getElem?_modify, if_neg (Nat.ne_of_lt hOld), Array.getElem?_push, if_pos rfl]
      exact .advance hNext rfl rfl

namespace Job

/-- **Whatever a job does leads to a later state.** -/
theorem later (j : Job) : j.state.Later j.run.2 := by
  refine (Tracks.throughout (R := State.Later) ?_).whole
  exact
    { trans := .trans
      still := State.Still.later
      settled := fun _ hSays => State.later_settled hSays.unsettled _ _
      kept := fun _ _ _ _ => .of_same rfl rfl rfl }

/-- **Settling a node after the call of its iterator.** -/
theorem settledBy_settled {jobs : Job → Prop} {fuel level node : Nat} {n : LazyNode}
    {u u' : State} {step : IterStep} (hJob : jobs ⟨fuel, level, .call n.iterator [n.state], u⟩)
    (hSays : n.Says (.ofMachine fuel level) node u u' step) :
    SettledBy jobs u' (u'.settled node n.iterator step) := by
  have hSettled : u'.Later (u'.settled node n.iterator step) :=
    State.later_settled hSays.unsettled n.iterator step
  have hCall : u.Later u' := by
    obtain ⟨result, hRun, -⟩ := hSays.completed
    have hEnd : run ⟨fuel, level, .call n.iterator [n.state], u⟩ = (.ok result, u') := hRun
    have hLater := later ⟨fuel, level, .call n.iterator [n.state], u⟩
    rwa [hEnd] at hLater
  refine ⟨hSettled, fun other forced hFresh hForced => ?_⟩
  by_cases hSame : node = other
  · subst hSame
    obtain ⟨m, hNow, hBecomes⟩ := hCall.nodes node n hSays.found
    obtain ⟨m', hThen, hBecomes'⟩ := hSettled.nodes node m hNow
    have hOutcome := (LazyNodes.outcome?_of_getElem? hThen).symm.trans hForced
    refine ⟨_, hJob, .called hSays hThen (hBecomes.trans hBecomes') hOutcome ?_⟩
    have hGives := @gives_settled u' node m step forced hNow
    rw [hBecomes.iterator] at hGives
    exact hGives hForced
  · rw [outcome?_settled hSame, hFresh] at hForced
    cases hForced

/-- **Where outcomes come from**: some of the calls that have been made have said them. -/
theorem tracks_settledBy {jobs : Job → Prop} {j : Job} (hJobs : ∀ k, j.Performs k → jobs k) :
    j.Tracks (SettledBy jobs) where
  trans := .trans
  still hStill := .of_fresh hStill.later hStill.fresh
  settled hPerforms := settledBy_settled (hJobs _ hPerforms)
  kept _ _ _ _ := .of_same rfl rfl rfl

theorem settledBy (j : Job) :
    Throughout (SettledBy j.Performs) j.Performs j.state j.run.2 :=
  (tracks_settledBy fun _ hPerforms => hPerforms).throughout

/-- A call that is refused has said nothing. -/
theorem not_settles_of_refused {fuel level node : Nat} {n : LazyNode} {t t' : State} {stop : Stop}
    {nodes : LazyNodes} {forced : LazyOutcome}
    (h : n.Refused (.ofMachine fuel level) t t' stop) :
    ¬ Settles nodes node forced ⟨fuel, level, .call n.iterator [n.state], t⟩ := by
  generalize hJob : (⟨fuel, level, .call n.iterator [n.state], t⟩ : Job) = j
  rintro ⟨hSays⟩
  obtain ⟨rfl, rfl, hRequest, rfl⟩ := Job.mk.inj hJob
  obtain ⟨hIterator, hState⟩ := Request.call.inj hRequest
  obtain ⟨result, hRun, hStep⟩ := hSays.completed
  rw [← hIterator, ← hState] at hRun
  rcases h with hFailed | ⟨other, hDone, hNoStep, -⟩
  · cases hFailed.symm.trans hRun
  · cases hDone.symm.trans hRun
    cases hNoStep.symm.trans hStep

/-- **What a call that is refused leaves in a node** has been said inside it. -/
theorem settles_of_refused {fuel level node : Nat} {n : LazyNode} {t t' : State} {stop : Stop}
    {forced : LazyOutcome} (h : n.Refused (.ofMachine fuel level) t t' stop)
    (hFresh : t.nodes.outcome? node = none) (hForced : t'.nodes.outcome? node = some forced) :
    ∃ j, Inside ⟨fuel, level, .call n.iterator [n.state], t⟩ j ∧ j.Settles t'.nodes node forced := by
  have hEnd : (run ⟨fuel, level, .call n.iterator [n.state], t⟩).2 = t' := by
    rcases h with hFailed | ⟨result, hDone, -⟩
    · exact congrArg Prod.snd hFailed
    · exact congrArg Prod.snd hDone
  have hSettled := (settledBy ⟨fuel, level, .call n.iterator [n.state], t⟩).whole.settled node forced
  rw [hEnd] at hSettled
  obtain ⟨j, hPerforms, hSettles⟩ := hSettled hFresh hForced
  rcases Relation.reflTransGen_iff_eq_or_transGen.mp hPerforms with rfl | hInside
  · exact absurd hSettles (not_settles_of_refused h)
  · exact ⟨j, hInside, hSettles⟩

end Job

/-! ## Sessions -/

namespace Session

theorem settledBy (s : State) (given : List Given) :
    Job.Throughout (SettledBy (Performs s given)) (Performs s given) s (after s given) := by
  have hCarries : Carries (SettledBy (Performs s given)) :=
    { trans := .trans
      still := fun hStill => .of_fresh hStill.later hStill.fresh
      load := fun _ _ _ _ => .of_same rfl rfl rfl }
  refine hCarries.throughout fun {j} hStarts => ?_
  exact (Job.tracks_settledBy fun k hPerforms => ⟨j, hStarts, hPerforms⟩).throughout

/-- **Nodes are settled once**, over whole runs and however evaluations end.

Once a node has an outcome, whoever asks for its head and its rest gets them without a call
and without any other effect, and the outcome stands: throughout every session, from
whatever state it goes on, and so from and to all states in which something is done in the
course of it, on whatever level.  Where a node has got its outcome, a call of its iterator
with its state has said it, which is one of those that have really been made.  When a
session begins, no node has an outcome.

And where forcing a node fails, in whatever state, the call of its iterator has failed or
given what is no step, and nothing has been stored after that: if the node has an outcome
then, a call of its iterator that was made inside this call, and was completed, has said
it. -/
theorem nodes_settle_once :
    (∀ (s : State) (node : Nat) (forced : LazyOutcome), s.nodes.outcome? node = some forced →
      ∀ call context value, value.untagged = .lazy node →
        uncons call context value s = (.ok forced.parts?, s)) ∧
    (∀ (s : State) (given : List Given),
      Job.Throughout (SettledBy (Performs s given)) (Performs s given) s (after s given)) ∧
    (∀ j : Job, Job.Throughout (SettledBy j.Performs) j.Performs j.state j.run.2) ∧
    (∀ s : State, Begins s → ∀ node, s.nodes.outcome? node = none) ∧
    ∀ (t t' : State) (fuel level node : Nat) (stop : Stop),
      force (.ofMachine fuel level) node t = (.error stop, t') →
        ∃ n, t.nodes[node]? = some n ∧ n.outcome = none ∧
          n.Refused (.ofMachine fuel level) t t' stop ∧
          ∀ forced, t'.nodes.outcome? node = some forced →
            ∃ j, Job.Inside ⟨fuel, level, .call n.iterator [n.state], t⟩ j ∧
              j.Settles t'.nodes node forced := by
  refine ⟨fun s node forced hForced call context value hValue =>
      uncons_of_outcome hForced call context hValue, settledBy, Job.settledBy,
    fun s hBegins => hBegins.outcome?, fun t t' fuel level node stop hForce => ?_⟩
  obtain ⟨n, hNode, hFresh, hRefused⟩ := force_stops hForce
  have hNone : t.nodes.outcome? node = none := (LazyNodes.outcome?_of_getElem? hNode).trans hFresh
  exact ⟨n, hNode, hFresh, hRefused, fun _ => Job.settles_of_refused hRefused hNone⟩

/-- A text that makes a lazy list and asks for its head. -/
def counting : Given := .text (fun path => .error (.unread path)) 30
  "(def it (n) (list n (+ n 1))) (set g (gen it 1)) (head g)"

/-- A text that asks for the head again. -/
def recounting : Given := .text (fun path => .error (.unread path)) 30 "(head g)"

/-- A text that makes a lazy list with an iterator that fails. -/
def dividing : Given := .text (fun path => .error (.unread path)) 30
  "(def it (n) (/ n 0)) (set g (gen it 1))"

/-- The first node has been settled by the first text, in which a call of its iterator has
said the outcome, and it is the same throughout the second one, after which head and rest
are at hand, whatever would be called.  Where the iterator fails, its call has failed. -/
theorem nodes_settle_once_of_counting :
    Begins blank ∧
      (after blank [counting]).nodes.outcome? 0 = some (.item (.int 1) (.lazy 1)) ∧
      (∃ j, Performs blank [counting] j ∧
        j.Settles (after blank [counting]).nodes 0 (.item (.int 1) (.lazy 1))) ∧
      (∀ call, uncons call "head" (.lazy 0) (after (after blank [counting]) [recounting]) =
        (.ok (some (.int 1, .lazy 1)), after (after blank [counting]) [recounting])) ∧
      (force (.ofMachine 30 0) 0 (after blank [dividing])).1 =
        .error (.error (.inCall "it" (.eval .divisionByZero))) ∧
      ∃ n, (after blank [dividing]).nodes[0]? = some n ∧ n.outcome = none ∧
        n.Refused (.ofMachine 30 0) (after blank [dividing])
          (force (.ofMachine 30 0) 0 (after blank [dividing])).2
          (.error (.inCall "it" (.eval .divisionByZero))) := by
  obtain ⟨hUncons, hSessions, -, hFresh, hFails⟩ := nodes_settle_once
  have hBegins : Begins blank := .start _ _ .empty
  have hForced : (after blank [counting]).nodes.outcome? 0 =
      some (.item (.int 1) (.lazy 1)) := by cbv
  have hStands := (hSessions (after blank [counting]) [recounting]).whole.later.nodes.outcome? hForced
  have hStops : (force (.ofMachine 30 0) 0 (after blank [dividing])).1 =
      .error (.error (.inCall "it" (.eval .divisionByZero))) := by cbv
  refine ⟨hBegins, hForced, ?_, fun call => ?_, hStops, ?_⟩
  · exact (hSessions blank [counting]).whole.settled 0 _ (hFresh blank hBegins 0) hForced
  · exact hUncons _ 0 _ hStands call "head" (.lazy 0) rfl
  · generalize after blank [dividing] = s at hStops ⊢
    have hForce : force (.ofMachine 30 0) 0 s =
        (.error (.error (.inCall "it" (.eval .divisionByZero))),
          (force (.ofMachine 30 0) 0 s).2) := Prod.ext hStops rfl
    obtain ⟨n, hNode, hNone, hRefused, -⟩ := hFails s _ 30 0 0 _ hForce
    exact ⟨n, hNode, hNone, hRefused⟩

end Session

end ClauseLisp
