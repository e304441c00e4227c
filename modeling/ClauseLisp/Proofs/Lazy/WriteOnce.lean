import ClauseLisp.Proofs.Resources.Session

/-!
# Nodes are settled once

A lazy node is settled when its iterator has been called, and the call may do
anything: force the same node, force others that share its tail, print, fail midway.
Through all of this a node that is settled stays as it is, so that whoever asks for
its head later gets the same head and the same next node, without a call.

`State.Later` says what only ever grows in a state.  Every move of the machine keeps it,
so it holds of all that it can be asked to do.

## Main results

* `later_frame` — every move of the machine leads to a later state.
* `force_stops` — a call of an iterator that fails settles nothing.
* `uncons_of_outcome` — a node that has been settled is not asked again.
-/

namespace ClauseLisp

/-! ## What only grows -/

/-- A node before and after: the outcome, once there is one, stands. -/
structure LazyNode.Becomes (before after : LazyNode) : Prop where
  iterator : after.iterator = before.iterator
  state : after.state = before.state
  outcome : ∀ forced, before.outcome = some forced → after.outcome = some forced

/-- All nodes are still there. -/
def LazyNodes.Kept (before after : LazyNodes) : Prop :=
  ∀ (node : Nat) (n : LazyNode), before[node]? = some n →
    ∃ n', after[node]? = some n' ∧ n.Becomes n'

theorem LazyNode.Becomes.refl (n : LazyNode) : n.Becomes n := ⟨rfl, rfl, fun _ h => h⟩

theorem LazyNode.Becomes.trans {n n' n'' : LazyNode} (h : n.Becomes n') (h' : n'.Becomes n'') :
    n.Becomes n'' where
  iterator := h'.iterator.trans h.iterator
  state := h'.state.trans h.state
  outcome forced hOutcome := h'.outcome forced (h.outcome forced hOutcome)

namespace LazyNodes

theorem outcome?_eq_some {nodes : LazyNodes} {node : Nat} {forced : LazyOutcome} :
    nodes.outcome? node = some forced ↔ ∃ n, nodes[node]? = some n ∧ n.outcome = some forced := by
  unfold outcome?
  cases nodes[node]? with
  | none => simp
  | some n => simp

/-- The outcome of a node that is there. -/
theorem outcome?_of_getElem? {nodes : LazyNodes} {node : Nat} {n : LazyNode}
    (h : nodes[node]? = some n) : nodes.outcome? node = n.outcome := by
  rw [outcome?, h]

/-- A new node has not been settled. -/
theorem outcome?_push (nodes : LazyNodes) (iterator state : Value) (node : Nat) :
    LazyNodes.outcome? (nodes.push { iterator, state }) node = nodes.outcome? node := by
  unfold outcome?
  rw [Array.getElem?_push]
  by_cases hNew : node = nodes.size
  · simp [hNew]
  · rw [if_neg hNew]

namespace Kept

theorem refl (nodes : LazyNodes) : nodes.Kept nodes := fun _ n h => ⟨n, h, .refl n⟩

theorem trans {nodes nodes' nodes'' : LazyNodes} (h : nodes.Kept nodes') (h' : nodes'.Kept nodes'') :
    nodes.Kept nodes'' := by
  intro node n hNode
  obtain ⟨n', hNode', hBecomes⟩ := h node n hNode
  obtain ⟨n'', hNode'', hBecomes'⟩ := h' node n' hNode'
  exact ⟨n'', hNode'', hBecomes.trans hBecomes'⟩

/-- **The outcome of a node stands.** -/
theorem outcome? {nodes nodes' : LazyNodes} (h : nodes.Kept nodes') {node : Nat}
    {forced : LazyOutcome} (hOutcome : nodes.outcome? node = some forced) :
    nodes'.outcome? node = some forced := by
  obtain ⟨n, hNode, hForced⟩ := outcome?_eq_some.mp hOutcome
  obtain ⟨n', hNode', hBecomes⟩ := h node n hNode
  exact outcome?_eq_some.mpr ⟨n', hNode', hBecomes.outcome forced hForced⟩

theorem push (nodes : LazyNodes) (new : LazyNode) : nodes.Kept (nodes.push new) := by
  intro node n hNode
  have hOld : node ≠ nodes.size := Nat.ne_of_lt (Array.getElem?_eq_some_iff.mp hNode).1
  exact ⟨n, by rw [Array.getElem?_push, if_neg hOld, hNode], .refl n⟩

/-- Settling a node that has not been settled. -/
theorem settle {nodes : LazyNodes} {node : Nat} (hFresh : nodes.outcome? node = none)
    (forced : LazyOutcome) :
    nodes.Kept (nodes.modify node fun n => { n with outcome := some forced }) := by
  intro other n hNode
  rw [Array.getElem?_modify]
  by_cases hSame : node = other
  · subst hSame
    have hNone : n.outcome = none := (outcome?_of_getElem? hNode).symm.trans hFresh
    refine ⟨{ n with outcome := some forced }, by rw [if_pos rfl, hNode]; rfl, rfl, rfl, ?_⟩
    intro earlier hEarlier
    rw [hNone] at hEarlier
    cases hEarlier
  · exact ⟨n, by rw [if_neg hSame, hNode], .refl n⟩

end Kept

end LazyNodes

/-- A state that another one leads to: nodes and closures are still there, and what has
been printed stays printed. -/
structure State.Later (s s' : State) : Prop where
  nodes : s.nodes.Kept s'.nodes
  closures : ∀ (id : Nat) (closure : Closure), s.closures[id]? = some closure →
    s'.closures[id]? = some closure
  output : ∃ text, s'.output = s.output ++ text

namespace State.Later

variable {s s' s'' : State}

theorem trans (h : s.Later s') (h' : s'.Later s'') : s.Later s'' where
  nodes := h.nodes.trans h'.nodes
  closures id closure hClosure := h'.closures id closure (h.closures id closure hClosure)
  output := by
    obtain ⟨text, hText⟩ := h.output
    obtain ⟨text', hText'⟩ := h'.output
    exact ⟨text ++ text', by rw [hText', hText, String.append_assoc]⟩

/-- Most moves have nothing to do with nodes, closures and output. -/
theorem of_same (hNodes : s'.nodes = s.nodes) (hClosures : s'.closures = s.closures)
    (hOutput : s'.output = s.output) : s.Later s' where
  nodes := hNodes ▸ .refl _
  closures _ _ hClosure := hClosures ▸ hClosure
  output := ⟨"", by rw [hOutput, String.append_empty]⟩

theorem refl (s : State) : s.Later s := .of_same rfl rfl rfl

theorem of_nodes (hNodes : s.nodes.Kept s'.nodes) (hClosures : s'.closures = s.closures)
    (hOutput : s'.output = s.output) : s.Later s' where
  nodes := hNodes
  closures _ _ hClosure := hClosures ▸ hClosure
  output := ⟨"", by rw [hOutput, String.append_empty]⟩

end State.Later

/-- The nodes of a state in which one has been settled: the node for the rest of the
list comes first, if there is one. -/
theorem State.later_settled {s : State} {node : Nat} (hFresh : s.nodes.outcome? node = none)
    (iterator : Value) (step : IterStep) : s.Later (s.settled node iterator step) := by
  cases step with
  | finish => exact .of_nodes (.settle hFresh .ended) rfl rfl
  | advance head state =>
      have hStill : LazyNodes.outcome? (s.nodes.push { iterator, state }) node = none := by
        rw [LazyNodes.outcome?_push, hFresh]
      exact .of_nodes ((LazyNodes.Kept.push _ _).trans (.settle hStill _)) rfl rfl

namespace State.Later

variable {s s' : State}

theorem node (s : State) (iterator state : Value) :
    s.Later { s with nodes := s.nodes.push { iterator, state } } :=
  .of_nodes (.push _ _) rfl rfl

theorem printed (s : State) (text : String) : s.Later { s with output := s.output ++ text } :=
  ⟨.refl _, fun _ _ h => h, text, rfl⟩

theorem closure (s : State) (clause : Clause) (scope : Nat) :
    s.Later { s with closures := s.closures.push ⟨clause, scope⟩ } := by
  refine ⟨.refl _, fun id closure h => ?_, "", (String.append_empty).symm⟩
  have hOld : id ≠ s.closures.size := Nat.ne_of_lt (Array.getElem?_eq_some_iff.mp h).1
  show (s.closures.push ⟨clause, scope⟩)[id]? = some closure
  rw [Array.getElem?_push, if_neg hOld, h]

theorem entered (s : State) (parent : Nat) (vars : Dict Value) : s.Later (s.entered parent vars) :=
  .of_same rfl rfl rfl

theorem left {parent : Nat} (h : (s.entered parent {}).Later s') (scope : Nat) :
    s.Later (s'.left scope) := by
  have hLeft : s'.Later (s'.left scope) := .of_same rfl rfl rfl
  exact ((entered s parent {}).trans h).trans hLeft

end State.Later

/-- **Every move of the machine leads to a later state.** -/
theorem later_frame : Frame fun _ => State.Later where
  refl _ := .refl
  trans := .trans
  weaken _ h := h
  asked _ _ := .of_same rfl rfl rfl
  node := .node
  settled iterator step hFresh := State.later_settled hFresh iterator step
  printed := .printed
  opened _ _ := .of_same rfl rfl rfl
  read _ _ _ _ := .of_same rfl rfl rfl
  entered _ _ _ := .of_same rfl rfl rfl
  closure := .closure
  kept _ _ _ := .of_same rfl rfl rfl
  bound _ _ _ _ _ := .of_same rfl rfl rfl
  claimed h _ := h.trans (.of_same rfl rfl rfl)
  left h := h.left _
  followed h _ := (State.Later.entered _ _ _).trans h
  forgotten _ h h' := h.trans h'

/-! ## Forcing -/

/-- Head and next node, if the list does not end. -/
def LazyOutcome.parts? : LazyOutcome → Option (Value × Value)
  | .ended => none
  | .item head next => some (head, next)

/-- What is done with the result of the iterator of a node. -/
def LazyNode.settle (n : LazyNode) (node : Nat) (result : Value) : Run LazyOutcome :=
  match IterStep.ofValue? result with
  | some step => recordStep node n.iterator step
  | none => do fail (.eval (.badStep ((← get).repr result)))

theorem force_of_none {s : State} {node : Nat} (h : s.nodes[node]? = none) (call : Caller) :
    force call node s = (.ok .ended, s) := by
  unfold force
  rw [Run.get_bind_apply]
  simp only [h]
  rfl

/-- Forcing a node that has been settled gives its outcome and does nothing. -/
theorem force_of_outcome {s : State} {node : Nat} {forced : LazyOutcome}
    (h : s.nodes.outcome? node = some forced) (call : Caller) :
    force call node s = (.ok forced, s) := by
  obtain ⟨n, hNode, hForced⟩ := LazyNodes.outcome?_eq_some.mp h
  unfold force
  rw [Run.get_bind_apply]
  simp only [hNode, hForced]
  rfl

/-- Forcing a node that has not been settled calls its iterator with its state. -/
theorem force_of_fresh {s : State} {node : Nat} {n : LazyNode} (hNode : s.nodes[node]? = some n)
    (hFresh : n.outcome = none) (call : Caller) :
    force call node s = (call n.iterator [n.state] >>= n.settle node) s := by
  unfold force
  rw [Run.get_bind_apply]
  simp only [hNode, hFresh]
  rfl

/-- **A node that has been settled is not asked again**: its parts are at hand, whoever
would have been called, and nothing happens. -/
theorem uncons_of_outcome {s : State} {node : Nat} {forced : LazyOutcome}
    (h : s.nodes.outcome? node = some forced) (call : Caller) (context : String) {value : Value}
    (hValue : value.untagged = .lazy node) :
    uncons call context value s = (.ok forced.parts?, s) := by
  have hForce := force_of_outcome h call
  unfold uncons
  rw [hValue]
  cases forced with
  | ended => exact Run.bind_apply_ok hForce
  | item head next => exact Run.bind_apply_ok hForce

theorem recordStep_ne_error (node : Nat) (iterator : Value) (step : IterStep) (s : State)
    (stop : Stop) (s' : State) : recordStep node iterator step s ≠ (.error stop, s') := by
  unfold recordStep
  rw [Run.get_bind_apply]
  cases s.nodes.outcome? node with
  | some forced => exact nofun
  | none => cases step <;> exact nofun

/-- The way in which the machine calls functions. -/
def Caller.ofMachine (fuel level : Nat) : Caller := fun function arguments =>
  exec fuel level (.call function arguments)

/-- The call of the iterator of a node fails, or what it gives cannot be understood. -/
def LazyNode.Refused (n : LazyNode) (call : Caller) (s s' : State) (stop : Stop) : Prop :=
  call n.iterator [n.state] s = (.error stop, s') ∨
    ∃ result, call n.iterator [n.state] s = (.ok result, s') ∧
      IterStep.ofValue? result = none ∧ stop = .error (.eval (.badStep (s'.repr result)))

/-- **Where forcing a node fails, it has settled nothing**: the state is the one that the
call of the iterator has left. -/
theorem force_stops {call : Caller} {s s' : State} {node : Nat} {stop : Stop}
    (h : force call node s = (.error stop, s')) :
    ∃ n, s.nodes[node]? = some n ∧ n.outcome = none ∧ n.Refused call s s' stop := by
  cases hNode : s.nodes[node]? with
  | none =>
      rw [force_of_none hNode] at h
      cases h
  | some n =>
      cases hOutcome : n.outcome with
      | some forced =>
          rw [force_of_outcome (LazyNodes.outcome?_eq_some.mpr ⟨n, hNode, hOutcome⟩)] at h
          cases h
      | none =>
          rw [force_of_fresh hNode hOutcome, Run.bind_apply] at h
          refine ⟨n, rfl, hOutcome, ?_⟩
          rcases hRun : call n.iterator [n.state] s with ⟨stop' | result, s₁⟩ <;> rw [hRun] at h
          · cases h
            exact .inl hRun
          · simp only [LazyNode.settle] at h
            cases hStep : IterStep.ofValue? result with
            | none =>
                rw [hStep] at h
                cases h
                exact .inr ⟨result, hRun, hStep, rfl⟩
            | some step =>
                rw [hStep] at h
                exact absurd h (recordStep_ne_error node n.iterator step s₁ stop s')

/-- Forcing a node fails if the call of its iterator does, or gives what is no step. -/
theorem force_of_refused {call : Caller} {s s' : State} {node : Nat} {n : LazyNode} {stop : Stop}
    (hNode : s.nodes[node]? = some n) (hFresh : n.outcome = none)
    (h : n.Refused call s s' stop) : force call node s = (.error stop, s') := by
  rw [force_of_fresh hNode hFresh, Run.bind_apply]
  rcases h with hFailed | ⟨result, hDone, hStep, rfl⟩
  · rw [hFailed]
  · rw [hDone]
    simp only [LazyNode.settle, hStep]
    rfl

end ClauseLisp
