import ClauseLisp.Proofs.Lazy.WriteOnce

/-!
# The empty pattern

A recursion over a list stops in two ways: a clause with the pattern `'()` is chosen, or
the program asks `empty?`.  The first looks at an argument that has been prepared for
the choice, where a lazy list has been forced and one that ends has been replaced by the
empty list; the second forces the list when it is asked.  Preparing a list and comparing
it with the empty list is the same computation as asking `empty?`, with the same effects
and the same errors, and since nodes are settled once, it makes no difference which of
the two comes first.

There is one exception.  Preparing does not look under tags: a lazy list with a tag is
left as it is, and the pattern does not match it, whether it ends or not.

## Main results

* `exposeHead_then_match` — preparing and comparing is asking `empty?`.
* `Value.emptyIn?_of_exposeHead` — what has been prepared is known.
* `nil_pattern_iff_empty` — the pattern in a call, and `empty?` before and after it.
-/

namespace ClauseLisp

open Ty (Registry)

namespace Value

/-- Whether a value is a lazy list under a tag. -/
def isTaggedLazy : Value → Bool
  | .tagged _ (.lazy _) => true
  | _ => false

/-- Whether a list is empty, as far as that is known without forcing anything. -/
def emptyIn? (nodes : LazyNodes) (v : Value) : Option Bool :=
  match v.untagged with
  | .nil => some true
  | .cell _ _ _ => some false
  | .lazy node => (nodes.outcome? node).map fun forced => forced.parts?.isNone
  | _ => none

/-- The nodes that a list starts with are in the table. -/
def StartsIn (nodes : LazyNodes) (v : Value) : Prop :=
  ∀ node, v.untagged = .lazy node → node < nodes.size

/-- The empty list matches, under a tag or not, and no other strict list does. -/
theorem same_nil_of_not_lazy {v : Value} (hList : v.isList = true)
    (hStrict : ∀ node, v.untagged ≠ .lazy node) (nodes : LazyNodes) :
    v.emptyIn? nodes = some (v.same .nil) := by
  cases v with
  | nil => rfl
  | cell head tail elem => rfl
  | lazy node => exact absurd rfl (hStrict node)
  | tagged name inner =>
      cases inner with
      | nil => rfl
      | cell head tail elem => rfl
      | lazy node => exact absurd rfl (hStrict node)
      | _ => cases hList
  | _ => cases hList

theorem emptyIn?_lazy (nodes : LazyNodes) {v : Value} {node : Nat} (hLazy : v.untagged = .lazy node) :
    v.emptyIn? nodes = (nodes.outcome? node).map fun forced => forced.parts?.isNone := by
  rw [emptyIn?, hLazy]

/-- What is known of a list stays known. -/
theorem emptyIn?_kept {nodes nodes' : LazyNodes} (hKept : nodes.Kept nodes') {v : Value} {b : Bool}
    (h : v.emptyIn? nodes = some b) : v.emptyIn? nodes' = some b := by
  unfold emptyIn? at h ⊢
  split at h
  · exact h
  · exact h
  · obtain ⟨forced, hForced, rfl⟩ := Option.map_eq_some_iff.mp h
    rw [hKept.outcome? hForced]
    rfl
  · cases h

end Value

/-! ## Asking `empty?` -/

theorem isEmpty_eq (call : Caller) (fuel : Nat) {v : Value} (hList : v.isList = true) :
    Intrinsic.run call fuel [v] .isEmpty =
      (uncons call "empty?" v >>= fun parts => pure (.bool parts.isNone) : Run Value) := by
  have hArgument : listArgument [v] 0 = (pure v : Run Value) := by
    simp only [listArgument, List.getElem?_cons_zero, hList, if_true]
  show (listArgument [v] 0 >>= fun list => uncons call "empty?" list >>= fun parts =>
    pure (.bool parts.isNone) : Run Value) = _
  rw [hArgument, pure_bind]

/-- The answer of `empty?` to a list, at no cost and whoever would be called. -/
def Value.SaysEmpty (v : Value) (s : State) (b : Bool) : Prop :=
  ∀ (call : Caller) (fuel : Nat), Intrinsic.run call fuel [v] .isEmpty s = (.ok (.bool b), s)

/-- **What is known is answered without forcing anything.** -/
theorem Value.saysEmpty_of_emptyIn? {v : Value} {s : State} {b : Bool} (hList : v.isList = true)
    (h : v.emptyIn? s.nodes = some b) : v.SaysEmpty s b := by
  intro call fuel
  rw [isEmpty_eq call fuel hList]
  unfold Value.emptyIn? at h
  split at h
  · rename_i hNil
    cases h
    unfold uncons
    rw [hNil]
    rfl
  · rename_i hCell
    cases h
    unfold uncons
    rw [hCell]
    rfl
  · rename_i hLazy
    obtain ⟨forced, hForced, rfl⟩ := Option.map_eq_some_iff.mp h
    rw [Run.bind_apply_ok (uncons_of_outcome hForced call "empty?" hLazy)]
    rfl
  · cases h

/-- **Preparing a list and comparing it with the empty list is asking `empty?`**, with the
same effects and the same errors. -/
theorem exposeHead_then_match (call : Caller) (fuel : Nat) {v : Value} (hList : v.isList = true)
    (hBare : v.isTaggedLazy = false) :
    (exposeHead call v >>= fun seen => pure (.bool (seen.same .nil)) : Run Value) =
      Intrinsic.run call fuel [v] .isEmpty := by
  rw [isEmpty_eq call fuel hList]
  cases v with
  | nil => rfl
  | cell head tail elem => rfl
  | lazy node =>
      show ((force call node >>= _) >>= _ : Run Value) = ((force call node >>= _) >>= _)
      rw [bind_assoc, bind_assoc]
      congr 1
      funext forced
      cases forced <;> rfl
  | tagged name inner =>
      cases inner with
      | nil => rfl
      | cell head tail elem => rfl
      | lazy node => cases hBare
      | _ => cases hList
  | _ => cases hList

/-! ## What forcing settles -/

theorem outcome?_of_recordStep {node : Nat} {iterator : Value} {step : IterStep}
    {forced : LazyOutcome} {s s' : State} (hNode : node < s.nodes.size)
    (h : recordStep node iterator step s = (.ok forced, s')) :
    s'.nodes.outcome? node = some forced := by
  unfold recordStep at h
  rw [Run.get_bind_apply] at h
  cases hBefore : s.nodes.outcome? node with
  | some earlier =>
      rw [hBefore] at h
      cases h
      exact hBefore
  | none =>
      rw [hBefore] at h
      have hStored : ∀ (nodes : LazyNodes) (forced : LazyOutcome), node < nodes.size →
          LazyNodes.outcome? (nodes.modify node fun n => { n with outcome := some forced }) node =
            some forced := by
        intro nodes forced hThere
        refine LazyNodes.outcome?_eq_some.mpr ⟨{ nodes[node] with outcome := some forced }, ?_, rfl⟩
        rw [Array.getElem?_modify, if_pos rfl, Array.getElem?_eq_getElem hThere]
        rfl
      cases step with
      | finish =>
          cases h
          exact hStored s.nodes .ended hNode
      | advance head state =>
          cases h
          refine hStored _ _ ?_
          rw [Array.size_push]
          exact Nat.lt_succ_of_lt hNode

/-- Calls by the machine lead to later states. -/
theorem Caller.later_ofMachine (fuel level : Nat) :
    Caller.Keeps (fun _ => State.Later) (.ofMachine fuel level) := fun function arguments =>
  exec_keeps later_frame fuel level (.call function arguments) trivial

theorem LazyNodes.Kept.size_le {nodes nodes' : LazyNodes} (h : nodes.Kept nodes') {node : Nat}
    (hNode : node < nodes.size) : node < nodes'.size := by
  obtain ⟨n, hThere, -⟩ := h node nodes[node] (Array.getElem?_eq_getElem hNode)
  exact (Array.getElem?_eq_some_iff.mp hThere).1

section

variable {fuel level : Nat} {s s' : State}

/-- **What forcing a node gives is its outcome from then on.** -/
theorem outcome?_of_force {node : Nat} {forced : LazyOutcome} (hPlaced : s.Placed)
    (hNode : node < s.nodes.size)
    (h : force (.ofMachine fuel level) node s = (.ok forced, s')) :
    s'.nodes.outcome? node = some forced := by
  have hThere : s.nodes[node]? = some s.nodes[node] := Array.getElem?_eq_getElem hNode
  cases hOutcome : s.nodes[node].outcome with
  | some earlier =>
      have hEarlier := (LazyNodes.outcome?_of_getElem? hThere).trans hOutcome
      rw [force_of_outcome hEarlier] at h
      cases h
      exact hEarlier
  | none =>
      rw [force_of_fresh hThere hOutcome] at h
      obtain ⟨result, s₁, hCall, h⟩ := Run.bind_eq_ok h
      simp only [LazyNode.settle] at h
      have hLater := (Caller.later_ofMachine fuel level s.nodes[node].iterator
        [s.nodes[node].state] s hPlaced (Access.fitsIn_nothing s)).related
      rw [hCall] at hLater
      have hStill : node < s₁.nodes.size := hLater.nodes.size_le hNode
      cases hStep : IterStep.ofValue? result with
      | none =>
          simp only [hStep] at h
          cases h
      | some step =>
          simp only [hStep] at h
          exact outcome?_of_recordStep hStill h

/-- **What has been prepared is known**: whether it ends is whether it matches. -/
theorem Value.emptyIn?_of_exposeHead {v seen : Value} (hPlaced : s.Placed) (hList : v.isList = true)
    (hBare : v.isTaggedLazy = false) (hStarts : v.StartsIn s.nodes)
    (h : exposeHead (.ofMachine fuel level) v s = (.ok seen, s')) :
    v.emptyIn? s'.nodes = some (seen.same .nil) := by
  cases v with
  | nil =>
      cases h
      rfl
  | cell head tail elem =>
      cases h
      rfl
  | lazy node =>
      unfold exposeHead at h
      obtain ⟨forced, s₁, hForce, h⟩ := Run.bind_eq_ok h
      have hOutcome := outcome?_of_force hPlaced (hStarts node rfl) hForce
      cases forced with
      | ended =>
          cases h
          rw [Value.emptyIn?_lazy _ rfl, hOutcome]
          rfl
      | item head next =>
          cases h
          rw [Value.emptyIn?_lazy _ rfl, hOutcome]
          rfl
  | tagged name inner =>
      cases h
      refine Value.same_nil_of_not_lazy hList (fun node hLazy => ?_) _
      cases inner with
      | lazy node => cases hBare
      | _ => cases hLazy
  | _ => cases hList

/-- Whatever `empty?` has answered is known afterwards. -/
theorem Value.emptyIn?_of_isEmpty {v : Value} {b : Bool} {n : Nat} (hPlaced : s.Placed)
    (hList : v.isList = true) (hBare : v.isTaggedLazy = false) (hStarts : v.StartsIn s.nodes)
    (h : Intrinsic.run (.ofMachine fuel level) n [v] .isEmpty s = (.ok (.bool b), s')) :
    v.emptyIn? s'.nodes = some b := by
  rw [← exposeHead_then_match _ n hList hBare] at h
  obtain ⟨seen, s₁, hSeen, h⟩ := Run.bind_eq_ok h
  cases h
  exact Value.emptyIn?_of_exposeHead hPlaced hList hBare hStarts hSeen

/-! ## The arguments of a call -/

/-- Arguments are prepared one after the other. -/
theorem exposeWhere_cons {call : Caller} {isLiteral : Nat → Bool} {first : Nat} {argument : Value}
    {arguments prepared : List Value}
    (h : exposeWhere call isLiteral first (argument :: arguments) s = (.ok prepared, s')) :
    ∃ seen others s₁,
      (if isLiteral first then exposeHead call argument else pure argument : Run Value) s =
        (.ok seen, s₁) ∧
      exposeWhere call isLiteral (first + 1) arguments s₁ = (.ok others, s') ∧
      prepared = seen :: others := by
  have hTurns : exposeWhere call isLiteral first (argument :: arguments) =
      ((if isLiteral first then exposeHead call argument else pure argument) >>= fun seen =>
        exposeWhere call isLiteral (first + 1) arguments >>= fun others =>
          pure (seen :: others) : Run (List Value)) := by
    rw [exposeWhere]
    split
    · rfl
    · rw [pure_bind]
  rw [hTurns] at h
  obtain ⟨seen, s₁, hSeen, h⟩ := Run.bind_eq_ok h
  obtain ⟨others, s₂, hOthers, h⟩ := Run.bind_eq_ok h
  cases h
  exact ⟨seen, others, s₁, hSeen, hOthers, rfl⟩

/-- **Each argument is prepared in its turn**, in a state between those before and after the
preparation of all. -/
theorem exposed_in_turn {isLiteral : Nat → Bool} :
    ∀ {arguments prepared : List Value} {first : Nat} {s s' : State}, s.Placed →
      exposeWhere (.ofMachine fuel level) isLiteral first arguments s = (.ok prepared, s') →
      ∀ {i : Nat} {v : Value}, arguments[i]? = some v → isLiteral (first + i) = true →
        ∃ seen t t', prepared[i]? = some seen ∧ t.Placed ∧ s.Later t ∧
          exposeHead (.ofMachine fuel level) v t = (.ok seen, t') ∧ t'.Later s' := by
  intro arguments
  induction arguments with
  | nil =>
      intro _ _ _ _ _ _ i v hArgument
      cases hArgument
  | cons argument arguments ih =>
      intro prepared first s s' hPlaced h i v hArgument hLiteral
      obtain ⟨seen, others, s₁, hSeen, hOthers, rfl⟩ := exposeWhere_cons h
      have hCall := Caller.later_ofMachine fuel level
      have hFirst : Kept (fun _ => State.Later) .nothing s s₁ := by
        split at hSeen
        · have hKept := exposeHead_keeps later_frame hCall argument s hPlaced
            (Access.fitsIn_nothing s)
          rwa [hSeen] at hKept
        · cases hSeen
          exact .refl later_frame _ hPlaced
      cases i with
      | zero =>
          cases hArgument
          rw [Nat.add_zero] at hLiteral
          rw [if_pos hLiteral] at hSeen
          have hRest := exposeWhere_keeps later_frame hCall isLiteral arguments (first + 1)
            s₁ hFirst.placed (Access.fitsIn_nothing s₁)
          rw [hOthers] at hRest
          exact ⟨seen, s, s₁, rfl, hPlaced, .refl s, hSeen, hRest.related⟩
      | succ i =>
          have hLiteral' : isLiteral (first + 1 + i) = true := by
            rwa [Nat.add_assoc, Nat.add_comm 1 i]
          obtain ⟨seen', t, t', hGet, hPlaced', hBefore, hExpose, hAfter⟩ :=
            ih hFirst.placed hOthers hArgument hLiteral'
          exact ⟨seen', t, t', hGet, hPlaced', hFirst.related.trans hBefore, hExpose, hAfter⟩

end

/-- A position at which a function or a lambda has the pattern `'()`, and the positions at
which a call of it prepares its arguments. -/
inductive NilPatternAt (position : Nat) : (Nat → Bool) → Prop
  | function {f : Function} {c : Clause} :
      c ∈ f.clauses → c.params[position]? = some (.lit .nil) → NilPatternAt position f.litAt
  | lambda {c : Clause} : c.params[position]? = some (.lit .nil) → NilPatternAt position c.litAt

/-- A call prepares its arguments wherever it has the pattern. -/
theorem NilPatternAt.isLiteral {position : Nat} {isLiteral : Nat → Bool}
    (h : NilPatternAt position isLiteral) : isLiteral position = true := by
  cases h with
  | @function f c hClause hPattern =>
      refine List.any_eq_true.mpr ⟨c, hClause, ?_⟩
      rw [Clause.litAt, hPattern]
      rfl
  | lambda hPattern =>
      rw [Clause.litAt, hPattern]
      rfl

/-- A list and what it has been prepared to, when a state has led to another: the pattern
`'()` says what `empty?` says. -/
structure AgreesWithEmpty (v seen : Value) (s s' : State) : Prop where
  /-- Asked in place of the preparation, it is the same computation. -/
  instead : ∀ (r : Registry) (call : Caller) (fuel : Nat),
    (exposeHead call v >>= fun seen => pure (.bool (Matchable.litMatch r Value.nil seen)) :
      Run Value) = Intrinsic.run call fuel [v] .isEmpty
  /-- Asked before the call, it has given the same answer. -/
  before : ∀ (r : Registry) (t t' : State) (fuel level n : Nat) (b : Bool), t.Placed →
    v.StartsIn t.nodes →
    Intrinsic.run (.ofMachine fuel level) n [v] .isEmpty t = (.ok (.bool b), t') → t'.Later s →
    Matchable.litMatch r Value.nil seen = b
  /-- Asked at any time after the arguments have been prepared, it gives the same answer. -/
  after : ∀ (r : Registry) (later : State), s'.Later later →
    v.SaysEmpty later (Matchable.litMatch r Value.nil seen)

/-- **The pattern `'()` means that a list is empty**, unless the list is a lazy one under a
tag.  Let a call of a function or of a lambda prepare its arguments, and let one of them be
a list at a position where the pattern `'()` stands.  The pattern matches what has been
prepared exactly if `empty?` says so: asked before the call, in place of the preparation or
at any time after it.  A lazy list under a tag is not matched, whether it ends or not. -/
theorem nil_pattern_iff_empty {position : Nat} {isLiteral : Nat → Bool}
    (hPattern : NilPatternAt position isLiteral) {fuel level : Nat}
    {arguments prepared : List Value} {s s' : State} (hPlaced : s.Placed)
    (hPrepared : exposeWhere (.ofMachine fuel level) isLiteral 0 arguments s = (.ok prepared, s'))
    {v : Value} (hArgument : arguments[position]? = some v) (hList : v.isList = true)
    (hStarts : v.StartsIn s.nodes) :
    ∃ seen, prepared[position]? = some seen ∧
      (v.isTaggedLazy = false → AgreesWithEmpty v seen s s') ∧
      (v.isTaggedLazy = true → ∀ r : Registry, Matchable.litMatch r Value.nil seen = false) := by
  have hLiteral : isLiteral (0 + position) = true := by
    rw [Nat.zero_add]
    exact hPattern.isLiteral
  obtain ⟨seen, t, t', hGet, hPlaced', hBefore, hExpose, hAfter⟩ :=
    exposed_in_turn hPlaced hPrepared hArgument hLiteral
  refine ⟨seen, hGet, fun hBare => ?_, fun hTagged r => ?_⟩
  · have hStarts' : v.StartsIn t.nodes := fun node hLazy =>
      hBefore.nodes.size_le (hStarts node hLazy)
    have hKnown : v.emptyIn? t'.nodes = some (seen.same .nil) :=
      Value.emptyIn?_of_exposeHead hPlaced' hList hBare hStarts' hExpose
    have hKnown' : v.emptyIn? s'.nodes = some (seen.same .nil) :=
      Value.emptyIn?_kept hAfter.nodes hKnown
    refine ⟨fun r call fuel => exposeHead_then_match call fuel hList hBare, ?_, ?_⟩
    · intro r earlier asked fuel' level' n b hEarlier hThere hAsked hLater
      have hFirst := Value.emptyIn?_of_isEmpty hEarlier hList hBare hThere hAsked
      have hLasts : v.emptyIn? t.nodes = some b :=
        Value.emptyIn?_kept (hLater.trans hBefore).nodes hFirst
      have hPrepares := exposeHead_keeps later_frame
        (Caller.later_ofMachine fuel level) v t hPlaced' (Access.fitsIn_nothing t)
      rw [hExpose] at hPrepares
      have hSame := Value.emptyIn?_kept hPrepares.related.nodes hLasts
      rw [hKnown, Option.some.injEq] at hSame
      exact hSame
    · intro r later hLater
      exact Value.saysEmpty_of_emptyIn? hList (Value.emptyIn?_kept hLater.nodes hKnown')
  · -- A tagged value is left as it is, and nodes are only equal to themselves.
    cases v with
    | tagged name inner =>
        cases hExpose
        cases inner with
        | lazy node => rfl
        | _ => cases hTagged
    | _ => cases hTagged

/-- A function that asks for the end of a list, and is 0 there and 1 otherwise. -/
def emptyOrNot : Function where
  name := "size"
  clauses := [⟨[.lit .nil], none, .lit (.int 0), false, false⟩,
    ⟨[.bind "l"], none, .lit (.int 1), false, false⟩]

/-- A machine with this function, a type of lists, and a lazy list that ends at once, which has
not been forced. -/
def ending : State where
  program :=
    { types := { parents := ⟨[("nums", .listAny)]⟩ }
      functions :=
        ⟨[("none", { name := "none", clauses := [⟨[.bind "s"], none, .lit .nil, false, false⟩] }),
          ("size", emptyOrNot)]⟩ }
  nodes := #[{ iterator := .func "none", state := .int 0 }]

theorem placed_ending : ending.Placed := by
  refine ⟨⟨fun name f hGet c hc => ?_, nofun⟩, nofun⟩
  simp only [ending, Dict.get?, Dict.find] at hGet
  split at hGet
  · cases hGet
    cases List.mem_singleton.mp hc
    rfl
  · split at hGet
    · cases hGet
      rcases List.mem_cons.mp hc with rfl | hc
      · rfl
      · cases List.mem_singleton.mp hc
        rfl
    · cases hGet

/-- The call `(size g)` finds the end of the list `g`, which is then known to be empty. -/
theorem nil_pattern_of_ending :
    let prepare := exposeWhere (.ofMachine 20 0) emptyOrNot.litAt 0 [.lazy 0]
    NilPatternAt 0 emptyOrNot.litAt ∧ ending.Placed ∧ (prepare ending).1 = .ok [.nil] ∧
      Value.StartsIn ending.nodes (.lazy 0) ∧ Value.emptyIn? ending.nodes (.lazy 0) = none ∧
      Value.SaysEmpty (.lazy 0) (prepare ending).2 true := by
  intro prepare
  have hPattern : NilPatternAt 0 emptyOrNot.litAt := .function (List.mem_cons_self ..) rfl
  have hPrepared : (prepare ending).1 = .ok [.nil] := by cbv
  have hStarts : Value.StartsIn ending.nodes (.lazy 0) := by
    intro node hLazy
    cases hLazy
    exact Nat.zero_lt_one
  have hRun : prepare ending = (.ok [.nil], (prepare ending).2) := Prod.ext hPrepared rfl
  obtain ⟨seen, hSeen, hAgrees, -⟩ :=
    nil_pattern_iff_empty hPattern placed_ending hRun (v := .lazy 0) rfl rfl hStarts
  cases hSeen
  exact ⟨hPattern, placed_ending, hPrepared, hStarts, rfl, (hAgrees rfl).after {} _ (.refl _)⟩

/-- **The two questions differ at a lazy list under a tag.**  It is empty, and the pattern does
not match it. -/
theorem tagged_end_is_not_matched :
    let v := Value.tagged "nums" (.lazy 0)
    (Session.apply 20 (.func "nums") [.lazy 0] ending).1 = .ok v ∧
      (Session.apply 20 (.func "empty?") [v] ending).1 = .ok (.bool true) ∧
      (Session.apply 20 (.func "size") [v] ending).1 = .ok (.int 1) := by
  intro v
  refine ⟨?_, ?_, ?_⟩
  · cbv
  · cbv
  · cbv

end ClauseLisp
