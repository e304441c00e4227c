import ClauseLisp.Proofs.Values.Carried

/-!
# Values that builtins make

Forcing a lazy list calls its iterator and believes what it says; builtins take lists
apart, put them together and make new ones.  If all values that a machine keeps have
a hereditary property, and the arguments of a builtin too, then so has what it makes,
and all values that are kept afterwards.

## Main results

* `force_yields` — forcing a node.
* `builtin_yields` — running a builtin.
-/

namespace ClauseLisp

open Ty (Registry)
open Run (Yields Preserves)

/-- A way to call functions that keeps all values as they should be. -/
def Caller.Yields (r : Registry) (P : Value → Prop) (call : Caller) : Prop :=
  ∀ function arguments, AllHave P arguments → Run.Yields r P P (call function arguments)

section

variable {r : Registry} {P : Value → Prop} (h : Value.Hereditary r P)

/-! ## Making things -/

include h in
theorem newNode_yields {iterator state : Value} (hIterator : P iterator) (hState : P state) :
    Yields r P P (newNode iterator state) := by
  intro s hs
  refine ⟨hs.withNodes fun node n hNode => ?_, fun v hSame => ?_⟩
  · rw [Array.getElem?_push] at hNode
    split at hNode
    · cases hNode
      exact ⟨hIterator, hState, nofun⟩
    · exact hs.nodes node n hNode
  · cases hSame
    exact h.lazy _

include h in
/-- The types of values that are made are fixed, so they need no place. -/
theorem newValue_yields {value : Value} (hValue : P value) : Yields r P P (newValue value) := by
  unfold newValue
  split
  · obtain ⟨ty, hFixed⟩ := h.fixed hValue
    cases hFixed
  · exact .pure hValue

theorem printLine_yields (line : String) : Preserves r P (printLine line) :=
  .modify fun _ hs => ⟨hs.program, hs.scopes, hs.nodes, hs.closures, hs.hosts⟩

/-! ## Forcing lazy lists -/

/-- What an iterator says, with values that have a property. -/
def IterStep.Carries (P : Value → Prop) : IterStep → Prop
  | .finish => True
  | .advance head state => P head ∧ P state

/-- Head and tail of a list, if it has them, with a property. -/
def PartsHave (P : Value → Prop) (parts : Option (Value × Value)) : Prop :=
  ∀ head tail, parts = some (head, tail) → P head ∧ P tail

include h in
theorem IterStep.carries_of_ofValue? {result : Value} {step : IterStep} (hResult : P result)
    (hStep : IterStep.ofValue? result = some step) : step.Carries P := by
  unfold IterStep.ofValue? at hStep
  split at hStep
  · cases hStep
    trivial
  · split at hStep
    · rename_i head hItems
      cases hStep
      have hHead := List.forall_mem_singleton.mp (Value.items?_hereditary h hResult hItems)
      exact ⟨hHead, hHead⟩
    · rename_i head state hItems
      cases hStep
      have hBoth := Value.items?_hereditary h hResult hItems
      exact ⟨hBoth head (by simp), hBoth state (by simp)⟩
    · cases hStep
  · cases hStep

theorem storeOutcome_yields (node : Nat) {forced : LazyOutcome} (hForced : forced.Carries P) :
    Preserves r P (storeOutcome node forced) := by
  refine .modify fun s hs => hs.withNodes fun other n hNode => ?_
  rw [Array.getElem?_modify] at hNode
  split at hNode
  · obtain ⟨before, hBefore, rfl⟩ := Option.map_eq_some_iff.mp hNode
    have hKept := hs.nodes other before hBefore
    refine ⟨hKept.iterator, hKept.state, fun stored hStored => ?_⟩
    cases hStored
    exact hForced
  · exact hs.nodes other n hNode

include h in
theorem recordStep_yields (node : Nat) {iterator : Value} (hIterator : P iterator)
    {step : IterStep} (hStep : step.Carries P) :
    Yields r P (LazyOutcome.Carries P) (recordStep node iterator step) := by
  refine .bind .get fun s hs => ?_
  have hStore : ∀ forced : LazyOutcome, forced.Carries P → Yields r P (LazyOutcome.Carries P)
      (storeOutcome node forced >>= fun _ => pure forced) := fun forced hForced =>
    .bind (storeOutcome_yields node hForced) fun _ _ => .pure hForced
  split
  · rename_i forced hOutcome
    exact .pure (hs.outcome hOutcome)
  · cases step with
    | finish => exact hStore .ended trivial
    | advance head state =>
        refine .bind (newNode_yields h hIterator hStep.2) fun next hNext => ?_
        exact hStore (.item head next) ⟨hStep.1, hNext⟩

variable {call : Caller} (hCall : call.Yields r P)

include h hCall

/-- Forcing calls the iterator of a node with the state of the node. -/
theorem force_yields (node : Nat) : Yields r P (LazyOutcome.Carries P) (force call node) := by
  refine .bind .get fun s hs => ?_
  cases hNode : s.nodes[node]? with
  | none => exact .pure trivial
  | some n =>
      have hKept : n.Carries P := hs.nodes node n hNode
      cases hOutcome : n.outcome with
      | some forced =>
          simp only [hOutcome]
          exact .pure (hKept.outcome forced hOutcome)
      | none =>
          simp only [hOutcome]
          have hState : AllHave P [n.state] := List.forall_mem_singleton.mpr hKept.state
          refine .bind (hCall n.iterator [n.state] hState) fun result hResult => ?_
          cases hStep : IterStep.ofValue? result with
          | none => exact .bind .get fun _ _ => .fail _
          | some step =>
              have hSaid : step.Carries P := IterStep.carries_of_ofValue? h hResult hStep
              exact recordStep_yields h node hKept.iterator hSaid

theorem uncons_yields (context : String) {value : Value} (hValue : P value) :
    Yields r P (PartsHave P) (uncons call context value) := by
  have hBare : P value.untagged := h.untagged hValue
  have hSome : ∀ {head tail : Value}, P head → P tail → PartsHave P (some (head, tail)) := by
    intro head tail hHead hTail head' tail' hSame
    cases hSame
    exact ⟨hHead, hTail⟩
  unfold uncons
  split
  · exact .pure nofun
  · rename_i head tail elem hCell
    rw [hCell] at hBare
    exact .pure (hSome (h.head hBare) (h.tail hBare))
  · refine .bind (force_yields h hCall _) fun forced hForced => ?_
    cases forced with
    | ended => exact .pure nofun
    | item head next => exact .pure (hSome hForced.1 hForced.2)
  · exact .bind .get fun _ _ => .fail _

theorem exposeHead_yields {value : Value} (hValue : P value) :
    Yields r P P (exposeHead call value) := by
  unfold exposeHead
  split
  · refine .bind (force_yields h hCall _) fun forced _ => ?_
    cases forced with
    | ended => exact .pure h.nil
    | item head next => exact .pure hValue
  · exact .pure hValue

theorem elements_yields (fuel : Nat) (context : String) {value : Value} (hValue : P value) :
    Yields r P (AllHave P) (elements call fuel context value) := by
  have hOnto : ∀ (done : List Value) (value : Value), AllHave P done → P value →
      Yields r P (AllHave P) (elementsOnto call context fuel done value) := by
    induction fuel with
    | zero => exact fun _ _ _ _ => .throw .outOfFuel
    | succ fuel ih =>
        intro done value hDone hValue
        refine .bind (uncons_yields h hCall context hValue) fun parts hParts => ?_
        cases parts with
        | none => exact .pure fun v hMem => hDone v (List.mem_reverse.mp hMem)
        | some parts =>
            obtain ⟨hHead, hTail⟩ := hParts parts.1 parts.2 rfl
            exact ih _ _ (List.forall_mem_cons.mpr ⟨hHead, hDone⟩) hTail
  exact hOnto [] value (List.forall_mem_nil P) hValue

/-! ## Memo keys -/

theorem listKeyOnto_yields {key : Value → Run String} (hKey : ∀ v, P v → Preserves r P (key v))
    (fuel : Nat) :
    ∀ (done : String) (value : Value), P value →
      Preserves r P (listKeyOnto call key fuel done value) := by
  induction fuel with
  | zero => exact fun _ _ _ => .throw .outOfFuel
  | succ fuel ih =>
      intro done value hValue
      refine .bind (uncons_yields h hCall "memo" hValue) fun parts hParts => ?_
      cases parts with
      | none => exact .pure trivial
      | some parts =>
          obtain ⟨hHead, hTail⟩ := hParts parts.1 parts.2 rfl
          exact .bind (hKey parts.1 hHead) fun _ _ => ih _ parts.2 hTail

theorem valueKey_yields (fuel : Nat) :
    ∀ value : Value, P value → Preserves r P (valueKey call fuel value) := by
  induction fuel with
  | zero => exact fun _ _ => .throw .outOfFuel
  | succ fuel ih =>
      intro value hValue
      cases value with
      | tagged name inner => exact .bind (ih inner (h.untagged hValue)) fun _ _ => .pure trivial
      | nil =>
          exact .bind (listKeyOnto_yields h hCall ih fuel "(" _ hValue) fun _ _ => .pure trivial
      | cell head tail elem =>
          exact .bind (listKeyOnto_yields h hCall ih fuel "(" _ hValue) fun _ _ => .pure trivial
      | lazy node =>
          exact .bind (listKeyOnto_yields h hCall ih fuel "(" _ hValue) fun _ _ => .pure trivial
      | _ => exact .pure trivial

theorem callKey_yields (fuel : Nat) {arguments : List Value} (hArguments : AllHave P arguments) :
    Preserves r P (callKey call fuel arguments) := by
  have hOnto : ∀ (arguments : List Value) (done : String), AllHave P arguments →
      Preserves r P (callKeyOnto call fuel done arguments) := by
    intro arguments
    induction arguments with
    | nil => exact fun _ _ => .pure trivial
    | cons argument arguments ih =>
        intro done hArguments
        obtain ⟨hFirst, hRest⟩ := List.forall_mem_cons.mp hArguments
        exact .bind (valueKey_yields h hCall fuel argument hFirst) fun _ _ => ih _ hRest
  exact hOnto arguments "" hArguments

/-! ## Builtins -/

omit h hCall in
theorem listArgument_yields {arguments : List Value} (hArguments : AllHave P arguments)
    (position : Nat) : Yields r P P (listArgument arguments position) := by
  unfold listArgument
  split
  · exact .fail _
  · rename_i value hGet
    split
    · exact .pure (hArguments value (List.mem_of_getElem? hGet))
    · exact .bind .get fun _ _ => .fail _

theorem listsEqual_yields {equal : Value → Value → Run Bool}
    (hEqual : ∀ left right, P left → P right → Preserves r P (equal left right)) (fuel : Nat) :
    ∀ left right : Value, P left → P right →
      Preserves r P (listsEqual call equal fuel left right) := by
  induction fuel with
  | zero => exact fun _ _ _ _ => .throw .outOfFuel
  | succ fuel ih =>
      intro left right hLeft hRight
      refine .bind (uncons_yields h hCall "=" hLeft) fun leftParts hLeftParts => ?_
      refine .bind (uncons_yields h hCall "=" hRight) fun rightParts hRightParts => ?_
      cases leftParts with
      | none => cases rightParts <;> exact .pure trivial
      | some leftParts =>
          cases rightParts with
          | none => exact .pure trivial
          | some rightParts =>
              obtain ⟨hHead, hTail⟩ := hLeftParts leftParts.1 leftParts.2 rfl
              obtain ⟨hHead', hTail'⟩ := hRightParts rightParts.1 rightParts.2 rfl
              refine .bind (hEqual _ _ hHead hHead') fun same _ => ?_
              split
              · exact ih _ _ hTail hTail'
              · exact .pure trivial

theorem equalForced_yields (fuel : Nat) :
    ∀ left right : Value, P left → P right → Preserves r P (equalForced call fuel left right) := by
  induction fuel with
  | zero => exact fun _ _ _ _ => .throw .outOfFuel
  | succ fuel ih =>
      intro left right hLeft hRight
      rw [equalForced]
      split
      · exact listsEqual_yields h hCall ih fuel left right hLeft hRight
      · exact .pure trivial

theorem allEqual_yields (fuel : Nat) {arguments : List Value} (hArguments : AllHave P arguments) :
    Preserves r P (allEqual call fuel arguments) := by
  induction arguments with
  | nil => exact .pure trivial
  | cons left rest ih =>
      obtain ⟨hLeft, hRest⟩ := List.forall_mem_cons.mp hArguments
      cases rest with
      | nil => exact .pure trivial
      | cons right rest =>
          rw [allEqual]
          have hRight : P right := (List.forall_mem_cons.mp hRest).1
          refine .bind (equalForced_yields h hCall fuel left right hLeft hRight) fun same _ => ?_
          split
          · exact ih hRest
          · exact .pure trivial

theorem elementsOfAll_yields (fuel : Nat) (context : String) {values : List Value}
    (hValues : AllHave P values) :
    Yields r P (AllHave P) (elementsOfAll call fuel context values) := by
  induction values with
  | nil => exact .pure (List.forall_mem_nil P)
  | cons value values ih =>
      obtain ⟨hFirst, hRest⟩ := List.forall_mem_cons.mp hValues
      refine .bind (elements_yields h hCall fuel context hFirst) fun items hItems => ?_
      exact .bind (ih hRest) fun others hOthers => .pure (List.forall_mem_append.mpr ⟨hItems, hOthers⟩)

omit h hCall in
/-- If no argument is found that is not a list, all are lists. -/
theorem isList_of_firstNonList {values : List Value} {position : Nat}
    (hNone : firstNonList position values = none) : ∀ v ∈ values, v.isList = true := by
  induction values generalizing position with
  | nil => exact List.forall_mem_nil _
  | cons value values ih =>
      rw [firstNonList] at hNone
      split at hNone
      · rename_i hList
        exact List.forall_mem_cons.mpr ⟨hList, ih hNone⟩
      · cases hNone

theorem concatAll_yields (fuel : Nat) {arguments : List Value} (hArguments : AllHave P arguments) :
    Yields r P P (concatAll call fuel arguments) := by
  unfold concatAll
  split
  · exact .pure h.nil
  · exact .pure (h.str _)
  · rename_i last hLast _
    have hMem : last ∈ arguments := List.mem_of_getLast? hLast
    split
    · exact .bind .get fun _ _ => .fail _
    · rename_i hLists
      have hInit : AllHave P arguments.dropLast := fun v hv =>
        hArguments v (List.dropLast_subset arguments hv)
      refine .bind (elementsOfAll_yields h hCall fuel "concat" hInit) fun items hItems => ?_
      refine .bind .get fun s hs => newValue_yields h ?_
      rw [hs.program.types]
      exact (Value.append_hereditary h hItems (hArguments last hMem)
        (isList_of_firstNonList hLists last hMem)).1

theorem forceLists_yields (fuel : Nat) (context : String) {values : List Value}
    (hValues : AllHave P values) : Preserves r P (forceLists call fuel context values) := by
  induction values with
  | nil => exact .pure trivial
  | cons value values ih =>
      obtain ⟨hFirst, hRest⟩ := List.forall_mem_cons.mp hValues
      unfold forceLists
      split
      · exact .bind (elements_yields h hCall fuel context hFirst) fun _ _ => ih hRest
      · exact ih hRest

theorem printAll_yields (fuel : Nat) {arguments : List Value} (hArguments : AllHave P arguments) :
    Yields r P P (printAll call fuel arguments) := by
  refine .bind (forceLists_yields h hCall fuel "print" hArguments) fun _ _ => ?_
  refine .bind .get fun _ _ => ?_
  exact .bind (printLine_yields _) fun _ _ => .pure h.nil

omit hCall in
theorem openPath_yields (path : String) : Yields r P P (openPath path) := by
  refine .bind .get fun _ _ => ?_
  split
  · exact .throw _
  · split
    · exact .fail _
    · refine .bind .get fun _ _ => .bind (.modify fun s hs => ?_) fun _ _ => ?_
      · exact ⟨hs.program, hs.scopes, hs.nodes, hs.closures, hs.hosts⟩
      · exact newNode_yields h (h.func _) (h.int _)

omit hCall in
theorem readNext_yields (handle : Int) : Yields r P P (readNext handle) := by
  unfold readNext
  split
  · exact .fail _
  · refine .bind .get fun _ _ => ?_
    split
    · exact .fail _
    · refine .bind (.modify fun s hs => ?_) fun _ _ => ?_
      · exact ⟨hs.program, hs.scopes, hs.nodes, hs.closures, hs.hosts⟩
      · split
        · exact .fail _
        · exact .pure h.nil
        · refine .bind .get fun s hs => newValue_yields h ?_
          rw [hs.program.types]
          refine Value.ofList_hereditary h (List.forall_mem_cons.mpr ⟨h.str _, ?_⟩)
          exact List.forall_mem_singleton.mpr (h.int handle)

omit hCall in
theorem makeLazy_yields {arguments : List Value} (hArguments : AllHave P arguments) :
    Yields r P P (makeLazy arguments) := by
  unfold makeLazy
  split
  · obtain ⟨hIterator, hState⟩ := List.forall_mem_cons.mp hArguments
    split
    · exact newNode_yields h hIterator (List.forall_mem_singleton.mp hState)
    · exact .bind .get fun _ _ => .fail _
  · exact .fail _

theorem intrinsic_yields (fuel : Nat) {arguments : List Value} (hArguments : AllHave P arguments)
    (intrinsic : Intrinsic) : Yields r P P (intrinsic.run call fuel arguments) := by
  have hParts : ∀ context : String, Yields r P (PartsHave P)
      (listArgument arguments 0 >>= uncons call context) := fun context =>
    .bind (listArgument_yields hArguments 0) fun _ hList => uncons_yields h hCall context hList
  cases intrinsic with
  | equal => exact .bind (allEqual_yields h hCall fuel hArguments) fun _ _ => .pure (h.bool _)
  | head =>
      show Yields r P P (listArgument arguments 0 >>= fun list => uncons call "head" list >>= _)
      rw [← bind_assoc]
      refine .bind (hParts "head") fun parts hBoth => ?_
      cases parts with
      | none => exact .fail _
      | some parts => exact .pure (hBoth parts.1 parts.2 rfl).1
  | tail =>
      show Yields r P P (listArgument arguments 0 >>= fun list => uncons call "tail" list >>= _)
      rw [← bind_assoc]
      refine .bind (hParts "tail") fun parts hBoth => ?_
      cases parts with
      | none => exact .pure h.nil
      | some parts => exact .pure (hBoth parts.1 parts.2 rfl).2
  | isEmpty =>
      show Yields r P P (listArgument arguments 0 >>= fun list => uncons call "empty?" list >>= _)
      rw [← bind_assoc]
      exact .bind (hParts "empty?") fun _ _ => .pure (h.bool _)
  | gen => exact makeLazy_yields h hArguments
  | concat => exact concatAll_yields h hCall fuel hArguments
  | print => exact printAll_yields h hCall fuel hArguments
  | openFile =>
      simp only [Intrinsic.run]
      split
      · split
        · exact openPath_yields h _
        · exact .bind .get fun _ _ => .fail _
      · exact .fail _
  | readChar =>
      simp only [Intrinsic.run]
      split
      · exact readNext_yields h _
      · exact .bind .get fun _ _ => .fail _
      · exact .fail _

theorem builtin_yields (fuel : Nat) {b : Builtin} (hBuiltin : b ∈ Builtin.table)
    {arguments : List Value} (hArguments : AllHave P arguments) :
    Yields r P P (b.run call fuel arguments) := by
  unfold Builtin.run
  split
  · rename_i operation hBody
    have hMade := Builtin.operation_hereditary h b hBuiltin operation hBody
    refine .bind .get fun s hs => ?_
    refine .bind (.ofExcept fun v hOk => ?_) fun _ hValue => newValue_yields h hValue
    exact hMade s.view arguments v hs.program.types hArguments hOk
  · exact intrinsic_yields h hCall fuel hArguments _

end

end ClauseLisp
