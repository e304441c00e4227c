import ClauseLisp.Proofs.Trace.Sessions
import ClauseLisp.Proofs.Values.Evaluation
import ClauseLisp.Proofs.Watch.Session

/-!
# Memo tables while nothing is evaluated

Results are written to memo tables at the end of a loop, for all the calls that the loop
has entered, and in place of what has been written meanwhile.  So an entry may well be
replaced while an evaluation is going on.  But a key that is in the table before an
evaluation begins is never waited for: whoever looks it up finds it.

`Guide.standing` says this to the watched machine.  Loads do not touch tables either: a
load leaves a function as it is, or puts one without results in its place.

## Main results

* `Session.entry_stands` — an entry stays what it is, and is there at every step.
* `beginCall_of_entry` — a call that comes to a key in the table has its value at once.
-/

namespace ClauseLisp

/-! ## Entries -/

/-- The result that is kept in a slot. -/
def State.kept? (s : State) (slot : Awaited) : Option Value :=
  (s.program.function? slot.function).bind fun f => f.memo.get? slot.key

theorem State.kept?_congr {s s' : State} (h : s'.program = s.program) (slot : Awaited) :
    s'.kept? slot = s.kept? slot := by
  rw [State.kept?, State.kept?, h]

namespace Program

/-- Keeping a value in one slot changes no other one, and this one to nothing else. -/
theorem kept?_remember (p : Program) (written : Awaited) (value : Value) (slot : Awaited) :
    ((p.remember written.function written.key value).function? slot.function).bind
        (fun f => f.memo.get? slot.key) =
      if slot = written then (p.function? slot.function).map fun _ => value
      else (p.function? slot.function).bind fun f => f.memo.get? slot.key := by
  obtain ⟨function, key⟩ := written
  obtain ⟨name, other⟩ := slot
  rw [function?_remember]
  by_cases hName : name = function
  · subst hName
    simp only [if_true]
    cases p.function? name with
    | none => simp
    | some f =>
        simp only [Option.map_some, Option.bind_some, Memo.get?_insert]
        by_cases hKey : key = other
        · subst hKey
          simp
        · simp [hKey, Ne.symm hKey]
  · rw [if_neg hName, if_neg fun h => hName (congrArg Awaited.function h)]

end Program

namespace State

/-- **Keeping a value leaves a slot as it is, or puts the value there**, if it is one of
those that wait. -/
theorem kept?_keeping {value : Value} {slot : Awaited} :
    ∀ {slots : List Awaited} {s : State},
      (s.keeping value slots).kept? slot = s.kept? slot ∨
        (slot ∈ slots ∧ (s.keeping value slots).kept? slot = some value) := by
  intro slots
  induction slots with
  | nil => exact .inl rfl
  | cons written slots ih =>
      intro s
      have hFirst : State.kept?
          { s with program := s.program.remember written.function written.key value } slot = _ :=
        Program.kept?_remember s.program written value slot
      rcases @ih { s with program := s.program.remember written.function written.key value } with
        hSame | ⟨hMem, hValue⟩
      · by_cases hWritten : slot = written
        · rw [if_pos hWritten] at hFirst
          cases hFound : s.program.function? slot.function with
          | none =>
              have hBefore : s.kept? slot = none := by rw [kept?, hFound, Option.bind_none]
              rw [hFound] at hFirst
              exact .inl (hSame.trans (hFirst.trans hBefore.symm))
          | some f =>
              rw [hFound] at hFirst
              exact .inr ⟨hWritten ▸ List.mem_cons_self, hSame.trans hFirst⟩
        · rw [if_neg hWritten] at hFirst
          exact .inl (hSame.trans hFirst)
      · exact .inr ⟨List.mem_cons_of_mem written hMem, hValue⟩

/-- A slot that is not waited for stays as it is. -/
theorem kept?_keeping_of_notMem {value : Value} {slot : Awaited} {slots : List Awaited}
    {s : State} (h : slot ∉ slots) : (s.keeping value slots).kept? slot = s.kept? slot :=
  kept?_keeping.resolve_right fun hKept => h hKept.1

end State

/-! ## Watching an entry -/

/-- A watch that an entry is there: before each step, where nobody may be waiting for it,
and at every look into a table. -/
def Watch.standing (alarm : Stop) (slot : Awaited) (value : Value) : Watch where
  alarm := alarm
  step task s := s.kept? slot = some value ∧ slot ∉ task.pending
  lookup _ _ s := s.kept? slot = some value
  enter _ _ := True

/-- An entry that is there, so that nobody waits for it. -/
def Guide.standing (slot : Awaited) (value : Value) : Guide where
  Record := Unit
  le _ _ := True
  le_refl _ := trivial
  le_trans _ _ := trivial
  Valid _ s := s.kept? slot = some value
  Sees _ w := ∃ alarm, w = .standing alarm slot value
  Home _ _ _ := True
  Binds _ _ _ := True
  Awaits _ other := other ≠ slot
  Makes _ _ := True
  sees_mono _ h := h
  home_mono _ h := h
  binds_mono _ h := h
  awaits_mono _ h := h
  makes_mono _ h := h
  home_part _ _ := trivial
  binds_set _ := trivial
  makes_block _ := trivial
  makes_closure _ _ := trivial
  makes_clause _ _ _ := trivial
  awaits_lookup hEntry hNone := by
    rintro rfl
    exact nomatch (Except.ok.inj hNone).symm.trans hEntry
  quiet hEntry hQuiet := (State.kept?_congr hQuiet.program slot).trans hEntry
  bound _ hEntry _ := hEntry
  closed hEntry _ := hEntry
  kept value hEntry hAwaits :=
    (State.kept?_keeping_of_notMem fun hMem => hAwaits slot hMem rfl).trans hEntry
  entered hEntry _ :=
    ⟨(), trivial, hEntry, fun w ⟨_, h⟩ => h ▸ trivial, fun _ _ _ _ => trivial, fun _ _ => trivial⟩
  step hEntry _ hAwaits h := by
    obtain ⟨alarm, rfl⟩ := h
    exact ⟨hEntry, fun hMem => hAwaits slot hMem rfl⟩
  lookup hEntry h := by
    obtain ⟨alarm, rfl⟩ := h
    exact hEntry

/-- What a computation leaves of an entry: it is there at the end, and all the time. -/
theorem Guide.standing_follows {slot : Awaited} {value : Value} {α : Type} {x : Run α}
    {y : Watch → Run α} (h : (Guide.standing slot value).Follows () x y) {s : State}
    (hEntry : s.kept? slot = some value) :
    (x s).2.kept? slot = some value ∧ ∀ alarm, y (.standing alarm slot value) s = x s := by
  obtain ⟨_, _, hEnd, hSame⟩ := h s hEntry
  exact ⟨hEnd, fun alarm => hSame _ ⟨alarm, rfl⟩⟩

/-! ## Calls that find an entry -/

/-- A call of a function that comes to a memoized clause with a key: the arguments are
forced where literals have to be compared with them, the clause is chosen, and the key is
made. -/
structure Caller.Keys (call : Caller) (fuel : Nat) (name : String) (f : Function)
    (arguments : List Value) (s : State) (key : String) (s' : State) : Prop where
  exposes : ∃ exposed s₁ clause s₂,
    exposeWhere call f.litAt 0 arguments s = (.ok exposed, s₁) ∧
      chooseClause name f.clauses exposed s₁ = (.ok clause, s₂) ∧ clause.memoize = true ∧
      callKey call fuel exposed s₂ = (.ok key, s')

/-- **A call that finds its key in the table has its value at once**: what it does is to
force arguments until the key is made. -/
theorem beginCall_of_entry {call : Caller} {fuel : Nat} {f : Function} {arguments : List Value}
    {s s' : State} {slot : Awaited} {value function : Value}
    (hFunction : function.untagged = .func slot.function)
    (hFound : s.program.function? slot.function = some f)
    (hKeys : call.Keys fuel slot.function f arguments s slot.key s')
    (hEntry : s'.kept? slot = some value) :
    beginCall call fuel function arguments s = (.ok (.done value), s') := by
  obtain ⟨exposed, s₁, clause, s₂, hExpose, hChoose, hMemoize, hKey⟩ := hKeys.exposes
  have hKnown : remembered slot.function slot.key s' = (.ok (some value), s') :=
    Prod.ext (congrArg Except.ok hEntry) rfl
  have hBegin : beginFunction call fuel slot.function f.clauses f.litAt arguments s =
      (.ok (.done value), s') := by
    rw [beginFunction, Run.bind_apply_ok hExpose, Run.bind_apply_ok hChoose, if_pos hMemoize,
      Run.bind_apply_ok hKey, Run.bind_apply_ok hKnown]
    rfl
  simp only [beginCall, hFunction, beginByName, Run.get_bind_apply, hFound]
  exact hBegin

/-- The machine makes a key without touching entries that are there. -/
theorem Caller.Keys.kept? {fuel level fuel' : Nat} {name : String} {f : Function}
    {arguments : List Value} {s s' : State} {key : String}
    (h : (Caller.ofMachine fuel level).Keys fuel' name f arguments s key s') {slot : Awaited}
    {value : Value} (hEntry : s.kept? slot = some value) : s'.kept? slot = some value := by
  obtain ⟨exposed, s₁, clause, s₂, hExpose, hChoose, -, hKey⟩ := h.exposes
  have hCall : (Guide.standing slot value).FollowsCall (.ofMachine fuel level)
      fun w f args => w.exec fuel level (.call f args) := fun _ _ _ =>
    Guide.exec_follows fuel level trivial
  have hFirst := (Guide.standing_follows
    (Guide.exposeWhere_follows hCall f.litAt arguments 0) hEntry).1
  rw [hExpose] at hFirst
  have hSecond := (Guide.standing_follows
    (Guide.chooseClause_follows name f.clauses exposed).follows hFirst).1
  rw [hChoose] at hSecond
  have hThird := (Guide.standing_follows (Guide.callKey_follows hCall fuel' exposed) hSecond).1
  rw [hKey] at hThird
  exact hThird

/-! ## Sessions -/

/-- **A load leaves a function as it is, or puts a new one in its place**, which has no
results. -/
theorem Program.function?_absorb {p : Program} {name : String} {f : Function}
    (h : p.function? name = some f) (load : Loader) (fuel : Nat) (source : String) :
    (absorb load fuel source p).2.function? name = some f ∨
      ∃ f', (absorb load fuel source p).2.function? name = some f' ∧
        f'.FromForms (absorb load fuel source p).2.types := by
  have hContains : p.functions.contains name = true := Option.isSome_iff_exists.mpr ⟨f, h⟩
  obtain ⟨f', hAfter⟩ :=
    Option.isSome_iff_exists.mp (absorb_contains load fuel source hContains)
  rcases (absorb_adds load fuel source p).grows.functions name f' hAfter with hBefore | ⟨-, hNew⟩
  · have hSame : f' = f := Option.some.inj (hBefore.symm.trans h)
    exact .inl (hSame ▸ hAfter)
  · exact .inr ⟨f', hAfter, hNew⟩

namespace Session

/-- What a watched session does with it. -/
noncomputable def Given.watched (w : Watch) : Given → Run Value
  | .text load fuel source => w.evalText load fuel source
  | .run fuel => w.run fuel
  | .call fuel function arguments => w.apply fuel function arguments

/-- Whether a text puts something else in the place of a function. -/
def Given.Redefines (name : String) (s : State) : Given → Prop
  | .text load fuel source =>
    (Program.absorb load fuel source s.program).2.function? name ≠ s.program.function? name
  | .run _ => False
  | .call _ _ _ => False

/-- The states that a session comes to if all that it is given is of some kind, whatever the
outcomes are. -/
inductive Serves (Allowed : State → Given → Prop) (s : State) : State → Prop where
  | refl : Serves Allowed s s
  | after {s' : State} (given : Given) :
      Serves Allowed s s' → Allowed s' given → Serves Allowed s (given.perform s').2

/-- **An entry stands** whatever a session is given, and it is there at every step, if the
function is not redefined. -/
theorem entry_stands {s : State} {slot : Awaited} {value : Value}
    (hEntry : s.kept? slot = some value) {given : Given}
    (hKept : ¬ given.Redefines slot.function s) :
    (given.perform s).2.kept? slot = some value ∧
      ∀ alarm, given.watched (.standing alarm slot value) s = given.perform s := by
  cases given with
  | call fuel function arguments =>
      exact Guide.standing_follows (Guide.apply_follows fuel function arguments) hEntry
  | run fuel =>
      exact Guide.standing_follows (Guide.run_follows fuel fun _ _ _ _ => trivial) hEntry
  | text load fuel source =>
      have hLoaded : (Session.load load fuel source s).2.kept? slot = some value := by
        rw [← hEntry]
        exact congrArg (Option.bind · _) (not_not.mp hKept)
      simp only [Given.perform, Given.watched, evalText, Watch.evalText, Run.bind_apply]
      rcases hRun : Session.load load fuel source s with ⟨stop | statements, s'⟩ <;>
        rw [hRun] at hLoaded
      · exact ⟨hLoaded, fun _ => rfl⟩
      · exact Guide.standing_follows
          (Guide.evalStatements_follows fuel fun _ _ => trivial) hLoaded

end Session

end ClauseLisp
