import ClauseLisp.Proofs.Memo.Entries

/-!
# Where the entries of memo tables come from

A loop works on a chain of tasks.  Each task waits with the slots of the memoized calls
that the chain has entered so far, and if the loop has a value in the end, it keeps it in
all of them.  Nothing else writes to a memo table.  So whatever is in one has been put
there by a loop that the run has really come to, in which a call with this key was entered
and which had this value, and a loop that stops leaves only what loops inside it have kept.

`Job.Keeps` is this origin of an entry in the run of a job, and `Memoizes` says of two
states that nothing else has been written between them.  Every move of the machine other
than keeping the value of a loop keeps it, so it holds throughout every run.

## Main results

* `Job.memoizes` — what is written to memo tables in the course of a job.
* `exec_accounts` — what a loop does to memo tables, whether it stops or has a value.
* `Session.memo_entries_permanent` — where entries come from, and that they stand.
-/

namespace ClauseLisp

/-! ## Entering calls -/

/-- What a step goes on with waits with the same slots, unless it enters a call. -/
def Progress.Waits (task : Task) : Progress → Prop
  | .done _ => True
  | .next later => later.pending = task.pending ∨
      (∃ callee args, task.expr = .call callee args) ∧
        ∃ activation, later = task.enter activation

theorem evalBlock_waits {eval : Evaluator} {task : Task} {body : List Expr} {cast : Option Ty} :
    Gives (Progress.Waits task) (evalBlock eval task body cast) := by
  refine .after fun scope => ?_
  cases body.getLast? with
  | none => exact .pure trivial
  | some last =>
      refine .after fun outcome => ?_
      cases outcome with
      | error stop => exact fun s value h => absurd h (leaveScope_error scope stop s value)
      | ok values =>
          refine .after fun s => ?_
          split
          · exact .pure (.inl rfl)
          · exact .after fun outcome => .after fun value => .pure trivial

theorem step_waits {eval : Evaluator} {call : Caller} {fuel : Nat} {task : Task} :
    Gives (Progress.Waits task) (step eval call fuel task) := by
  have hDone : ∀ x : Run Value, Gives (Progress.Waits task) (x >>= fun value => pure (.done value)) :=
    fun x => .after fun value => .pure trivial
  unfold step
  cases hExpr : task.expr with
  | lit value => exact .pure trivial
  | cond test yes no =>
      refine .after fun value => ?_
      cases value.untagged with
      | bool b => exact .pure (.inl rfl)
      | _ => exact .after fun s => .fail _
  | block body cast => exact evalBlock_waits
  | call callee args =>
      refine .after fun function => .after fun arguments => .after fun begun => ?_
      cases begun with
      | done value => exact .pure trivial
      | enter activation => exact .pure (.inr ⟨⟨callee, args, hExpr⟩, activation, rfl⟩)
  | _ => exact hDone _

namespace Job

/-- A loop of a run enters a call that waits with a slot: either the loop is the one for
the body of a call that the run makes, or one of its steps is a call. -/
inductive Enters (j : Job) (fuel level : Nat) : Task → State → Awaited → Prop where
  | called {function : Value} {arguments : List Value} {activation : Activation} {s s' : State}
      {slot : Awaited} :
      j.Performs ⟨fuel + 2, level, .call function arguments, s⟩ →
      beginCall (.ofMachine (fuel + 1) level) (fuel + 1) function arguments s =
        (.ok (.enter activation), s') →
      activation.memo = some slot → Enters j fuel level activation.task s' slot
  | step {task last : Task} {callee : Expr} {args : List Expr} {activation : Activation}
      {s u u' : State} {slot : Awaited} :
      GoesOnTo (stepAt fuel level) task s last u → last.expr = .call callee args →
      stepAt fuel level last u = (.ok (.next (last.enter activation)), u') →
      activation.memo = some slot → Enters j fuel level task s slot

/-- **A run puts a value into a slot**: one of its loops has entered a call that waits with
this slot, has this value, and leaves it there. -/
inductive Keeps (j : Job) (slot : Awaited) (value : Value) : Prop where
  | loop {fuel level : Nat} {task : Task} {s s' : State} :
      j.Performs ⟨fuel + 1, level, .work task, s⟩ → j.Enters fuel level task s slot →
      exec (fuel + 1) level (.work task) s = (.ok value, s') → s'.kept? slot = some value →
      Keeps j slot value

variable {j : Job} {fuel level : Nat}

/-- The slots that a loop waits with from the beginning are those of the call that it has
the body of. -/
theorem enters_pending (h : j.request.pending = []) {task : Task} {s : State}
    (hPerforms : j.Performs ⟨fuel + 1, level, .work task, s⟩) :
    ∀ slot ∈ task.pending, j.Enters fuel level task s slot := by
  intro slot hMem
  rcases hPerforms.cases_tail with hSame | ⟨k, hCall, hAsks⟩
  · subst hSame
    rw [show task.pending = [] from h] at hMem
    cases hMem
  · rcases hAsks.cases with hNone | ⟨fuel', level', function, arguments, t, activation, u, rfl,
      hBegun, hBody⟩
    · rw [show task.pending = [] from hNone] at hMem
      cases hMem
    · cases hBody
      exact .called hCall hBegun (Option.mem_toList.mp hMem)

/-- The slots that a loop waits with are those of the calls that it has entered. -/
theorem enters_of_mem {task last : Task} {s u : State}
    (hPending : ∀ slot ∈ task.pending, j.Enters fuel level task s slot)
    (h : GoesOnTo (stepAt fuel level) task s last u) :
    ∀ slot ∈ last.pending, j.Enters fuel level task s slot := by
  induction h with
  | refl => exact hPending
  | next hChain hStep ih =>
      intro slot hMem
      have hWaits : Progress.Waits _ (.next _) := step_waits _ _ (congrArg Prod.fst hStep)
      rcases hWaits with hSame | ⟨⟨callee, args, hCall⟩, activation, rfl⟩
      · exact ih slot (hSame ▸ hMem)
      · rcases List.mem_append.mp hMem with hNew | hOld
        · exact .step hChain hCall hStep (Option.mem_toList.mp hNew)
        · exact ih slot hOld

end Job

/-! ## What is written to memo tables -/

/-- What is in memo tables has been there before, or has been kept. -/
def Inherits (kept : Awaited → Value → Prop) (s s' : State) : Prop :=
  ∀ slot value, s'.kept? slot = some value → s.kept? slot = some value ∨ kept slot value

/-- Every slot is left as it is, or has got a value that has been kept there. -/
def Memoizes (kept : Awaited → Value → Prop) (s s' : State) : Prop :=
  ∀ slot, s'.kept? slot = s.kept? slot ∨ ∃ value, s'.kept? slot = some value ∧ kept slot value

namespace Memoizes

variable {kept : Awaited → Value → Prop} {s s' s'' : State}

theorem of_program (h : s'.program = s.program) : Memoizes kept s s' := fun slot =>
  .inl (State.kept?_congr h slot)

theorem trans (h : Memoizes kept s s') (h' : Memoizes kept s' s'') : Memoizes kept s s'' := by
  intro slot
  rcases h' slot with hSame | hKept
  · rw [hSame]
    exact h slot
  · exact .inr hKept

theorem settled (s : State) (node : Nat) (iterator : Value) (step : IterStep) :
    Memoizes kept s (s.settled node iterator step) := by
  cases step <;> exact .of_program rfl

theorem inherits (h : Memoizes kept s s') : Inherits kept s s' := by
  intro slot value hEntry
  rcases h slot with hSame | ⟨other, hValue, hKept⟩
  · exact .inl (hSame.symm.trans hEntry)
  · obtain rfl : other = value := Option.some.inj (hValue.symm.trans hEntry)
    exact .inr hKept

end Memoizes

namespace Job

/-- **Nothing but loops that a run comes to writes to memo tables.** -/
theorem tracks_memoizes {j : Job} (h : j.request.pending = []) {kept : Awaited → Value → Prop}
    (hKept : ∀ slot value, j.Keeps slot value → kept slot value) : j.Tracks (Memoizes kept) where
  trans := .trans
  still hStill := .of_program hStill.program
  settled _ _ := .settled _ _ _ _
  kept hPerforms hRun hChain _ slot := by
    rcases State.kept?_keeping with hSame | ⟨hMem, hValue⟩
    · exact .inl hSame
    · have hEnters := enters_of_mem (enters_pending h hPerforms) hChain slot hMem
      exact .inr ⟨_, hValue, hKept slot _ (.loop hPerforms hEnters hRun hValue)⟩

theorem memoizes {j : Job} (h : j.request.pending = []) :
    Throughout (Memoizes j.Keeps) j.Performs j.state j.run.2 :=
  (tracks_memoizes h fun _ _ hKeeps => hKeeps).throughout

/-- What is kept inside a job: by something that it asks for. -/
def KeepsInside (j : Job) (slot : Awaited) (value : Value) : Prop :=
  ∃ k, j.Asks k ∧ k.Keeps slot value

end Job

/-! ## Accounts -/

/-- What a loop does to memo tables: nothing but what is kept inside it, and then, if it
has a value, it keeps it in all slots that wait.  If it stops, it ends as its last step
does, in the state that this step has left. -/
inductive Accounts (fuel level : Nat) (task : Task) (s : State) :
    Except Stop Value × State → Prop where
  | tooDeep : maxLevel ≤ level →
      Accounts fuel level task s (.error (.error (.eval (.depthLimit maxLevel))), s)
  | stopped {stop : Stop} {s' : State} :
      Ends (stepAt fuel level) task s (.error stop, s') →
      Memoizes (Job.KeepsInside ⟨fuel + 1, level, .work task, s⟩) s s' →
      Accounts fuel level task s (.error stop, s')
  | done {value : Value} {slots : List Awaited} {s' : State} :
      Ends (stepAt fuel level) task s (.ok (value, slots), s') →
      Memoizes (Job.KeepsInside ⟨fuel + 1, level, .work task, s⟩) s s' →
      Accounts fuel level task s (.ok value, s'.keeping value slots)

/-- A loop that is within the bound on levels keeps nothing before it has its value. -/
theorem memoizes_loopValue {fuel level : Nat} (hLevel : ¬ level ≥ maxLevel) (task : Task)
    (s : State) :
    Memoizes (Job.KeepsInside ⟨fuel + 1, level, .work task, s⟩) s
      (loopValue (stepAt fuel level) fuel task s).2 := by
  have hAsked : ∀ {k : Job}, Job.Asks ⟨fuel + 1, level, .work task, s⟩ k →
      k.Tracks (Memoizes (Job.KeepsInside ⟨fuel + 1, level, .work task, s⟩)) ∧
        Memoizes (Job.KeepsInside ⟨fuel + 1, level, .work task, s⟩) k.state k.run.2 := by
    intro k hAsks
    have hPending : k.request.pending = [] :=
      hAsks.cases.resolve_right fun ⟨_, _, _, _, _, _, _, hCall, _⟩ => nomatch hCall
    have hTracks : k.Tracks (Memoizes (Job.KeepsInside ⟨fuel + 1, level, .work task, s⟩)) :=
      Job.tracks_memoizes hPending fun slot value hKeeps => ⟨k, hAsks, hKeeps⟩
    exact ⟨hTracks, hTracks.throughout.whole⟩
  have hLoop : (Worker.ofMachine fuel (level + 1)).workOut fuel level (.work task) =
      loopValue (stepAt fuel level) fuel task := if_neg hLevel
  rw [← hLoop]
  exact (Job.Tracks.spans_of_asked (R := Memoizes _) .trans
    (fun hStill => .of_program hStill.program) hAsked).through

/-- **What a loop does to memo tables.** -/
theorem exec_accounts (fuel level : Nat) (task : Task) (s : State) :
    Accounts fuel level task s (exec (fuel + 1) level (.work task) s) := by
  rw [exec_work]
  by_cases hLevel : level ≥ maxLevel
  · rw [if_pos hLevel]
    exact .tooDeep hLevel
  · have hEnds := loopValue_ends (stepAt fuel level) fuel task s
    have hInside := @memoizes_loopValue fuel level hLevel task s
    rw [if_neg hLevel, loop_apply, Run.bind_apply]
    rcases hRun : loopValue (stepAt fuel level) fuel task s with ⟨stop | ⟨value, slots⟩, s'⟩ <;>
      rw [hRun] at hEnds hInside
    · exact .stopped hEnds hInside
    · exact .done hEnds hInside

/-! ## Sessions -/

namespace Session

/-- A load keeps no results. -/
theorem kept?_of_load {load : Loader} {fuel : Nat} {source : String} {s : State} {slot : Awaited}
    {value : Value} (h : (Session.load load fuel source s).2.kept? slot = some value) :
    s.kept? slot = some value := by
  obtain ⟨f, hFound, hValue⟩ := Option.bind_eq_some_iff.mp h
  have hGrows := (Program.absorb_adds load fuel source s.program).grows
  rcases hGrows.functions slot.function f hFound with hBefore | ⟨-, hNew⟩
  · exact Option.bind_eq_some_iff.mpr ⟨f, hBefore, hValue⟩
  · rw [hNew.memo] at hValue
    simp [Memo.get?] at hValue

/-- When a session begins, memo tables are empty. -/
theorem Begins.kept? {s : State} (h : Begins s) (slot : Awaited) : s.kept? slot = none := by
  obtain ⟨files, hosts, hLoaded⟩ := h
  refine Option.eq_none_iff_forall_ne_some.mpr fun value => ?_
  induction hLoaded with
  | empty => exact nofun
  | more load fuel source _ ih =>
      intro hEntry
      exact ih (@kept?_of_load load fuel source _ slot value hEntry)

/-- Loads put no results into memo tables, so jobs have, if there are any. -/
theorem inherits (s : State) (given : List Given) :
    Job.Throughout (Inherits fun slot value => ∃ j, Starts s given j ∧ j.Keeps slot value)
      (Performs s given) s (after s given) := by
  have hCarries : Carries (Inherits fun slot value => ∃ j, Starts s given j ∧ j.Keeps slot value) :=
    { trans := fun h h' slot value hEntry => (h' slot value hEntry).elim (h slot value) .inr
      still := fun hStill => (Memoizes.of_program hStill.program).inherits
      load := fun _ _ _ _ _ _ hEntry => .inl (kept?_of_load hEntry) }
  refine hCarries.throughout fun {j} hStarts => ?_
  have hTracks := Job.tracks_memoizes hStarts.pending fun slot value hKeeps =>
    (⟨j, hStarts, hKeeps⟩ : ∃ j, Starts s given j ∧ j.Keeps slot value)
  exact hTracks.throughout.mono Memoizes.inherits

/-- **Entries of memo tables stand**, and are values of loops.

A result that is kept in a slot, in whatever state a session is given something next, is
kept there as long as the function is not redefined, however evaluations end.  At every
step on the way it is there, and nobody waits to replace it; so a call that comes to this
key has its value at once, in the state in which the key has been made, where the entry
is still there.  A load that does not leave a function as it is puts one without results
in its place.

When a session begins, memo tables are empty.  Whatever is in one later, at the end of a
session or wherever something is done in the course of it, has been put there by one of
the loops that have really been worked on: it had entered a call with this key, had this
value, and left it there.  In the course of a job every other slot stays as it is.  And of
what happens in a loop, on whatever level and in whatever state, only two things write to
memo tables: loops that are worked on inside it, and keeping its own value in the end, if
it has one.  A loop that stops has written nothing itself. -/
theorem memo_entries_permanent :
    (∀ (s s' : State) (slot : Awaited) (value : Value), s.kept? slot = some value →
      Serves (fun t given => ¬ given.Redefines slot.function t) s s' →
        s'.kept? slot = some value ∧
        ∀ given : Given, ¬ given.Redefines slot.function s' → ∀ alarm,
          given.watched (.standing alarm slot value) s' = given.perform s') ∧
    (∀ (p : Program) (name : String) (f : Function), p.function? name = some f →
      ∀ load fuel source, (Program.absorb load fuel source p).2.function? name = some f ∨
        ∃ f', (Program.absorb load fuel source p).2.function? name = some f' ∧
          f'.FromForms (Program.absorb load fuel source p).2.types) ∧
    (∀ (fuel level : Nat) (s s' : State) (slot : Awaited) (f : Function) (arguments : List Value)
      (value function : Value), s.kept? slot = some value →
        function.untagged = .func slot.function → s.program.function? slot.function = some f →
        (Caller.ofMachine fuel level).Keys fuel slot.function f arguments s slot.key s' →
          s'.kept? slot = some value ∧
          beginCall (.ofMachine fuel level) fuel function arguments s = (.ok (.done value), s') ∧
          exec (fuel + 1) level (.call function arguments) s = (.ok value, s')) ∧
    (∀ s : State, Begins s → ∀ slot, s.kept? slot = none) ∧
    (∀ (s : State) (given : List Given),
      Job.Throughout (Inherits fun slot value => ∃ j, Starts s given j ∧ j.Keeps slot value)
        (Performs s given) s (after s given)) ∧
    (∀ j : Job, j.request.pending = [] →
      Job.Throughout (Memoizes j.Keeps) j.Performs j.state j.run.2) ∧
    ∀ (fuel level : Nat) (task : Task) (s : State),
      Accounts fuel level task s (exec (fuel + 1) level (.work task) s) := by
  refine ⟨fun s s' slot value hEntry hServes => ?_,
    fun p name f hFound load fuel source => p.function?_absorb hFound load fuel source,
    fun fuel level s s' slot f arguments value function hEntry hFunction hFound hKeys => ?_,
    fun s hBegins => hBegins.kept?, inherits, fun j => Job.memoizes, exec_accounts⟩
  · have hStands : s'.kept? slot = some value := by
      induction hServes with
      | refl => exact hEntry
      | after given _ hKept ih => exact (entry_stands ih hKept).1
    exact ⟨hStands, fun given hKept => (entry_stands hStands hKept).2⟩
  · have hStands := hKeys.kept? hEntry
    have hBegin := beginCall_of_entry hFunction hFound hKeys hStands
    refine ⟨hStands, hBegin, ?_⟩
    show (beginCall (.ofMachine fuel level) fuel function arguments >>= _) s = _
    rw [Run.bind_apply_ok hBegin]
    rfl

/-- A text with a memoized function. -/
def squares : Given :=
  .text (fun path => .error (.unread path)) 40 "(def' f (n) (* n n))"

/-- A call of the function. -/
def squareThree : Given := .call 40 (.func "f") [.int 3]

/-- The same call as an expression. -/
def squareThreeTask : Task := { expr := .call (.var "f") [.lit (.int 3)], scope := Scopes.globals }

/-- After the call, its slot holds 9, which a loop of the session has kept there, and another
call gives 9 and does nothing else. -/
theorem memo_entries_permanent_of_squaring :
    Begins blank ∧ (after blank [squares, squareThree]).kept? ⟨"f", "3 "⟩ = some (.int 9) ∧
      (∃ j, Starts blank [squares, squareThree] j ∧ j.Keeps ⟨"f", "3 "⟩ (.int 9)) ∧
      squareThree.perform (after blank [squares, squareThree]) =
        (.ok (.int 9), after blank [squares, squareThree]) ∧
      ((Given.run 40).perform (after blank [squares, squareThree])).2.kept? ⟨"f", "3 "⟩ =
        some (.int 9) ∧
      Job.Throughout
        (Memoizes (Job.Keeps ⟨40, 0, .work squareThreeTask, after blank [squares, squareThree]⟩))
        (Job.Performs ⟨40, 0, .work squareThreeTask, after blank [squares, squareThree]⟩)
        (after blank [squares, squareThree])
        (exec 40 0 (.work squareThreeTask) (after blank [squares, squareThree])).2 ∧
      Accounts 39 0 squareThreeTask (after blank [squares, squareThree])
        (exec 40 0 (.work squareThreeTask) (after blank [squares, squareThree])) := by
  obtain ⟨hStands, -, hCalls, hEmpty, hOrigin, hJobs, hAccounts⟩ := memo_entries_permanent
  have hBegins : Begins blank := .start _ _ .empty
  have hEntry : (after blank [squares, squareThree]).kept? ⟨"f", "3 "⟩ = some (.int 9) := by cbv
  have hClauses : ((after blank [squares, squareThree]).program.function? "f").map
      (fun f => f.clauses.map fun c => (c.params, c.memoize)) = some [([.bind "n"], true)] := by cbv
  have hKept : ∃ j, Starts blank [squares, squareThree] j ∧ j.Keeps ⟨"f", "3 "⟩ (.int 9) := by
    refine ((hOrigin blank [squares, squareThree]).whole _ _ hEntry).resolve_left fun hBefore => ?_
    cases (hEmpty blank hBegins ⟨"f", "3 "⟩).symm.trans hBefore
  generalize after blank [squares, squareThree] = s at hEntry hClauses ⊢
  refine ⟨hBegins, hEntry, hKept, ?_, ?_, hJobs ⟨40, 0, .work squareThreeTask, s⟩ rfl,
    hAccounts 39 0 squareThreeTask s⟩
  · obtain ⟨f, hFound, hClauses⟩ := Option.map_eq_some_iff.mp hClauses
    obtain ⟨c, hClause, hc⟩ := List.map_eq_singleton_iff.mp hClauses
    obtain ⟨hParams, hMemoize⟩ := Prod.mk.inj hc
    have hKeys : (Caller.ofMachine 39 0).Keys 39 "f" f [.int 3] s "3 " s := by
      have hLit : f.litAt 0 = false := by
        simp [Function.litAt, hClause, Clause.litAt, hParams, Pattern.isLit]
      refine ⟨[.int 3], s, c, s, ?_, ?_, hMemoize, rfl⟩
      · simp only [exposeWhere, hLit]
        rfl
      · obtain ⟨params, ret, body, memoize, pure⟩ := c
        cases hParams
        rw [hClause]
        rfl
    exact (hCalls 39 0 s s ⟨"f", "3 "⟩ f [.int 3] (.int 9) (.func "f") hEntry rfl hFound hKeys).2.2
  · have hSame : ¬ (Given.run 40).Redefines "f" s := fun h => h
    exact (hStands s _ ⟨"f", "3 "⟩ (.int 9) hEntry (.after (.run 40) .refl hSame)).1

end Session

end ClauseLisp
