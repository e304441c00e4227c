import Mathlib
import ClauseLisp.Machine.Session
import ClauseLisp.Proofs.Resources.Ownership

/-!
# Files over a session

A session is given texts and whole runs, one after the other, and each of them may
fail in many ways: the text does not load, a cast fails, no clause matches, evaluation
nests too deeply.  Whatever comes of it, afterwards every open file is held by the
outermost scope, and after a run no file is open at all.

The invariant is that a session is `Ready`.  Evaluating expressions at top level writes
to the outermost scope only (`evalInOrder_keeps`), so what is left over is unclaimed
files, and these are closed at the end.

## Main results

* `Session.Reached.ready` — a session is ready for whatever it is given next.
* `Session.exec_tower` — how deeply evaluation may nest, from a given level.
* `Session.no_file_leaks` — who holds files after a text or a run.
-/

namespace ClauseLisp

/-! ## Sessions -/

/-- The programs that come about by loading texts, also by loads that fail midway. -/
inductive Program.Loaded : Program → Prop where
  | empty : Loaded {}
  | more {p : Program} (load : Loader) (fuel : Nat) (source : String) :
      Loaded p → Loaded (absorb load fuel source p).2

theorem Program.Loaded.placed {p : Program} (h : p.Loaded) : p.Placed := by
  induction h with
  | empty => exact ⟨nofun, nofun⟩
  | more load fuel source _ ih => exact (placed_absorb ih).program

/-- A state in which the unclaimed files have been closed. -/
def State.tidied (s : State) : State :=
  { s with streams := (releaseAll State.closeStream s.unclaimed s.streams).2, unclaimed := [] }

namespace Session

/-- What a session is given. -/
inductive Use where
  /-- A source text. -/
  | text (load : Loader) (fuel : Nat) (source : String)
  /-- A run of the whole program. -/
  | run (fuel : Nat)

/-- What a session does with it. -/
def Use.perform : Use → Run Value
  | .text load fuel source => evalText load fuel source
  | .run fuel => Session.run fuel

/-- The states that a session comes to, for whatever program, files and operations of
the host, and whatever the outcomes are. -/
inductive Reached : State → Prop where
  | start {program : Program} (files : Files) (hosts : Dict HostOperation) :
      program.Loaded → Reached { Session.start program with files, hosts }
  | after {s : State} (use : Use) : Reached s → Reached (use.perform s).2

/-- A session in which nothing has been defined. -/
def blank : State := { Session.start {} with files := default, hosts := {} }

/-- No file is open that only the machine could close: none is unclaimed, scopes inside
hold nothing, and what is open is held by the outermost scope. -/
structure Settled (s : State) : Prop where
  unclaimed : s.unclaimed = []
  inner : ∀ scope, scope ≠ Scopes.globals → s.scopes.resources scope = []
  outermost : ∀ (handle : Nat) (stream : Stream), s.streams[handle]? = some stream →
    stream.isOpen = true → handle ∈ s.scopes.resources Scopes.globals

theorem Settled.owned {s : State} (h : Settled s) : s.Owned := fun handle stream hStream hOpen =>
  .inr ⟨Scopes.globals, h.outermost handle stream hStream hOpen⟩

/-- A session that can go on. -/
structure Ready (s : State) : Prop where
  placed : s.Placed
  globals : Scopes.globals < s.scopes.table.size
  settled : Settled s

theorem Ready.fits {s : State} (h : Ready s) : (Access.all Scopes.globals).FitsIn s := by
  intro scope hScope
  cases hScope
  exact h.globals

/-! ## Evaluating at top level -/

/-- Expressions at top level write to the outermost scope at most. -/
theorem evalInOrder_keeps {R : Access → State → State → Prop} (hR : Frame R) (fuel : Nat) :
    ∀ {es : List Expr} (last : Value), (∀ e ∈ es, e.isPlaced true = true) →
      Keeps R (.all Scopes.globals) (evalInOrder fuel last es) := by
  intro es
  induction es with
  | nil => exact fun last _ => .pure hR last
  | cons e es ih =>
      intro last hPlaced
      obtain ⟨hFirst, hRest⟩ := List.forall_mem_cons.mp hPlaced
      have hEval : Keeps R (e.access Scopes.globals) (evalGlobal fuel e) :=
        exec_keeps hR fuel 0 (.work { expr := e, scope := Scopes.globals }) hFirst
      exact .bind hR (hEval.weaken hR (e.access_within _)) fun value => ih value hRest

/-- A session that goes on from one state with another: it is ready again, and has not
forgotten a file. -/
structure GoesOn (s s' : State) : Prop where
  ready : Ready s'
  files : FilesKept s.streams s'.streams

/-- A load changes the program only, which stays placed. -/
theorem Ready.load {s : State} (h : Ready s) (load : Loader) (fuel : Nat) (source : String) :
    GoesOn s (Session.load load fuel source s).2 where
  ready :=
    { placed := ⟨(Program.placed_absorb h.placed.program).program, h.placed.closures⟩
      globals := h.globals
      settled := ⟨h.settled.unclaimed, h.settled.inner, h.settled.outermost⟩ }
  files := .refl _

/-- After an evaluation at top level the open files are unclaimed or in the outermost
scope, so that it is enough to close the unclaimed ones. -/
theorem Ready.tidied {s s' : State} (h : Ready s)
    (hKept : Kept Undisturbed (.all Scopes.globals) s s') : Ready s'.tidied where
  placed := ⟨hKept.placed.program, hKept.placed.closures⟩
  globals := Nat.lt_of_lt_of_le h.globals hKept.scopes
  settled := by
    have hInner : ∀ scope, scope ≠ Scopes.globals → s'.scopes.resources scope = [] :=
      fun scope hScope =>
        (hKept.related.resources scope (Ne.symm hScope)).trans (h.settled.inner scope hScope)
    refine ⟨rfl, hInner, fun handle stream hStream hOpen => ?_⟩
    obtain ⟨hReleased, hBefore⟩ := open_of_releaseAll hStream hOpen
    rcases hKept.related.owned h.settled.owned handle stream hBefore hOpen with
      hUnclaimed | ⟨scope, hMem⟩
    · exact absurd hUnclaimed hReleased
    · by_cases hScope : scope = Scopes.globals
      · exact hScope ▸ hMem
      · rw [hInner scope hScope] at hMem
        cases hMem

/-- Evaluating expressions at top level and closing what is unclaimed. -/
theorem Ready.evalInOrder {s : State} (h : Ready s) (fuel : Nat) {es : List Expr}
    (hPlaced : ∀ e ∈ es, e.isPlaced true = true) :
    GoesOn s (Session.evalInOrder fuel .nil es s).2.tidied := by
  have hKept : Kept Undisturbed (.all Scopes.globals) s (Session.evalInOrder fuel .nil es s).2 :=
    evalInOrder_keeps undisturbed_frame fuel .nil hPlaced s h.placed h.fits
  exact ⟨h.tidied hKept, hKept.related.files.trans (.releaseAll _ _)⟩

theorem Ready.evalText {s : State} (h : Ready s) (load : Loader) (fuel : Nat) (source : String) :
    GoesOn s (Session.evalText load fuel source s).2 := by
  have hLoad : GoesOn s (Session.load load fuel source s).2 := h.load load fuel source
  rw [Session.evalText, Run.bind_apply]
  rcases hRun : Session.load load fuel source s with ⟨stop | statements, s'⟩ <;> rw [hRun] at hLoad
  · exact hLoad
  · have hPlaced : ∀ e ∈ statements, e.isPlaced true = true :=
      (Program.placed_absorb h.placed.program).added statements (congrArg Prod.fst hRun)
    obtain ⟨hReady, hFiles⟩ := hLoad.ready.evalInOrder fuel hPlaced
    exact ⟨hReady, hLoad.files.trans hFiles⟩

/-- Leaving the outermost scope closes everything that is still open. -/
theorem Settled.closed {s : State} (h : Settled s) {handle : Nat} {stream : Stream}
    (hStream : (s.left Scopes.globals).streams[handle]? = some stream) :
    stream.isOpen = false := by
  cases hOpen : stream.isOpen with
  | false => rfl
  | true =>
      obtain ⟨hReleased, hBefore⟩ := open_of_releaseAll hStream hOpen
      exact absurd (h.outermost handle stream hBefore hOpen) hReleased

theorem Ready.left {s : State} (h : Ready s) : Ready (s.left Scopes.globals) where
  placed := ⟨h.placed.program, h.placed.closures⟩
  globals := by
    show Scopes.globals < (s.scopes.freeze Scopes.globals).table.size
    rw [Scopes.freeze, Array.size_modify]
    exact h.globals
  settled := by
    refine ⟨h.settled.unclaimed, fun scope hScope => ?_, fun handle stream hStream hOpen => ?_⟩
    · rw [State.left, Scopes.resources_freeze, if_neg (Ne.symm hScope)]
      exact h.settled.inner scope hScope
    · rw [h.settled.closed hStream] at hOpen
      cases hOpen

/-- A run closes what is unclaimed, and leaves the outermost scope after it. -/
theorem run_state (fuel : Nat) (s : State) :
    (Session.run fuel s).2 =
      ((Session.evalInOrder fuel .nil s.program.statements s).2.tidied).left Scopes.globals := rfl

theorem Ready.run {s : State} (h : Ready s) (fuel : Nat) : GoesOn s (Session.run fuel s).2 := by
  obtain ⟨hReady, hFiles⟩ := h.evalInOrder fuel h.placed.program.statements
  rw [run_state]
  exact ⟨hReady.left, hFiles.trans (.releaseAll _ _)⟩

/-- **A session goes on, whatever it is given** and whatever comes of it. -/
theorem Ready.perform {s : State} (h : Ready s) (use : Use) : GoesOn s (use.perform s).2 := by
  cases use with
  | text load fuel source => exact h.evalText load fuel source
  | run fuel => exact h.run fuel

/-- **A session is ready for whatever it is given next.** -/
theorem Reached.ready {s : State} (h : Reached s) : Ready s := by
  induction h with
  | start files hosts hLoaded =>
      refine ⟨⟨hLoaded.placed, nofun⟩, Nat.zero_lt_one, rfl, fun scope hScope => ?_, nofun⟩
      exact Scopes.resources_of_size_le _ (Nat.pos_of_ne_zero hScope)
  | after use _ ih => exact (ih.perform use).ready

/-- After a run no file is open. -/
theorem closed_of_run {s : State} (h : Ready s) (fuel : Nat) {handle : Nat} {stream : Stream}
    (hStream : (Session.run fuel s).2.streams[handle]? = some stream) : stream.isOpen = false := by
  rw [run_state] at hStream
  exact (h.evalInOrder fuel h.placed.program.statements).ready.settled.closed hStream

/-! ## Levels -/

/-- An expression that needs so many levels inside the one that it is evaluated on. -/
def tower : Nat → Expr
  | 0 => .lit (.bool true)
  | n + 1 => .conj [tower n]

/-- **A tower shows how many levels are left.** -/
theorem exec_tower (scope : Nat) (s : State) :
    ∀ (n fuel level : Nat), n + 1 < fuel →
      exec fuel level (.work { expr := tower n, scope }) s =
        (if level + n < maxLevel then .ok (.bool true)
          else .error (.error (.eval (.depthLimit maxLevel))), s) := by
  intro n
  induction n with
  | zero =>
      intro fuel level hFuel
      obtain ⟨fuel, rfl⟩ : ∃ k, fuel = k + 2 := ⟨fuel - 2, by omega⟩
      by_cases hLevel : level < maxLevel
      · rw [exec, if_neg (Nat.not_le.mpr hLevel), Nat.add_zero level, if_pos hLevel]
        rfl
      · rw [exec, if_pos (Nat.not_lt.mp hLevel), Nat.add_zero level, if_neg hLevel]
        rfl
  | succ n ih =>
      intro fuel level hFuel
      obtain ⟨fuel, rfl⟩ : ∃ k, fuel = k + 2 := ⟨fuel - 2, by omega⟩
      have hInner := ih (fuel + 1) (level + 1) (by omega)
      rw [Nat.add_right_comm, Nat.add_assoc] at hInner
      by_cases hLevel : level < maxLevel
      · rw [exec, if_neg (Nat.not_le.mpr hLevel), loop, Run.outcome_bind_apply]
        have hStep : ∀ call, step (fun e scope => exec (fuel + 1) (level + 1) (.work { expr := e, scope }))
            call (fuel + 1) { expr := tower (n + 1), scope } s =
              (if level + (n + 1) < maxLevel then .ok (.done (.bool true))
                else .error (.error (.eval (.depthLimit maxLevel))), s) := by
          intro call
          simp only [step, tower, evalLogical, Run.bind_apply, hInner]
          by_cases hLevels : level + (n + 1) < maxLevel
          · simp only [if_pos hLevels]
            rfl
          · simp only [if_neg hLevels]
        rw [hStep]
        by_cases hLevels : level + (n + 1) < maxLevel
        · simp only [if_pos hLevels]
          rfl
        · simp only [if_neg hLevels]
          rfl
      · have hDeeper : ¬level + (n + 1) < maxLevel := by omega
        rw [exec, if_pos (Nat.not_lt.mp hLevel), if_neg hDeeper]
        rfl

/-! ## No leaks -/

/-- **No file leaks**, whatever a session is given and whatever comes of it.  Files stay
known by their handles; none is unclaimed, no scope but the outermost one holds any,
and all others are closed; after a run, all files are.  And no level is lost: the next
evaluation may nest as deeply as the first one. -/
theorem no_file_leaks {s : State} (h : Reached s) (use : Use) :
    FilesKept s.streams (use.perform s).2.streams ∧ Settled (use.perform s).2 ∧
      (∀ fuel, use = .run fuel → ∀ (handle : Nat) (stream : Stream),
        (use.perform s).2.streams[handle]? = some stream → stream.isOpen = false) ∧
      ∀ n fuel, n + 1 < fuel → (evalGlobal fuel (tower n) (use.perform s).2).1 =
        if n < maxLevel then .ok (.bool true)
        else .error (.error (.eval (.depthLimit maxLevel))) := by
  obtain ⟨hReady, hFiles⟩ := h.ready.perform use
  refine ⟨hFiles, hReady.settled, ?_, fun n fuel hFuel => ?_⟩
  · rintro fuel rfl handle stream hStream
    exact closed_of_run h.ready fuel hStream
  · rw [evalGlobal, exec_tower _ _ n fuel 0 hFuel, Nat.zero_add]

/-- A session with one file, to which nothing has been given. -/
def withFile : State :=
  { Session.start {} with
    files := ⟨fun path => some (if path = "a" then .file [104] else .fault Files.noEntry)⟩
    hosts := {} }

/-- A text that opens the file and keeps it. -/
def opening : Use := .text (fun path => .error (.unread path)) 9 "(set' f (open \"a\"))"

/-- The file is open after the text, and the run after it closes it. -/
theorem no_file_leaks_of_opening :
    Reached (opening.perform withFile).2 ∧
      (opening.perform withFile).2.streams[0]?.map Stream.isOpen = some true ∧
      ((Use.run 9).perform (opening.perform withFile).2).2.streams[0]?.map Stream.isOpen =
        some false := by
  have hReached : Reached (opening.perform withFile).2 := .after opening (.start _ _ .empty)
  have hOpen : (opening.perform withFile).2.streams[0]?.map Stream.isOpen = some true := by cbv
  obtain ⟨stream, hStream, -⟩ := Option.map_eq_some_iff.mp hOpen
  obtain ⟨hFiles, -, hClosed, -⟩ := no_file_leaks hReached (.run 9)
  obtain ⟨later, hLater, -⟩ := hFiles 0 stream hStream
  refine ⟨hReached, hOpen, ?_⟩
  rw [hLater, Option.map_some, hClosed 9 rfl 0 later hLater]

end Session

end ClauseLisp
