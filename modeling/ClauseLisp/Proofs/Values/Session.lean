import ClauseLisp.Proofs.Resources.Session
import ClauseLisp.Proofs.Values.Evaluation

/-!
# Values of a session

A session loads code, and evaluates it.  The values that are written in code are quoted
forms, so they have every hereditary property; evaluation hands it on; and where the
property depends on the declared types, it has to outlast declarations.

A session is `Plain` if its host adds no operations and hands no values in.  It may be
stopped anywhere: the states that an evaluation reaches when it runs out of fuel are
states of the session as well, so nothing that happens on the way is left out.

## Main results

* `Form.Lowered.carries` — the values that are written in code.
* `Session.Plain.carries` — the values that a session keeps.
-/

namespace ClauseLisp

open Ty (Registry)
open Run (Yields Preserves)

/-! ## Code -/

namespace Form

variable {r : Registry} {P : Value → Prop} (h : Value.Hereditary r P)

include h

theorem pattern_literals {keyword : String} {form param : Form} {p : Pattern}
    (hPattern : pattern r keyword form param = .ok p) : AllHave P p.literals := by
  have hSimple : p.isSimple = true := isSimple_of_pattern hPattern
  cases p with
  | lit v =>
      refine List.forall_mem_singleton.mpr ?_
      cases v with
      | int n => exact h.int n
      | bool b => exact h.bool b
      | str s => exact h.str s
      | nil => exact h.nil
      | _ => cases hSimple
  | bind name => exact List.forall_mem_nil P
  | typed name ty => exact List.forall_mem_nil P

theorem patternsAfter_literals {keyword : String} {form : Form} {patterns : List Pattern} :
    ∀ {params : List Form} {done : List Pattern}, AllHave P (done.flatMap Pattern.literals) →
      patternsAfter r keyword form done params = .ok patterns →
      AllHave P (patterns.flatMap Pattern.literals) := by
  intro params
  induction params with
  | nil =>
      intro done hDone hPatterns
      cases hPatterns
      exact hDone
  | cons param params ih =>
      intro done hDone hPatterns
      rw [patternsAfter] at hPatterns
      split at hPatterns
      · cases hPatterns
      · rename_i p hFirst
        have hNow : AllHave P ((done ++ [p]).flatMap Pattern.literals) := by
          rw [List.flatMap_append, List.flatMap_singleton]
          exact List.forall_mem_append.mpr ⟨hDone, pattern_literals h hFirst⟩
        split at hPatterns
        · exact ih hNow hPatterns
        · split at hPatterns
          · cases hPatterns
          · exact ih hNow hPatterns

theorem clauseHead_literals {keyword : String} {form params : Form} {rest : List Form}
    {patterns : List Pattern} {ret : Option Ty}
    (hHead : clauseHead r keyword form params rest = .ok (patterns, ret)) :
    AllHave P (patterns.flatMap Pattern.literals) := by
  unfold clauseHead at hHead
  split at hHead
  · split at hHead
    · cases hHead
    · rename_i hPatterns
      have hNone : AllHave P (List.flatMap Pattern.literals []) := List.forall_mem_nil P
      have hAll := patternsAfter_literals h hNone hPatterns
      split at hHead
      · cases hHead
      · split at hHead
        · cases hHead
        · split at hHead
          · cases hHead
          · cases hHead
            exact hAll
      · cases hHead
        exact hAll
  · cases hHead

/-- **The values that are written in code are quoted forms.** -/
theorem Lowered.carries {allowSet : Bool} {e : Expr} (he : Lowered r allowSet e) : e.Carries P := by
  induction he with
  | lit form => exact List.forall_mem_singleton.mpr (datum_hereditary h form)
  | var name => exact List.forall_mem_nil P
  | cond _ _ _ hTest hYes hNo =>
      exact List.forall_mem_append.mpr ⟨List.forall_mem_append.mpr ⟨hTest, hYes⟩, hNo⟩
  | block _ _ _ ih => exact Expr.allHave_literalsOf.mpr ih
  | set name claims _ _ ih => exact ih
  | lambda hHead _ ih => exact List.forall_mem_append.mpr ⟨clauseHead_literals h hHead, ih⟩
  | call _ _ hCallee hArgs =>
      exact List.forall_mem_append.mpr ⟨hCallee, Expr.allHave_literalsOf.mpr hArgs⟩
  | conj _ _ ih => exact Expr.allHave_literalsOf.mpr ih
  | disj _ _ ih => exact Expr.allHave_literalsOf.mpr ih

end Form

theorem Function.FromForms.carries {r : Registry} {P : Value → Prop} (h : Value.Hereditary r P)
    {f : Function} (hf : f.FromForms r) : f.Carries P := by
  refine ⟨fun c hc => ?_, fun key v hMemo => ?_⟩
  · obtain ⟨⟨keyword, form, params, rest, hHead⟩, hBody, -⟩ := hf.clauses c hc
    exact List.forall_mem_append.mpr ⟨Form.clauseHead_literals h hHead, hBody.carries h⟩
  · rw [hf.memo] at hMemo
    simp [Memo.get?] at hMemo

/-! ## Growing programs -/

/-- A property of values, for each way that types are declared, that is hereditary and
outlasts declarations. -/
structure Value.Lasting (P : Registry → Value → Prop) : Prop where
  hereditary : ∀ {r : Registry}, r.Reached → Value.Hereditary r (P r)
  declares : ∀ {r r' : Registry} {v : Value}, P r v → r.Declares r' → P r' v

/-- Programs with declared types all values in which have a property. -/
structure Program.Sound (P : Registry → Value → Prop) (p : Program) : Prop where
  reached : p.types.Reached
  carries : p.Carries p.types (P p.types)

/-- Machines with declared types all values in which have a property. -/
structure State.Sound (P : Registry → Value → Prop) (s : State) : Prop where
  reached : s.program.types.Reached
  carries : s.Carries s.program.types (P s.program.types)

section

variable {P P' : Value → Prop} (hMore : ∀ v, P v → P' v)

include hMore

theorem AllHave.mono {values : List Value} (h : AllHave P values) : AllHave P' values :=
  fun v hMem => hMore v (h v hMem)

theorem Function.Carries.mono {f : Function} (h : f.Carries P) : f.Carries P' :=
  ⟨fun c hc => (h.clauses c hc).mono hMore, fun key v hMemo => hMore v (h.memo key v hMemo)⟩

theorem LazyNode.Carries.mono {n : LazyNode} (h : n.Carries P) : n.Carries P' := by
  refine ⟨hMore _ h.iterator, hMore _ h.state, fun forced hForced => ?_⟩
  have hOutcome := h.outcome forced hForced
  cases forced with
  | ended => trivial
  | item head next => exact ⟨hMore _ hOutcome.1, hMore _ hOutcome.2⟩

end

/-- Values keep the property when a program grows, and what is new has it. -/
theorem Program.Carries.grows {r : Registry} {P P' : Value → Prop} {p p' : Program}
    (hp : p.Carries r P) (hGrows : p.GrowsTo p') (hMore : ∀ v, P v → P' v)
    (h : Value.Hereditary p'.types P') : p'.Carries p'.types P' := by
  refine ⟨rfl, fun name f hGet => ?_, fun e he => ?_⟩
  · rcases hGrows.functions name f hGet with hBefore | hNew
    · exact (hp.functions name f hBefore).mono hMore
    · exact hNew.2.carries h
  · rcases hGrows.statements e he with hBefore | hNew
    · exact (hp.statements e hBefore).mono hMore
    · exact hNew.carries h

section

variable {P : Registry → Value → Prop} (hP : Value.Lasting P)

include hP

theorem Program.Sound.grows {p p' : Program} (hp : p.Sound P) (hGrows : p.GrowsTo p') :
    p'.Sound P := by
  have hReached : p'.types.Reached := hGrows.types.reached hp.reached
  refine ⟨hReached, hp.carries.grows hGrows (fun v hv => ?_) (hP.hereditary hReached)⟩
  exact hP.declares hv hGrows.types

theorem Program.Loaded.sound {p : Program} (hp : p.Loaded) : p.Sound P := by
  induction hp with
  | empty => exact ⟨.empty, rfl, nofun, nofun⟩
  | more load fuel source _ ih => exact ih.grows hP (absorb_adds load fuel source _).grows

/-- A machine keeps the property when its program grows. -/
theorem State.Sound.grows {s : State} {p : Program} (hs : s.Sound P)
    (hGrows : s.program.GrowsTo p) : State.Sound P { s with program := p } := by
  have hProgram : p.Sound P := Program.Sound.grows hP ⟨hs.reached, hs.carries.program⟩ hGrows
  have hMore : ∀ v, P s.program.types v → P p.types v := fun v hv => hP.declares hv hGrows.types
  refine ⟨hProgram.reached, hProgram.carries, ?_, ?_, ?_, hs.carries.hosts⟩
  · exact fun i scope hScope name v hGet => hMore v (hs.carries.scopes i scope hScope name v hGet)
  · exact fun node n hNode => (hs.carries.nodes node n hNode).mono hMore
  · exact fun id closure hClosure => (hs.carries.closures id closure hClosure).mono hMore

omit hP in
/-- What a computation does to a machine with sound values. -/
theorem State.Sound.yields {α : Type} {Q : α → Prop} {s : State} {x : Run α} (hs : s.Sound P)
    (hx : Yields s.program.types (P s.program.types) Q x) :
    State.Sound P (x s).2 ∧ (x s).2.program.types = s.program.types ∧
      ∀ a, (x s).1 = .ok a → Q a := by
  obtain ⟨hCarries, hResult⟩ := hx s hs.carries
  have hTypes : (x s).2.program.types = s.program.types := hCarries.program.types
  refine ⟨⟨?_, ?_⟩, hTypes, hResult⟩
  · rw [hTypes]
    exact hs.reached
  · rw [hTypes]
    exact hCarries

end

/-! ## Sessions -/

namespace Session

section

variable {r : Registry} {P : Value → Prop} (h : Value.Hereditary r P)

include h

theorem evalInOrder_yields (fuel : Nat) :
    ∀ {es : List Expr} {last : Value}, (∀ e ∈ es, e.Carries P) → P last →
      Yields r P P (evalInOrder fuel last es) := by
  intro es
  induction es with
  | nil => exact fun _ hLast => .pure hLast
  | cons e es ih =>
      intro last hItems _
      obtain ⟨hFirst, hRest⟩ := List.forall_mem_cons.mp hItems
      have hEval : Yields r P P (evalGlobal fuel e) :=
        exec_yields h fuel 0 (.work { expr := e, scope := Scopes.globals }) hFirst
      exact .bind hEval fun value hValue => ih hRest hValue

omit h in
theorem closeUnclaimed_yields {α : Type} {Q : α → Prop} {outcome : Except Stop α}
    (hOutcome : ∀ a, outcome = .ok a → Q a) : Yields r P Q (closeUnclaimed outcome) := by
  intro s hs
  refine ⟨⟨hs.program, hs.scopes, hs.nodes, hs.closures, hs.hosts⟩, fun a hSame => ?_⟩
  exact hOutcome a (eq_ok_of_outcomeAfter hSame)

/-- The rest of a text, once it is loaded. -/
theorem evalStatements_yields (fuel : Nat) {es : List Expr} (hItems : ∀ e ∈ es, e.Carries P) :
    Yields r P P ((evalInOrder fuel .nil es).outcome >>= closeUnclaimed) :=
  .bind (.outcome (evalInOrder_yields h fuel hItems h.nil)) fun _ hOutcome =>
    closeUnclaimed_yields hOutcome

theorem run_yields (fuel : Nat) : Yields r P P (Session.run fuel) := by
  refine .bind .get fun s hs => ?_
  refine .bind (.outcome (evalInOrder_yields h fuel hs.program.statements h.nil)) fun _ hOutcome => ?_
  refine .bind (.outcome (closeUnclaimed_yields hOutcome)) fun _ hOutcome => ?_
  exact leaveScope_yields Scopes.globals hOutcome

end

/-- The states of a session without operations of a host, to which no values are handed
in: what it comes to with texts and runs, and wherever the evaluation of a form stops. -/
inductive Plain : State → Prop where
  | start {program : Program} (files : Files) :
      program.Loaded → Plain { Session.start program with files, hosts := {} }
  | use {s : State} (use : Use) : Plain s → Plain (use.perform s).2
  | work {s : State} {task : Task} {allowSet : Bool} (fuel level : Nat) :
      Plain s → Form.Lowered s.program.types allowSet task.expr →
      Plain (exec fuel level (.work task) s).2

section

variable {P : Registry → Value → Prop} (hP : Value.Lasting P)

include hP

theorem evalText_sound {s : State} (hs : s.Sound P) (load : Loader) (fuel : Nat) (source : String) :
    State.Sound P (evalText load fuel source s).2 ∧
      ∀ v, (evalText load fuel source s).1 = .ok v →
        P (evalText load fuel source s).2.program.types v := by
  obtain ⟨hGrows, hAdded⟩ := Program.absorb_adds load fuel source s.program
  have hLoaded : State.Sound P (Session.load load fuel source s).2 := hs.grows hP hGrows
  have hNew : ∀ es, (Session.load load fuel source s).1 = .ok es →
      ∀ e ∈ es, Form.Lowered (Session.load load fuel source s).2.program.types true e := hAdded
  rw [Session.evalText, Run.bind_apply]
  rcases hRun : Session.load load fuel source s with ⟨stop | statements, s'⟩ <;>
    rw [hRun] at hLoaded hNew
  · refine ⟨hLoaded, fun v hv => ?_⟩
    cases hv
  · have hHere := hP.hereditary hLoaded.reached
    have hItems : ∀ e ∈ statements, e.Carries (P s'.program.types) := fun e he =>
      (hNew statements rfl e he).carries hHere
    obtain ⟨hSound, hTypes, hResult⟩ := hLoaded.yields (evalStatements_yields hHere fuel hItems)
    refine ⟨hSound, fun v hv => ?_⟩
    rw [hTypes]
    exact hResult v hv

/-- **Whatever a session is given**, its values keep the property, and the result has it. -/
theorem perform_sound {s : State} (hs : s.Sound P) (use : Use) :
    State.Sound P (use.perform s).2 ∧
      ∀ v, (use.perform s).1 = .ok v → P (use.perform s).2.program.types v := by
  cases use with
  | text load fuel source => exact evalText_sound hP hs load fuel source
  | run fuel =>
      have hHere := hP.hereditary hs.reached
      obtain ⟨hSound, hTypes, hResult⟩ := hs.yields (run_yields hHere fuel)
      refine ⟨hSound, fun v hv => ?_⟩
      rw [show (Use.perform (.run fuel) s).2.program.types = s.program.types from hTypes]
      exact hResult v hv

/-- **Whatever form is evaluated**, values keep the property, and the result has it. -/
theorem work_sound {s : State} (hs : s.Sound P) {task : Task} {allowSet : Bool}
    (hTask : Form.Lowered s.program.types allowSet task.expr) (fuel level : Nat) :
    State.Sound P (exec fuel level (.work task) s).2 ∧
      ∀ v, (exec fuel level (.work task) s).1 = .ok v →
        P (exec fuel level (.work task) s).2.program.types v := by
  have hHere := hP.hereditary hs.reached
  obtain ⟨hSound, hTypes, hResult⟩ :=
    hs.yields (exec_yields hHere fuel level (.work task) (hTask.carries hHere))
  refine ⟨hSound, fun v hv => ?_⟩
  rw [hTypes]
  exact hResult v hv

/-- **The values that a session keeps** have the property. -/
theorem Plain.sound {s : State} (h : Plain s) : s.Sound P := by
  induction h with
  | start files hLoaded =>
      obtain ⟨hReached, hCarries⟩ := hLoaded.sound hP
      refine ⟨hReached, hCarries, fun i scope hScope name v hGet => ?_, nofun, nofun, rfl⟩
      have hRoot : scope = {} := by
        cases i with
        | zero => exact (Option.some.inj hScope).symm
        | succ i => cases hScope
      rw [hRoot] at hGet
      cases hGet
  | use use _ ih => exact (perform_sound hP ih use).1
  | work fuel level _ hTask ih => exact (work_sound hP ih hTask fuel level).1

end

end Session

end ClauseLisp
