import ClauseLisp.Proofs.Frame.Loop

/-!
# Watching the machine

What is true whenever the machine looks at a variable, or asks a memo table, is not to
be seen from the states before and after an evaluation.  So the machine is watched: a
`Watch` has something to check before each step of a loop, at each look into a memo
table and whenever a scope is made, and a watched machine stops with an alarm where a
check fails.  A property holds throughout an evaluation if the watched machine does
exactly what the machine does, whatever the alarm is.

A `Guide` is what such a proof is made of: an invariant of states, and a record of what
has happened so far, which grows and from which the checks follow.  How the machine is
followed does not depend on it, so this is done once, for all of them.

## Main results

* `Watch.exec` — the watched machine.
* `Guide` — what makes the watched machine do what the machine does.
* `Guide.FollowsTo.bind` — one computation after the other.
-/

namespace ClauseLisp

/-! ## The watched machine -/

/-- What a scope is made for, other than the outermost one. -/
inductive Maker where
  /-- A block that is evaluated in a scope. -/
  | block (scope : Nat) (body : List Expr) (cast : Option Ty)
  /-- A call of a lambda. -/
  | closure (closure : Closure)
  /-- A call of a function, for which this clause has been chosen. -/
  | clause (function : String) (clause : Clause)

namespace Maker

/-- The scope around the one that is made. -/
def parent : Maker → Nat
  | .block scope _ _ => scope
  | .closure called => called.scope
  | .clause _ _ => Scopes.globals

/-- The parameters that are bound in the scope that is made. -/
def params : Maker → List Pattern
  | .block _ _ _ => []
  | .closure called => called.clause.params
  | .clause _ chosen => chosen.params

/-- The expressions that are evaluated in the scope that is made. -/
def body : Maker → List Expr
  | .block _ body _ => body
  | .closure called => [called.clause.body]
  | .clause _ chosen => [chosen.body]

end Maker

/-- What is checked while the machine runs, and how it stops if a check fails. -/
structure Watch where
  alarm : Stop
  /-- Checked before each step of a loop. -/
  step : Task → State → Prop
  /-- Checked when the memo table of a function is asked for a key. -/
  lookup : String → String → State → Prop
  /-- Checked when a scope is about to be made. -/
  enter : Maker → State → Prop

namespace Watch

open Classical in
/-- Go on if a check holds. -/
noncomputable def guard (w : Watch) (check : State → Prop) : Run Unit := fun s =>
  if check s then (.ok (), s) else (.error w.alarm, s)

/-- `beginClosure`, watched. -/
noncomputable def beginClosure (w : Watch) (call : Caller) (closure : Closure)
    (arguments : List Value) : Run Begun := do
  let clause := closure.clause
  if clause.params.length ≠ arguments.length then
    fail (.arity clause.params.length arguments.length none)
  let arguments ← exposeWhere call clause.litAt 0 arguments
  let clause ← chooseClause "lambda" [clause] arguments
  w.guard (w.enter (.closure closure))
  let scope ← childScope closure.scope
  bindArguments scope clause.params arguments
  return .enter ⟨"lambda", clause.body, scope, none⟩

/-- `beginClause`, watched. -/
noncomputable def beginClause (w : Watch) (name : String) (clause : Clause)
    (arguments : List Value) (memo : Option Awaited) : Run Begun := do
  w.guard (w.enter (.clause name clause))
  ClauseLisp.beginClause name clause arguments memo

/-- `beginFunction`, watched. -/
noncomputable def beginFunction (w : Watch) (call : Caller) (fuel : Nat) (name : String)
    (clauses : List Clause) (isLiteral : Nat → Bool) (arguments : List Value) : Run Begun := do
  let arguments ← exposeWhere call isLiteral 0 arguments
  let clause ← chooseClause name clauses arguments
  if clause.memoize then
    let key ← callKey call fuel arguments
    w.guard (w.lookup name key)
    match ← remembered name key with
    | some value => return .done value
    | none => w.beginClause name clause arguments (some ⟨name, key⟩)
  else
    w.beginClause name clause arguments none

/-- `beginCall`, watched. -/
noncomputable def beginCall (w : Watch) (call : Caller) (fuel : Nat) (function : Value)
    (arguments : List Value) : Run Begun := do
  match function.untagged with
  | .lambda id =>
    match (← get).closures[id]? with
    | some closure => w.beginClosure call closure arguments
    | none => fail (.eval (.notFunction "#<lambda>"))
  | .func name =>
    match (← get).program.function? name with
    | some f => w.beginFunction call fuel name f.clauses f.litAt arguments
    | none => beginByName call fuel name arguments
  | other => fail (.eval (.notFunction ((← get).repr other)))

/-- `step`, watched. -/
noncomputable def stepOf (w : Watch) (eval : Evaluator) (call : Caller) (fuel : Nat) (task : Task) :
    Run Progress := do
  w.guard (w.step task)
  match task.expr with
  | .block body cast => do
    w.guard (w.enter (.block task.scope body cast))
    evalBlock eval task body cast
  | .call callee args => do
    let function ← eval callee task.scope
    let arguments ← evalAll eval task.scope args
    match ← w.beginCall call fuel function arguments with
    | .done value => return .done value
    | .enter activation => return .next (task.enter activation)
  | _ => ClauseLisp.step eval call fuel task

/-- **The watched machine.** -/
noncomputable def exec (w : Watch) : Nat → Nat → Request → Run Value
  | 0, _, _ => throw .outOfFuel
  | fuel + 1, level, .work task =>
    if level ≥ maxLevel then fail (.eval (.depthLimit maxLevel))
    else
      loop
        (w.stepOf
          (fun e scope => exec w fuel (level + 1) (.work { expr := e, scope }))
          (fun function arguments => exec w fuel (level + 1) (.call function arguments))
          fuel)
        fuel task
  | fuel + 1, level, .call function arguments => do
    match ← w.beginCall (fun f args => exec w fuel level (.call f args)) fuel function
      arguments with
    | .done value => return value
    | .enter activation => exec w fuel level (.work activation.task)

theorem guard_apply {w : Watch} {check : State → Prop} {s : State} (h : check s) :
    w.guard check s = (.ok (), s) := if_pos h

theorem guard_bind_apply {α : Type} {w : Watch} {check : State → Prop} {s : State} (h : check s)
    (f : Unit → Run α) : (w.guard check >>= f) s = f () s :=
  Run.bind_apply_ok (guard_apply h)

end Watch

/-! ## Moves that are not watched -/

/-- What can be seen of scopes: their variables and the scopes around them. -/
def Scopes.seen (ss : Scopes Nat) : Array (Dict Value × Option Nat) :=
  ss.table.map fun scope => (scope.vars, scope.parent)

theorem Scopes.seen_modify {ss : Scopes Nat} (i : Nat) {f : Scope Nat → Scope Nat}
    (hf : ∀ scope : Scope Nat, (f scope).vars = scope.vars ∧ (f scope).parent = scope.parent) :
    Scopes.seen ⟨ss.table.modify i f⟩ = ss.seen := by
  refine Array.ext_getElem? fun j => ?_
  rw [seen, seen, Array.getElem?_map, Array.getElem?_map, Array.getElem?_modify]
  split
  · cases ss.table[j]? with
    | none => rfl
    | some scope => simp [hf scope]
  · rfl

theorem Scopes.seen_acquireAll (scope : Nat) (handles : List Nat) (ss : Scopes Nat) :
    (handles.foldr (fun handle ss => ss.acquire scope handle) ss).seen = ss.seen := by
  induction handles with
  | nil => rfl
  | cons handle handles ih =>
      rw [List.foldr_cons]
      rw [← ih]
      exact Scopes.seen_modify scope fun _ => ⟨rfl, rfl⟩

/-- A move that concerns neither code nor variables. -/
structure State.Quiet (s s' : State) : Prop where
  program : s'.program = s.program
  closures : s'.closures = s.closures
  hosts : s'.hosts = s.hosts
  scopes : s'.scopes.seen = s.scopes.seen

namespace State.Quiet

theorem refl (s : State) : s.Quiet s := ⟨rfl, rfl, rfl, rfl⟩

theorem claimed (s : State) (mark scope : Nat) : s.Quiet (s.claimed mark scope) :=
  ⟨rfl, rfl, rfl, Scopes.seen_acquireAll scope _ s.scopes⟩

theorem left (s : State) (scope : Nat) : s.Quiet (s.left scope) :=
  ⟨rfl, rfl, rfl, Scopes.seen_modify scope fun _ => ⟨rfl, rfl⟩⟩

theorem settled (s : State) (node : Nat) (iterator : Value) (step : IterStep) :
    s.Quiet (s.settled node iterator step) := by
  cases step <;> exact ⟨rfl, rfl, rfl, rfl⟩

end State.Quiet

/-- The parts of an expression that are evaluated in its own scope. -/
def Expr.parts : Expr → List Expr
  | .lit _ => []
  | .var _ => []
  | .cond test yes no => [test, yes, no]
  | .block _ _ => []
  | .set _ _ value _ => [value]
  | .lambda _ _ _ => []
  | .call callee args => callee :: args
  | .conj operands => operands
  | .disj operands => operands

/-! ## Guides -/

/-- What makes the watched machine do what the machine does: an invariant of states, and a
record of what has happened so far from which the checks of a watch follow. -/
structure Guide where
  /-- What has happened so far. -/
  Record : Type
  le : Record → Record → Prop
  le_refl : ∀ r, le r r
  le_trans : ∀ {r r' r''}, le r r' → le r' r'' → le r r''
  /-- States that agree with a record. -/
  Valid : Record → State → Prop
  /-- Watches that check nothing against a record. -/
  Sees : Record → Watch → Prop
  /-- An expression that may be evaluated in a scope. -/
  Home : Record → Expr → Nat → Prop
  /-- A name that may be bound in a scope. -/
  Binds : Record → Nat → String → Prop
  /-- A result that may be waited for. -/
  Awaits : Record → Awaited → Prop
  /-- Something that scopes may be made for. -/
  Makes : Record → Maker → Prop
  sees_mono : ∀ {r r' w}, le r r' → Sees r' w → Sees r w
  home_mono : ∀ {r r' e scope}, le r r' → Home r e scope → Home r' e scope
  binds_mono : ∀ {r r' scope name}, le r r' → Binds r scope name → Binds r' scope name
  awaits_mono : ∀ {r r' slot}, le r r' → Awaits r slot → Awaits r' slot
  makes_mono : ∀ {r r' maker}, le r r' → Makes r maker → Makes r' maker
  home_part : ∀ {r} {e part : Expr} {scope}, Home r e scope → part ∈ e.parts → Home r part scope
  binds_set : ∀ {r name ty value claims scope}, Home r (.set name ty value claims) scope →
    Binds r scope name
  makes_block : ∀ {r body cast scope}, Home r (.block body cast) scope →
    Makes r (.block scope body cast)
  makes_closure : ∀ {r} {s : State} {id : Nat} {closure}, Valid r s →
    s.closures[id]? = some closure → Makes r (.closure closure)
  makes_clause : ∀ {r} {s : State} {name f clause}, Valid r s → s.program.function? name = some f →
    clause ∈ f.clauses → Makes r (.clause name clause)
  awaits_lookup : ∀ {r s name key}, Valid r s → (remembered name key s).1 = .ok none →
    Awaits r ⟨name, key⟩
  quiet : ∀ {r} {s s' : State}, Valid r s → s.Quiet s' → Valid r s'
  bound : ∀ {r} {s : State} {scope name} (value : Value), Valid r s → Binds r scope name →
    Valid r { s with scopes := s.scopes.put scope name value }
  closed : ∀ {r} {s : State} {params ret body scope}, Valid r s →
    Home r (.lambda params ret body) scope →
    Valid r { s with closures := s.closures.push ⟨Clause.ofLambda params ret body, scope⟩ }
  kept : ∀ {r} {s : State} {slots : List Awaited} (value : Value), Valid r s →
    (∀ slot ∈ slots, Awaits r slot) →
    Valid r { s with
      program := slots.foldl (fun p slot => p.remember slot.function slot.key value) s.program }
  /-- The check before a scope is made holds with what is known once it is made. -/
  entered : ∀ {r} {s : State} {maker : Maker}, Valid r s → Makes r maker →
    ∃ r', le r r' ∧ Valid r' (s.entered maker.parent {}) ∧ (∀ w, Sees r' w → w.enter maker s) ∧
      (∀ p ∈ maker.params, ∀ name, p.name? = some name → Binds r' s.scopes.table.size name) ∧
      ∀ e ∈ maker.body, Home r' e s.scopes.table.size
  step : ∀ {r s} {task : Task} {w}, Valid r s → Home r task.expr task.scope →
    (∀ slot ∈ task.pending, Awaits r slot) → Sees r w → w.step task s
  lookup : ∀ {r s name key w}, Valid r s → Sees r w → w.lookup name key s

namespace Guide

variable (γ : Guide)

/-- From states that agree with a record, a computation leads to a state that agrees with
more, and the watched one does the same. -/
def Follows {α : Type} (r : γ.Record) (x : Run α) (y : Watch → Run α) : Prop :=
  ∀ s, γ.Valid r s →
    ∃ r', γ.le r r' ∧ γ.Valid r' (x s).2 ∧ ∀ w, γ.Sees r' w → y w s = x s

/-- From one state, a computation leads to a state that agrees with more, where its result
fits, and the watched one does the same. -/
def FollowsAt {α : Type} (P : γ.Record → α → Prop) (r : γ.Record) (s : State) (x : Run α)
    (y : Watch → Run α) : Prop :=
  ∃ r', γ.le r r' ∧ γ.Valid r' (x s).2 ∧ (∀ value, (x s).1 = .ok value → P r' value) ∧
    ∀ w, γ.Sees r' w → y w s = x s

/-- `FollowsAt`, from all states that agree with a record. -/
def FollowsTo {α : Type} (P : γ.Record → α → Prop) (r : γ.Record) (x : Run α)
    (y : Watch → Run α) : Prop :=
  ∀ s, γ.Valid r s → γ.FollowsAt P r s x y

/-- A way to call functions, and the watched one. -/
def FollowsCall (call : Caller) (callW : Watch → Caller) : Prop :=
  ∀ r function arguments, γ.Follows r (call function arguments) fun w => callW w function arguments

/-- A way to evaluate expressions where they may be, and the watched one. -/
def FollowsEval (eval : Evaluator) (evalW : Watch → Evaluator) : Prop :=
  ∀ {r e scope}, γ.Home r e scope → γ.Follows r (eval e scope) fun w => evalW w e scope

namespace Follows

variable {γ} {α β : Type} {r : γ.Record}

/-- A computation that is not watched, and makes a quiet move. -/
theorem of_quiet {x : Run α} (h : ∀ s : State, s.Quiet (x s).2) : γ.Follows r x fun _ => x :=
  fun s hValid => ⟨r, γ.le_refl r, γ.quiet hValid (h s), fun _ _ => rfl⟩

theorem pure (value : α) : γ.Follows r (Pure.pure value : Run α) fun _ => Pure.pure value :=
  of_quiet fun s => .refl s

theorem throw (stop : Stop) :
    γ.Follows r (MonadExcept.throw stop : Run α) fun _ => MonadExcept.throw stop :=
  of_quiet fun s => .refl s

theorem fail (error : Error) :
    γ.Follows r (ClauseLisp.fail error : Run α) fun _ => ClauseLisp.fail error :=
  throw _

theorem get : γ.Follows r (MonadState.get : Run State) fun _ => MonadState.get :=
  of_quiet fun s => .refl s

theorem mapError {f : Error → Error} {x : Run α} {y : Watch → Run α} (hx : γ.Follows r x y) :
    γ.Follows r (Run.mapError f x) fun w => Run.mapError f (y w) := by
  intro s hValid
  obtain ⟨r', hLe, hMiddle, hSame⟩ := hx s hValid
  have hState : (Run.mapError f x s).2 = (x s).2 := by
    unfold Run.mapError
    rcases x s with ⟨(error | _ | _) | value, s'⟩ <;> rfl
  refine ⟨r', hLe, hState ▸ hMiddle, fun w hSees => ?_⟩
  simp only [Run.mapError, hSame w hSees]

end Follows

/-- Only what the computations do at the state matters. -/
theorem FollowsAt.of_apply {γ : Guide} {α : Type} {P : γ.Record → α → Prop} {r : γ.Record}
    {s : State} {x x' : Run α} {y y' : Watch → Run α} (hx : x s = x' s) (hy : ∀ w, y w s = y' w s)
    (h : γ.FollowsAt P r s x' y') : γ.FollowsAt P r s x y := by
  obtain ⟨r', hGrows, hValid, hFits, hSame⟩ := h
  rw [FollowsAt, hx]
  exact ⟨r', hGrows, hValid, hFits, fun w hSees => (hy w).trans (hSame w hSees)⟩

/-- What a computation reads of a state is the state that it starts in. -/
theorem FollowsAt.get_bind {γ : Guide} {α : Type} {P : γ.Record → α → Prop} {r : γ.Record}
    {s : State} {f : State → Run α} {h : Watch → State → Run α}
    (hf : γ.FollowsAt P r s (f s) fun w => h w s) :
    γ.FollowsAt P r s (MonadState.get >>= f) fun w => MonadState.get >>= h w :=
  hf

namespace FollowsTo

variable {γ} {α β : Type} {r : γ.Record} {P : γ.Record → α → Prop} {Q : γ.Record → β → Prop}

theorem follows {x : Run α} {y : Watch → Run α} (h : γ.FollowsTo P r x y) : γ.Follows r x y := by
  intro s hValid
  obtain ⟨r', hLe, hEnd, -, hSame⟩ := h s hValid
  exact ⟨r', hLe, hEnd, hSame⟩

/-- A property of all results of a computation. -/
theorem of_follows {x : Run α} {y : Watch → Run α} (h : γ.Follows r x y)
    (hP : ∀ r' s value, (x s).1 = .ok value → P r' value) : γ.FollowsTo P r x y := by
  intro s hValid
  obtain ⟨r', hLe, hEnd, hSame⟩ := h s hValid
  exact ⟨r', hLe, hEnd, hP r' s, hSame⟩

theorem pure {value : α} (h : ∀ r', γ.le r r' → P r' value) :
    γ.FollowsTo P r (Pure.pure value : Run α) fun _ => Pure.pure value := by
  intro s hValid
  refine ⟨r, γ.le_refl r, hValid, fun other hSame => ?_, fun _ _ => rfl⟩
  cases hSame
  exact h r (γ.le_refl r)

theorem fail (error : Error) :
    γ.FollowsTo P r (ClauseLisp.fail error : Run α) fun _ => ClauseLisp.fail error :=
  of_follows (.fail error) fun _ _ _ h => nomatch h

/-- **One computation after the other.** -/
theorem bind {x : Run α} {y : Watch → Run α} {f : α → Run β} {h : Watch → α → Run β}
    (hx : γ.FollowsTo P r x y)
    (hf : ∀ value r', γ.le r r' → P r' value → γ.FollowsTo Q r' (f value) fun w => h w value) :
    γ.FollowsTo Q r (x >>= f) fun w => y w >>= h w := by
  intro s hValid
  obtain ⟨r', hLe, hMiddle, hResult, hFirst⟩ := hx s hValid
  simp only [FollowsAt, Run.bind_apply]
  rcases hRun : x s with ⟨stop | value, s'⟩ <;> rw [hRun] at hMiddle hFirst hResult
  · exact ⟨r', hLe, hMiddle, nofun, fun w hSees => by rw [hFirst w hSees]⟩
  · obtain ⟨r'', hLe', hEnd, hLast, hSecond⟩ := hf value r' hLe (hResult value rfl) s' hMiddle
    refine ⟨r'', γ.le_trans hLe hLe', hEnd, hLast, fun w hSees => ?_⟩
    rw [hFirst w (γ.sees_mono hLe' hSees)]
    exact hSecond w hSees

theorem congr {x : Run α} {y y' : Watch → Run α} (hSame : ∀ w, y' w = y w)
    (h : γ.FollowsTo P r x y) : γ.FollowsTo P r x y' := by
  rw [show y' = y from funext hSame]
  exact h

/-- A check that holds does nothing. -/
theorem guard {x : Run α} {y : Watch → Run α} {check : Watch → State → Prop}
    (hx : γ.FollowsTo P r x y) (hCheck : ∀ s w, γ.Valid r s → γ.Sees r w → check w s) :
    γ.FollowsTo P r x fun w => w.guard (check w) >>= fun _ => y w := by
  intro s hValid
  obtain ⟨r', hLe, hMiddle, hResult, hSame⟩ := hx s hValid
  refine ⟨r', hLe, hMiddle, hResult, fun w hSees => ?_⟩
  have hHolds := hCheck s w hValid (γ.sees_mono hLe hSees)
  exact (Watch.guard_bind_apply hHolds fun _ => y w).trans (hSame w hSees)

/-- Looking at the outcome of a computation. -/
theorem outcome_bind {x : Run α} {y : Watch → Run α} {f : Except Stop α → Run β}
    {h : Watch → Except Stop α → Run β} (hx : γ.FollowsTo P r x y)
    (hf : ∀ outcome r', γ.le r r' → (∀ value, outcome = .ok value → P r' value) →
      γ.FollowsTo Q r' (f outcome) fun w => h w outcome) :
    γ.FollowsTo Q r (x.outcome >>= f) fun w => (y w).outcome >>= h w := by
  intro s hValid
  obtain ⟨r', hLe, hMiddle, hResult, hFirst⟩ := hx s hValid
  obtain ⟨r'', hLe', hEnd, hLast, hSecond⟩ := hf (x s).1 r' hLe hResult (x s).2 hMiddle
  refine ⟨r'', γ.le_trans hLe hLe', hEnd, hLast, fun w hSees => ?_⟩
  show h w (y w s).1 (y w s).2 = _
  rw [hFirst w (γ.sees_mono hLe' hSees)]
  exact hSecond w hSees

/-- **A scope is made**, for something that scopes may be made for. -/
theorem enter {maker : Maker} {f : Nat → Run β} {h : Watch → Nat → Run β}
    (hMakes : γ.Makes r maker)
    (hf : ∀ scope r', γ.le r r' →
      (∀ p ∈ maker.params, ∀ name, p.name? = some name → γ.Binds r' scope name) →
      (∀ e ∈ maker.body, γ.Home r' e scope) → γ.FollowsTo Q r' (f scope) fun w => h w scope) :
    γ.FollowsTo Q r (childScope maker.parent >>= f)
      fun w => w.guard (w.enter maker) >>= fun _ => childScope maker.parent >>= h w := by
  intro s hValid
  obtain ⟨r', hLe, hEntered, hCheck, hParams, hHome⟩ := γ.entered hValid hMakes
  obtain ⟨r'', hLe', hEnd, hResult, hSame⟩ :=
    hf s.scopes.table.size r' hLe hParams hHome _ hEntered
  refine ⟨r'', γ.le_trans hLe hLe', hEnd, hResult, fun w hSees => ?_⟩
  exact (Watch.guard_bind_apply (hCheck w (γ.sees_mono hLe' hSees)) _).trans (hSame w hSees)

end FollowsTo

section

variable {γ} {α β : Type} {r : γ.Record} {Q : γ.Record → β → Prop}

/-- Nothing has to be known of a result. -/
theorem Follows.plain {x : Run α} {y : Watch → Run α} (h : γ.Follows r x y) :
    γ.FollowsTo (fun _ _ => True) r x y :=
  .of_follows h fun _ _ _ _ => trivial

theorem FollowsTo.after {x : Run α} {y : Watch → Run α} {f : α → Run β} {h : Watch → α → Run β}
    (hx : γ.Follows r x y)
    (hf : ∀ value r', γ.le r r' → γ.FollowsTo Q r' (f value) fun w => h w value) :
    γ.FollowsTo Q r (x >>= f) fun w => y w >>= h w :=
  hx.plain.bind fun value r' hLe _ => hf value r' hLe

theorem FollowsTo.after_outcome {x : Run α} {y : Watch → Run α} {f : Except Stop α → Run β}
    {h : Watch → Except Stop α → Run β} (hx : γ.Follows r x y)
    (hf : ∀ outcome r', γ.le r r' → γ.FollowsTo Q r' (f outcome) fun w => h w outcome) :
    γ.FollowsTo Q r (x.outcome >>= f) fun w => (y w).outcome >>= h w :=
  hx.plain.outcome_bind fun outcome r' hLe _ => hf outcome r' hLe

theorem Follows.bind {x : Run α} {y : Watch → Run α} {f : α → Run β} {h : Watch → α → Run β}
    (hx : γ.Follows r x y)
    (hf : ∀ value r', γ.le r r' → γ.Follows r' (f value) fun w => h w value) :
    γ.Follows r (x >>= f) fun w => y w >>= h w :=
  (FollowsTo.after hx fun value r' hLe => (hf value r' hLe).plain).follows

theorem Follows.outcome_bind {x : Run α} {y : Watch → Run α} {f : Except Stop α → Run β}
    {h : Watch → Except Stop α → Run β} (hx : γ.Follows r x y)
    (hf : ∀ outcome r', γ.le r r' → γ.Follows r' (f outcome) fun w => h w outcome) :
    γ.Follows r (x.outcome >>= f) fun w => (y w).outcome >>= h w :=
  (FollowsTo.after_outcome hx fun outcome r' hLe => (hf outcome r' hLe).plain).follows

end

end Guide

end ClauseLisp
