import ClauseLisp.Proofs.Frame.Machine

/-!
# What evaluation may write to

A task writes to what its expression may write to, and to nothing else that was
there before.  The induction follows the machine: one step of the loop keeps the
relation and goes on with a task that writes to nothing or to a new scope; so the
loop does; and so everything that the machine can be asked to do, by induction on
the bound on its nesting.

## Main results

* `step_keeps` — one step of the loop.
* `loop_keeps` — a whole loop.
* `exec_keeps` — whatever the machine is asked to do.
-/

namespace ClauseLisp

/-! ## Scopes -/

theorem size_acquireAll (scope : Nat) (ss : Scopes Nat) (handles : List Nat) :
    (handles.foldr (fun handle ss => ss.acquire scope handle) ss).table.size = ss.table.size := by
  induction handles with
  | nil => rfl
  | cons handle handles ih =>
      rw [List.foldr_cons, Scopes.acquire, Array.size_modify]
      exact ih

/-! ## Keeping results -/

/-- Changing the entry of a name changes no other one. -/
theorem Dict.get?_modify {α : Type} (d : Dict α) (name : String) (f : α → α) (other : String) :
    (d.modify name f).get? other =
      if other = name then (d.get? other).map f else d.get? other := by
  have hFind : ∀ entries : List (String × α),
      Dict.find (entries.map fun entry => if entry.1 = name then (entry.1, f entry.2) else entry)
          other =
        if other = name then (Dict.find entries other).map f else Dict.find entries other := by
    intro entries
    induction entries with
    | nil => simp [Dict.find]
    | cons entry entries ih =>
        obtain ⟨key, value⟩ := entry
        rw [List.map_cons]
        by_cases hKey : key = other
        · by_cases hName : other = name <;> simp [Dict.find, hKey, hName]
        · by_cases hName : key = name
          · subst hName
            simp [Dict.find, hKey, ih]
          · simp [Dict.find, hKey, hName, ih]
  exact hFind d.entries

namespace Program

/-- A function whose table may have got a result more. -/
theorem function?_remember (p : Program) (function key : String) (value : Value) (name : String) :
    (p.remember function key value).function? name =
      if name = function then
        (p.function? name).map fun f => { f with memo := f.memo.insert key value }
      else p.function? name :=
  Dict.get?_modify p.functions function _ name

theorem Placed.remember {p : Program} (h : p.Placed) (function key : String) (value : Value) :
    (p.remember function key value).Placed := by
  refine ⟨fun name f hGet => ?_, h.statements⟩
  rw [Program.remember, Dict.get?_modify] at hGet
  split at hGet
  · obtain ⟨g, hFunction, rfl⟩ := Option.map_eq_some_iff.mp hGet
    exact h.functions name g hFunction
  · exact h.functions name f hGet

theorem Placed.rememberAll (value : Value) :
    ∀ (slots : List Awaited) {p : Program}, p.Placed →
      (slots.foldl (fun p slot => p.remember slot.function slot.key value) p).Placed := by
  intro slots
  induction slots with
  | nil => exact id
  | cons slot slots ih => exact fun h => ih (h.remember slot.function slot.key value)

end Program

/-! ## Evaluating parts -/

/-- The value of an expression, checked for a type if there is one. -/
def evalChecked (eval : Evaluator) (form : String) (ty : Option Ty) (e : Expr) (scope : Nat) :
    Run Value := do
  let value ← eval e scope
  match ty with
  | some ty => requireType form ty value
  | none => return value

/-- A `set` has its value checked before it takes files over and binds its name. -/
theorem evalSet_apply (eval : Evaluator) (name : String) (ty : Option Ty) (value : Expr)
    (claims : Bool) (scope : Nat) (s : State) :
    evalSet eval name ty value claims scope s =
      (evalChecked eval "set" ty value scope >>= fun result =>
        (if claims then claimSince s.unclaimed.length scope else pure ()) >>= fun _ =>
          bindIn scope name result >>= fun _ => pure result) s := by
  unfold evalSet evalChecked
  rw [Run.get_bind_apply, bind_assoc]
  cases claims <;> cases ty <;> rfl

section

variable {R : Access → State → State → Prop}

/-- A way to evaluate that keeps a relation, given what an expression may write to. -/
def Evaluator.Keeps (R : Access → State → State → Prop) (eval : Evaluator) : Prop :=
  ∀ e scope, e.isPlaced true = true → ClauseLisp.Keeps R (e.access scope) (eval e scope)

variable (hR : Frame R) {eval : Evaluator} (hEval : eval.Keeps R)

include hR hEval

omit hR in
theorem eval_keeps {e : Expr} (h : e.isPlaced false = true) (scope : Nat) :
    Keeps R .nothing (eval e scope) := by
  have hKeeps : Keeps R (e.access scope) (eval e scope) := hEval e scope (Expr.isPlaced_of_false true h)
  rw [Expr.access_of_isPlaced h] at hKeeps
  exact hKeeps

/-- Operands write to nothing. -/
theorem evalAll_keeps (scope : Nat) :
    ∀ {es : List Expr}, Expr.arePlaced false es = true →
      Keeps R .nothing (evalAll eval scope es) := by
  intro es
  induction es with
  | nil => exact fun _ => .pure hR _
  | cons e es ih =>
      intro h
      rw [Expr.arePlaced, Bool.and_eq_true] at h
      refine .bind hR (eval_keeps hEval h.1 scope) fun value => ?_
      exact .bind hR (ih h.2) fun values => .pure hR _

/-- The parts of a block write to its scope at most. -/
theorem evalItems_keeps (scope : Nat) :
    ∀ {es : List Expr}, (∀ e ∈ es, e.isPlaced true = true) →
      Keeps R (.all scope) (evalAll eval scope es) := by
  intro es
  induction es with
  | nil => exact fun _ => .pure hR _
  | cons e es ih =>
      intro h
      obtain ⟨hFirst, hRest⟩ := List.forall_mem_cons.mp h
      refine .bind hR (.weaken hR (hEval e scope hFirst) (e.access_within scope)) fun value => ?_
      exact .bind hR (ih hRest) fun values => .pure hR _

theorem evalLogical_keeps (form : String) (decisive : Bool) (scope : Nat) :
    ∀ {es : List Expr}, Expr.arePlaced false es = true →
      Keeps R .nothing (evalLogical eval form decisive scope es) := by
  intro es
  induction es with
  | nil => exact fun _ => .pure hR _
  | cons e es ih =>
      intro h
      rw [Expr.arePlaced, Bool.and_eq_true] at h
      rw [evalLogical]
      refine .bind hR (eval_keeps hEval h.1 scope) fun value => ?_
      split
      · split
        · exact .pure hR _
        · exact ih h.2
      · exact .bind hR (.get hR) fun s => .fail hR _

omit hEval in
theorem resolve_keeps (name : String) (scope : Nat) : Keeps R .nothing (resolve name scope) := by
  refine .bind hR (.get hR) fun s => ?_
  split
  · exact .pure hR _
  · split
    · exact .pure hR _
    · exact .fail hR _

omit hEval in
theorem bindIn_keeps (scope : Nat) (name : String) (value : Value) :
    Keeps R (.names scope) (bindIn scope name value) := by
  intro s hPlaced hFits
  unfold bindIn
  rw [Run.get_bind_apply]
  cases hFrozen : s.scopes.isFrozen scope with
  | true => exact .refl hR _ hPlaced
  | false =>
      refine ⟨⟨hPlaced.program, hPlaced.closures⟩, ?_, hR.bound s scope name value hFrozen⟩
      exact Nat.le_of_eq Array.size_modify.symm

omit hEval in
theorem claimed_kept {s s' : State} {scope : Nat} (h : Kept R .nothing s s')
    (hScope : scope < s.scopes.table.size) :
    Kept R (.all scope) s (s'.claimed s.unclaimed.length scope) := by
  refine ⟨⟨h.placed.program, h.placed.closures⟩, ?_, hR.claimed h.related hScope⟩
  show s.scopes.table.size ≤ (List.foldr _ s'.scopes _).table.size
  rw [size_acquireAll]
  exact h.scopes

omit hEval in
theorem evalChecked_keeps {a : Access} (form : String) (ty : Option Ty) {e : Expr} {scope : Nat}
    (h : ClauseLisp.Keeps R a (eval e scope)) :
    ClauseLisp.Keeps R a (evalChecked eval form ty e scope) := by
  refine .bind hR h fun value => ?_
  cases ty with
  | some ty => exact (requireType_keeps hR form ty value).weaken hR (Access.nothing_within a)
  | none => exact .pure hR value

/-- A `set` writes to the variables of its scope, and a `set'` to its resources too. -/
theorem evalSet_keeps (name : String) (ty : Option Ty) {value : Expr} (claims : Bool) (scope : Nat)
    (h : value.isPlaced false = true) :
    Keeps R ((Expr.set name ty value claims).access scope)
      (evalSet eval name ty value claims scope) := by
  have hChecked : Keeps R .nothing (evalChecked eval "set" ty value scope) :=
    evalChecked_keeps hR "set" ty (eval_keeps hEval h scope)
  have hBind : ∀ result, Keeps R (.names scope)
      (bindIn scope name result >>= fun _ => pure result) := fun result =>
    .bind hR (bindIn_keeps hR scope name result) fun _ => .pure hR result
  intro s hPlaced hFits
  rw [evalSet_apply]
  cases claims with
  | false =>
      refine Keeps.bind hR (hChecked.weaken hR trivial) (fun result => ?_) s hPlaced hFits
      exact .bind hR (.pure hR ()) fun _ => hBind result
  | true =>
      have hValue : Kept R .nothing s (evalChecked eval "set" ty value scope s).2 :=
        hChecked s hPlaced (Access.fitsIn_nothing s)
      rw [Run.bind_apply]
      rcases hRun : evalChecked eval "set" ty value scope s with ⟨stop | result, s'⟩ <;>
        rw [hRun] at hValue
      · exact hValue.weaken hR trivial
      · have hClaimed : Kept R (.all scope) s (s'.claimed s.unclaimed.length scope) :=
          claimed_kept hR hValue (hFits scope rfl)
        have hWithin : (Access.names scope).Within (.all scope) := rfl
        exact hClaimed.trans hR
          ((hBind result).weaken hR hWithin _ hClaimed.placed (hFits.mono hClaimed.scopes))

theorem evalLast_keeps (cast : Option Ty) {last : Expr} (scope : Nat)
    (h : last.isPlaced true = true) : Keeps R (.all scope) (evalLast eval cast last scope) := by
  have hLast : Keeps R (.all scope) (eval last scope) :=
    (hEval last scope h).weaken hR (last.access_within scope)
  exact evalChecked_keeps hR "do" cast hLast

end

/-! ## Steps -/

/-- What a step goes on with, from a state: nothing has been written to, and the next
task writes to nothing or to a scope that is new. -/
structure Task.GoesOn (task : Task) (s : State) (next : Task) : Prop where
  nothing : task.expr.access task.scope = .nothing
  placed : next.expr.isPlaced true = true
  access : next.expr.access next.scope = .nothing ∨
    next.expr.access next.scope = .names next.scope ∧ s.scopes.table.size ≤ next.scope

/-- What a step does: it keeps a relation, and it may go on. -/
structure StepKeeps (R : Access → State → State → Prop) (task : Task) (s : State)
    (outcome : Except Stop Progress × State) : Prop where
  kept : Kept R (task.expr.access task.scope) s outcome.2
  goes : ∀ next, outcome.1 = .ok (.next next) → task.GoesOn s next

theorem StepKeeps.value {R : Access → State → State → Prop} {task : Task} {s s' : State}
    {value : Value} (h : Kept R (task.expr.access task.scope) s s') :
    StepKeeps R task s (.ok (.done value), s') :=
  ⟨h, fun _ hNext => nomatch hNext⟩

theorem StepKeeps.stop {R : Access → State → State → Prop} {task : Task} {s s' : State}
    {stop : Stop} (h : Kept R (task.expr.access task.scope) s s') :
    StepKeeps R task s (.error stop, s') :=
  ⟨h, fun _ hNext => nomatch hNext⟩

/-- A step that has a value, or stops, ends the loop. -/
theorem StepKeeps.of_done {R : Access → State → State → Prop} {task : Task} {s s' : State}
    {x : Run Value} (h : Kept R (task.expr.access task.scope) s (x s').2) :
    StepKeeps R task s ((x >>= fun value => pure (.done value)) s') := by
  rw [Run.bind_apply]
  rcases hRun : x s' with ⟨stop | value, s''⟩ <;> rw [hRun] at h
  · exact .stop h
  · exact .value h

/-- A step that does not write to anything at first. -/
theorem StepKeeps.after {R : Access → State → State → Prop} (hR : Frame R) {task : Task} {α : Type}
    {s s' : State} {x : Run α} {f : α → Run Progress}
    (hNothing : task.expr.access task.scope = .nothing) (hBefore : Kept R .nothing s s')
    (hx : Keeps R .nothing x)
    (hf : ∀ value s'', x s' = (.ok value, s'') → Kept R .nothing s s'' →
      StepKeeps R task s (f value s'')) :
    StepKeeps R task s ((x >>= f) s') := by
  have hAfter : Kept R .nothing s (x s').2 :=
    hBefore.trans hR (hx s' hBefore.placed (Access.fitsIn_nothing s'))
  rw [Run.bind_apply]
  rcases hRun : x s' with ⟨stop | value, s''⟩ <;> rw [hRun] at hAfter
  · exact .stop (hNothing ▸ hAfter)
  · exact hf value s'' hRun hAfter

/-- The last expression of a block writes to the variables of the scope of the block at
most, unless the scope has to be left after it. -/
theorem Expr.access_of_isClaimingSet {e : Expr} (h : e.isClaimingSet = false) (scope : Nat) :
    e.access scope = .nothing ∨ e.access scope = .names scope := by
  cases e with
  | set name ty value claims =>
      cases claims with
      | true => cases h
      | false => exact .inr rfl
  | _ => exact .inl rfl

/-! ## Blocks -/

/-- What a block does once its scope is made. -/
def evalBlockIn (eval : Evaluator) (task : Task) (body : List Expr) (cast : Option Ty) (last : Expr)
    (scope : Nat) (s : State) : Except Stop Progress × State :=
  match evalAll eval scope body.dropLast s with
  | (.error stop, s') => leaveScope scope (.error stop) s'
  | (.ok _, s') =>
    if cast.isNone && !last.isClaimingSet && !s'.scopes.holds scope then
      (.ok (.next { task with expr := last, scope }), s')
    else
      ((leaveScope scope (evalLast eval cast last scope s').1 >>= fun value =>
        pure (.done value)) (evalLast eval cast last scope s').2)

theorem evalBlock_some {eval : Evaluator} {task : Task} {body : List Expr} {cast : Option Ty}
    {last : Expr} (s : State) (h : body.getLast? = some last) :
    evalBlock eval task body cast s =
      evalBlockIn eval task body cast last s.scopes.table.size (s.entered task.scope {}) := by
  have hChild : childScope task.scope s = (.ok s.scopes.table.size, s.entered task.scope {}) := rfl
  simp only [evalBlock, h]
  rw [Run.bind_apply_ok hChild, Run.outcome_bind_apply, evalBlockIn]
  rcases evalAll eval s.scopes.table.size body.dropLast (s.entered task.scope {}) with
    ⟨stop | values, s'⟩
  · rfl
  · simp only [Run.get_bind_apply]
    split <;> rfl

theorem evalBlock_none {eval : Evaluator} {task : Task} {body : List Expr} {cast : Option Ty}
    (s : State) (h : body.getLast? = none) :
    evalBlock eval task body cast s = (.ok (.done .nil), s.entered task.scope {}) := by
  simp only [evalBlock, h]
  rfl

section

variable {R : Access → State → State → Prop} (hR : Frame R)

/-- The scopes from before a block are still there. -/
theorem Kept.size_le {a : Access} {s s' : State} {parent : Nat}
    (h : Kept R a (s.entered parent {}) s') : s.scopes.table.size ≤ s'.scopes.table.size := by
  have hScopes : (s.entered parent {}).scopes.table.size ≤ s'.scopes.table.size := h.scopes
  rw [State.entered, Array.size_push] at hScopes
  exact Nat.le_trans (Nat.le_succ _) hScopes

include hR

theorem left_kept {s s' : State} {parent : Nat}
    (h : Kept R (.all s.scopes.table.size) (s.entered parent {}) s') :
    Kept R .nothing s (s'.left s.scopes.table.size) := by
  refine ⟨⟨h.placed.program, h.placed.closures⟩, ?_, hR.left h.related⟩
  show s.scopes.table.size ≤ (s'.scopes.freeze s.scopes.table.size).table.size
  rw [Scopes.freeze, Array.size_modify]
  exact h.size_le

/-- A block that holds nothing goes on with its last expression, inside its scope. -/
theorem follow_keeps {task : Task} {s s' : State} {parent : Nat} {last : Expr}
    (hNothing : task.expr.access task.scope = .nothing)
    (hInside : Kept R (.all s.scopes.table.size) (s.entered parent {}) s')
    (hLast : last.isPlaced true = true) (hClaims : last.isClaimingSet = false)
    (hHolds : s'.scopes.holds s.scopes.table.size = false) :
    StepKeeps R task s
      (.ok (.next { task with expr := last, scope := s.scopes.table.size }), s') := by
  have hKept : Kept R .nothing s s' :=
    ⟨hInside.placed, hInside.size_le, hR.followed hInside.related hHolds⟩
  refine ⟨hNothing ▸ hKept, fun next hNext => ?_⟩
  cases hNext
  refine ⟨hNothing, hLast, ?_⟩
  exact (Expr.access_of_isClaimingSet hClaims _).imp id fun hNames => ⟨hNames, Nat.le_refl _⟩

variable {eval : Evaluator} (hEval : eval.Keeps R)

include hEval

/-- **A block writes to its own scope**, and leaves it, unless it goes on in it. -/
theorem evalBlock_keeps {task : Task} {body : List Expr} {cast : Option Ty} {s : State}
    (hNothing : task.expr.access task.scope = .nothing) (hBody : Expr.arePlaced true body = true)
    (hPlaced : s.Placed) : StepKeeps R task s (evalBlock eval task body cast s) := by
  have hItems : ∀ e ∈ body, e.isPlaced true = true := (Expr.arePlaced_iff true body).mp hBody
  have hEntered : Kept R .nothing s (s.entered task.scope {}) := entered_kept hR hPlaced task.scope {}
  have hFits : (Access.all s.scopes.table.size).FitsIn (s.entered task.scope {}) := by
    intro scope hScope
    cases hScope
    rw [State.entered, Array.size_push]
    exact Nat.lt_succ_self _
  cases hLast : body.getLast? with
  | none =>
      rw [evalBlock_none s hLast]
      exact .value (hNothing ▸ hEntered)
  | some last =>
      have hLastPlaced : last.isPlaced true = true := hItems last (List.mem_of_getLast? hLast)
      have hInit : Kept R (.all s.scopes.table.size) (s.entered task.scope {})
          (evalAll eval s.scopes.table.size body.dropLast (s.entered task.scope {})).2 :=
        evalItems_keeps hR hEval _ (fun e he => hItems e (List.dropLast_subset body he)) _
          hEntered.placed hFits
      rw [evalBlock_some s hLast, evalBlockIn]
      rcases hRun : evalAll eval s.scopes.table.size body.dropLast (s.entered task.scope {}) with
        ⟨stop | values, s'⟩ <;> rw [hRun] at hInit
      · exact .stop (hNothing ▸ left_kept hR hInit)
      · by_cases hTail : (cast.isNone && !last.isClaimingSet &&
            !s'.scopes.holds s.scopes.table.size) = true
        · simp only [hTail, if_true]
          rw [Bool.and_eq_true, Bool.and_eq_true, Bool.not_eq_true', Bool.not_eq_true'] at hTail
          exact follow_keeps hR hNothing hInit hLastPlaced hTail.1.2 hTail.2
        · simp only [hTail]
          have hEnd : Kept R (.all s.scopes.table.size) s'
              (evalLast eval cast last s.scopes.table.size s').2 :=
            evalLast_keeps hR hEval cast _ hLastPlaced s' hInit.placed (hFits.mono hInit.scopes)
          have hLeft : Kept R .nothing s
              ((evalLast eval cast last s.scopes.table.size s').2.left s.scopes.table.size) :=
            left_kept hR (hInit.trans hR hEnd)
          rw [← hNothing] at hLeft
          exact .of_done hLeft

omit hEval in
theorem newClosure_keeps {clause : Clause} (h : clause.body.isPlaced false = true) (scope : Nat) :
    Keeps R .nothing (newClosure clause scope) := by
  intro s hPlaced _
  refine ⟨⟨hPlaced.program, fun id closure hGet => ?_⟩, Nat.le_refl _, hR.closure s clause scope⟩
  have hPush : (s.closures.push ⟨clause, scope⟩)[id]? = some closure := hGet
  rw [Array.getElem?_push] at hPush
  split at hPush
  · cases hPush
    exact h
  · exact hPlaced.closures id closure hPush

/-- **One step of the loop** keeps the relation, and goes on with what it may. -/
theorem step_keeps {call : Caller} (hCall : call.Keeps R) (fuel : Nat) {task : Task} {s : State}
    (hTask : task.expr.isPlaced true = true) (hPlaced : s.Placed)
    (hFits : (task.expr.access task.scope).FitsIn s) :
    StepKeeps R task s (step eval call fuel task s) := by
  obtain ⟨e, scope, function, pending⟩ := task
  have hStart : Kept R .nothing s s := .refl hR _ hPlaced
  have hNothing : Access.nothing.FitsIn s := Access.fitsIn_nothing s
  cases e with
  | lit value => exact .value hStart
  | var name => exact .of_done (resolve_keeps hR name scope s hPlaced hNothing)
  | cond test yes no =>
      simp only [Expr.isPlaced, Bool.and_eq_true] at hTask
      obtain ⟨⟨hTest, hYes⟩, hNo⟩ := hTask
      refine .after hR rfl hStart (eval_keeps hEval hTest scope) fun value s' _ hKept => ?_
      cases value.untagged with
      | bool b =>
          have hBranch : (if b then yes else no).isPlaced false = true := by cases b <;> assumption
          refine ⟨hKept, fun next hNext => ?_⟩
          cases hNext
          exact ⟨rfl, Expr.isPlaced_of_false true hBranch, .inl (Expr.access_of_isPlaced hBranch _)⟩
      | _ => exact .stop hKept
  | block body cast => exact evalBlock_keeps hR hEval rfl hTask hPlaced
  | set name ty value claims =>
      exact .of_done (evalSet_keeps hR hEval name ty claims scope hTask s hPlaced hFits)
  | lambda params ret body =>
      have hBody : (Clause.ofLambda params ret body).body.isPlaced false = true := hTask
      exact .of_done (newClosure_keeps hR hBody scope s hPlaced hNothing)
  | conj operands =>
      exact .of_done (evalLogical_keeps hR hEval "and" false scope hTask s hPlaced hNothing)
  | disj operands =>
      exact .of_done (evalLogical_keeps hR hEval "or" true scope hTask s hPlaced hNothing)
  | call callee args =>
      rw [Expr.isPlaced, Bool.and_eq_true] at hTask
      refine .after hR rfl hStart (eval_keeps hEval hTask.1 scope) fun function s₁ _ hFunction => ?_
      refine .after hR rfl hFunction (evalAll_keeps hR hEval scope hTask.2)
        fun arguments s₂ _ hArguments => ?_
      refine .after hR rfl hArguments (beginCall_keeps hR hCall fuel function arguments)
        fun begun s₃ hBegun hKept => ?_
      cases begun with
      | done value => exact .value hKept
      | enter activation =>
          have hBody : activation.body.isPlaced false = true :=
            isPlaced_of_beginCall hArguments.placed (congrArg Prod.fst hBegun)
          refine ⟨hKept, fun next hNext => ?_⟩
          cases hNext
          exact ⟨rfl, Expr.isPlaced_of_false true hBody, .inl (Expr.access_of_isPlaced hBody _)⟩

end

/-! ## Loops -/

section

variable {R : Access → State → State → Prop} (hR : Frame R)

include hR

theorem rememberAll_keeps (value : Value) (slots : List Awaited) :
    Keeps R .nothing (rememberAll value slots) := fun s hPlaced _ =>
  ⟨⟨hPlaced.program.rememberAll value slots, hPlaced.closures⟩, Nat.le_refl _,
    hR.kept s value slots⟩

/-- **A loop writes to what its first task may write to**: whatever it goes on with
writes to nothing, or to a scope that was not there at first. -/
theorem loop_keeps {step : Task → Run Progress}
    (hStep : ∀ task s, task.expr.isPlaced true = true → s.Placed →
      (task.expr.access task.scope).FitsIn s → StepKeeps R task s (step task s))
    (fuel : Nat) :
    ∀ {task : Task}, task.expr.isPlaced true = true →
      Keeps R (task.expr.access task.scope) (loop step fuel task) := by
  induction fuel with
  | zero => exact fun _ => .throw hR .outOfFuel
  | succ fuel ih =>
      intro task hTask s hPlaced hFits
      obtain ⟨hKept, hGoes⟩ := hStep task s hTask hPlaced hFits
      rw [loop, Run.outcome_bind_apply]
      rcases hRun : step task s with ⟨stop | value | next, s'⟩ <;> rw [hRun] at hKept hGoes
      · exact hKept
      · have hEnd : Keeps R (task.expr.access task.scope)
            (rememberAll value task.pending >>= fun _ => pure value) :=
          .bind hR ((rememberAll_keeps hR value task.pending).weaken hR trivial) fun _ =>
            .pure hR value
        exact hKept.trans hR (hEnd s' hKept.placed (hFits.mono hKept.scopes))
      · obtain ⟨hNothing, hNext, hAccess⟩ := hGoes next rfl
        rw [hNothing] at hKept ⊢
        have hRest : Keeps R (next.expr.access next.scope) (loop step fuel next) := ih hNext
        -- The last expression of a block may be a `set`.  The scope that it writes to is
        -- the one of the block, which this step has made.
        rcases hAccess with hAccess | ⟨hAccess, hFresh⟩
        · rw [hAccess] at hRest
          exact hKept.trans hR (hRest s' hKept.placed (Access.fitsIn_nothing s'))
        · rw [hAccess] at hRest
          have hLater : Kept R (.names next.scope) s' (loop step fuel next s').2 :=
            hRest s' hKept.placed (Access.fitsIn_names next.scope s')
          exact ⟨hLater.placed, Nat.le_trans hKept.scopes hLater.scopes,
            hR.forgotten hFresh hKept.related hLater.related⟩

/-! ## Requests -/

/-- What a request may write to. -/
def Request.access : Request → Access
  | .work task => task.expr.access task.scope
  | .call _ _ => .nothing

/-- The code of a request is placed. -/
def Request.IsPlaced : Request → Prop
  | .work task => task.expr.isPlaced true = true
  | .call _ _ => True

/-- **Whatever the machine is asked to do**, it writes to nothing that was there before
but what it was allowed to. -/
theorem exec_keeps (fuel : Nat) :
    ∀ (level : Nat) (request : Request), request.IsPlaced →
      Keeps R request.access (exec fuel level request) := by
  induction fuel with
  | zero => exact fun _ _ _ => .throw hR .outOfFuel
  | succ fuel ih =>
      intro level request hRequest
      cases request with
      | work task =>
          rw [exec]
          split
          · exact .fail hR _
          · refine loop_keeps hR (fun task s hTask hPlaced hFits => ?_) fuel hRequest
            refine step_keeps hR (fun e scope hPlaced => ?_) (fun function arguments => ?_) fuel
              hTask hPlaced hFits
            · exact ih (level + 1) (.work { expr := e, scope }) hPlaced
            · exact ih (level + 1) (.call function arguments) trivial
      | call function arguments =>
          have hCall : Caller.Keeps R fun f args => exec fuel level (.call f args) :=
            fun f args => ih level (.call f args) trivial
          intro s hPlaced hFits
          have hBegin : Kept R .nothing s _ :=
            beginCall_keeps hR hCall fuel function arguments s hPlaced hFits
          rw [exec, Run.bind_apply]
          rcases hBegun : beginCall _ fuel function arguments s with
            ⟨stop | value | activation, s'⟩ <;> rw [hBegun] at hBegin
          · exact hBegin
          · exact hBegin
          · have hBody : activation.body.isPlaced false = true :=
              isPlaced_of_beginCall hPlaced (congrArg Prod.fst hBegun)
            have hWork : Keeps R (activation.task.expr.access activation.task.scope)
                (exec fuel level (.work activation.task)) :=
              ih level (.work activation.task) (Expr.isPlaced_of_false true hBody)
            rw [show activation.task.expr.access activation.task.scope = .nothing from
              Expr.access_of_isPlaced hBody _] at hWork
            exact hBegin.trans hR (hWork s' hBegin.placed (Access.fitsIn_nothing s'))

end

end ClauseLisp
