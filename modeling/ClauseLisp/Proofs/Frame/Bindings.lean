import ClauseLisp.Proofs.Resources.Session

/-!
# Which scopes an evaluation writes to

An expression that is not a `set` leaves all scopes that there are exactly as they
are: their variables, whether they have been left, and the files that they hold.
Whatever it calls works in scopes of its own.  A `set` changes the variable that it
names in the scope that it stands in, and a `set'` also what this scope holds.

The first half is what `Undisturbed` says of an expression that may write to nothing.
For the second it is not enough to know which scope may be written to.  The value of a
`set` is an expression of the first kind, so it is left to look at the two moves that
come after it.

## Main results

* `evalSet_rebinds` — what a `set` does to the scope that it stands in.
* `Session.no_hidden_bindings` — what any evaluation does to the scopes there are.
-/

namespace ClauseLisp

/-- Whether an expression is a `set`. -/
def Expr.isSet : Expr → Bool
  | .set _ _ _ _ => true
  | _ => false

theorem Expr.access_of_isSet {e : Expr} (h : e.isSet = false) (scope : Nat) :
    e.access scope = .nothing := by
  cases e with
  | set name ty value claims => cases h
  | _ => rfl

/-- All scopes that there are stay as they are. -/
def Scopes.Same (ss ss' : Scopes Nat) : Prop :=
  ∀ i, i < ss.table.size → ss'.table[i]? = ss.table[i]?

/-! ## Writing to one variable -/

/-- A scope before and after a `set` of a name in it; if it `claims`, the scope may
take files over. -/
structure Scope.Rebound (name : String) (claims : Bool) (before after : Scope Nat) : Prop where
  parent : after.parent = before.parent
  frozen : after.frozen = before.frozen
  others : ∀ other, other ≠ name → after.vars.get? other = before.vars.get? other
  resources : claims = false → after.resources = before.resources

theorem Scope.Rebound.refl (name : String) (claims : Bool) (scope : Scope Nat) :
    scope.Rebound name claims scope :=
  ⟨rfl, rfl, fun _ _ => rfl, fun _ => rfl⟩

theorem Scope.Rebound.trans {name : String} {claims : Bool} {before between after : Scope Nat}
    (h : before.Rebound name claims between) (h' : between.Rebound name claims after) :
    before.Rebound name claims after where
  parent := h'.parent.trans h.parent
  frozen := h'.frozen.trans h.frozen
  others other hOther := (h'.others other hOther).trans (h.others other hOther)
  resources hClaims := (h'.resources hClaims).trans (h.resources hClaims)

/-- Of the scopes that there are, one may have got a variable of this name rebound, and
the others are the same. -/
def Scopes.Rebinds (scope : Nat) (name : String) (claims : Bool) (ss ss' : Scopes Nat) : Prop :=
  ∀ i before, ss.table[i]? = some before →
    ∃ after, ss'.table[i]? = some after ∧ before.Rebound name claims after ∧
      (i ≠ scope → after = before)

namespace Scopes.Rebinds

variable {scope : Nat} {name : String} {claims : Bool} {ss ss' ss'' : Scopes Nat}

theorem of_same (h : ss.Same ss') : Rebinds scope name claims ss ss' := by
  intro i before hBefore
  have hScope : i < ss.table.size := (Array.getElem?_eq_some_iff.mp hBefore).1
  exact ⟨before, (h i hScope).trans hBefore, .refl _ _ _, fun _ => rfl⟩

theorem refl : Rebinds scope name claims ss ss := of_same fun _ _ => rfl

theorem trans (h : Rebinds scope name claims ss ss') (h' : Rebinds scope name claims ss' ss'') :
    Rebinds scope name claims ss ss'' := by
  intro i before hBefore
  obtain ⟨between, hBetween, hRebound, hSame⟩ := h i before hBefore
  obtain ⟨after, hAfter, hRebound', hSame'⟩ := h' i between hBetween
  exact ⟨after, hAfter, hRebound.trans hRebound', fun hOther =>
    (hSame' hOther).trans (hSame hOther)⟩

/-- Changing one scope, as a `set` in it may. -/
theorem modify {f : Scope Nat → Scope Nat}
    (hf : ∀ before : Scope Nat, before.Rebound name claims (f before)) :
    Rebinds scope name claims ss ⟨ss.table.modify scope f⟩ := by
  intro i before hBefore
  by_cases hScope : scope = i
  · refine ⟨f before, ?_, hf before, fun hOther => absurd hScope.symm hOther⟩
    rw [Array.getElem?_modify, if_pos hScope, hBefore]
    rfl
  · refine ⟨before, ?_, .refl _ _ _, fun _ => rfl⟩
    rw [Array.getElem?_modify, if_neg hScope, hBefore]

theorem put (value : Value) : Rebinds scope name claims ss (ss.put scope name value) :=
  modify fun _ =>
    ⟨rfl, rfl, fun other hOther => by rw [Dict.get?_insert, if_neg (Ne.symm hOther)], fun _ => rfl⟩

theorem acquireAll (handles : List Nat) :
    Rebinds scope name true ss
      (handles.foldr (fun handle ss => ss.acquire scope handle) ss) := by
  induction handles with
  | nil => exact refl
  | cons handle handles ih =>
      exact ih.trans (modify fun _ => ⟨rfl, rfl, fun _ _ => rfl, fun h => nomatch h⟩)

end Scopes.Rebinds

/-! ## Evaluating a `set` -/

theorem bindIn_rebinds (scope : Nat) (name : String) (claims : Bool) (value : Value) (s : State) :
    Scopes.Rebinds scope name claims s.scopes (bindIn scope name value s).2.scopes := by
  unfold bindIn
  rw [Run.get_bind_apply]
  cases s.scopes.isFrozen scope with
  | true => exact .refl
  | false => exact .put value

/-- **A `set` rebinds its name in its own scope**, whether or not it succeeds. -/
theorem evalSet_rebinds {eval : Evaluator} (hEval : eval.Keeps Undisturbed) (name : String)
    (ty : Option Ty) {value : Expr} (claims : Bool) (scope : Nat) (h : value.isPlaced false = true)
    {s : State} (hPlaced : s.Placed) :
    Scopes.Rebinds scope name claims s.scopes
      (evalSet eval name ty value claims scope s).2.scopes := by
  have hValue : Kept Undisturbed .nothing s (evalChecked eval "set" ty value scope s).2 :=
    evalChecked_keeps undisturbed_frame "set" ty (eval_keeps hEval h scope) s hPlaced
      (Access.fitsIn_nothing s)
  rw [evalSet_apply, Run.bind_apply]
  rcases hRun : evalChecked eval "set" ty value scope s with ⟨stop | result, s'⟩ <;>
    rw [hRun] at hValue
  · exact .of_same fun i hScope => hValue.related.scopes i hScope nofun
  · have hSame : Scopes.Rebinds scope name claims s.scopes s'.scopes :=
      .of_same fun i hScope => hValue.related.scopes i hScope nofun
    have hBind : ∀ s'' : State, Scopes.Rebinds scope name claims s''.scopes
        ((bindIn scope name result >>= fun _ => pure result : Run Value) s'').2.scopes := by
      intro s''
      have hBound := bindIn_rebinds scope name claims result s''
      rw [Run.bind_apply]
      rcases hBindRun : bindIn scope name result s'' with ⟨stop | _, s₃⟩ <;> rw [hBindRun] at hBound
      · exact hBound
      · exact hBound
    cases claims with
    | false => exact hSame.trans (hBind s')
    | true =>
        have hClaimed : Scopes.Rebinds scope name true s'.scopes
            (s'.claimed s.unclaimed.length scope).scopes := .acquireAll _
        exact hSame.trans (hClaimed.trans (hBind _))

/-- A loop that starts with a `set` evaluates it and keeps its value, if it gets that far. -/
theorem loop_set_scopes {step : Task → Run Progress} {task : Task} {x : Run Value} {s : State}
    (hStep : step task s = (x >>= fun value => pure (.done value)) s) (fuel : Nat) :
    (loop step fuel task s).2.scopes = s.scopes ∨
      (loop step fuel task s).2.scopes = (x s).2.scopes := by
  cases fuel with
  | zero => exact .inl rfl
  | succ fuel =>
      refine .inr ?_
      rw [loop, Run.outcome_bind_apply, hStep, Run.bind_apply]
      rcases x s with ⟨stop | value, s'⟩ <;> rfl

/-- A machine works on a `set` in one loop, one level below it. -/
theorem exec_set_scopes {task : Task} {name : String} {ty : Option Ty} {value : Expr}
    {claims : Bool} (hTask : task.expr = .set name ty value claims) (fuel level : Nat) (s : State) :
    (exec fuel level (.work task) s).2.scopes = s.scopes ∨
      ∃ fuel', (exec fuel level (.work task) s).2.scopes =
        (evalSet (fun e scope => exec fuel' (level + 1) (.work { expr := e, scope })) name ty value
          claims task.scope s).2.scopes := by
  cases fuel with
  | zero => exact .inl rfl
  | succ fuel =>
      rw [exec]
      by_cases hLevel : level ≥ maxLevel
      · rw [if_pos hLevel]
        exact .inl rfl
      · rw [if_neg hLevel]
        refine (loop_set_scopes ?_ fuel).imp id fun h => ⟨fuel, h⟩
        simp only [step, hTask]

/-! ## Any evaluation -/

/-- **Evaluation has no hidden effects on bindings.**  The code of a session is placed
at any time, and stays so.  With such code, in any state and however an evaluation ends:
a call, or an expression that is not a `set`, leaves every scope that there is exactly
as it is; and a `set` changes, of these, the scope that it stands in only, and there the
variable that it names and, if it is a `set'`, the files that the scope holds. -/
theorem Session.no_hidden_bindings :
    (∀ s, Session.Reached s → s.Placed) ∧
      ∀ (s : State) (fuel level : Nat), s.Placed →
        (∀ function arguments,
          (exec fuel level (.call function arguments) s).2.Placed ∧
            s.scopes.Same (exec fuel level (.call function arguments) s).2.scopes) ∧
        ∀ (task : Task) (r : Ty.Registry) (allowSet : Bool),
          Form.Lowered r allowSet task.expr → task.scope < s.scopes.table.size →
            (exec fuel level (.work task) s).2.Placed ∧
            (task.expr.isSet = false →
              s.scopes.Same (exec fuel level (.work task) s).2.scopes) ∧
            ∀ name ty value claims, task.expr = .set name ty value claims →
              Scopes.Rebinds task.scope name claims s.scopes
                (exec fuel level (.work task) s).2.scopes := by
  refine ⟨fun s hReached => hReached.ready.placed, fun s fuel level hPlaced => ⟨?_, ?_⟩⟩
  · intro function arguments
    have hKept : Kept Undisturbed .nothing s (exec fuel level (.call function arguments) s).2 :=
      exec_keeps undisturbed_frame fuel level (.call function arguments) trivial s hPlaced
        (Access.fitsIn_nothing s)
    exact ⟨hKept.placed, fun i hScope => hKept.related.scopes i hScope nofun⟩
  · intro task r allowSet hLowered hScope
    have hTask : task.expr.isPlaced true = true := by
      cases allowSet with
      | true => exact hLowered.isPlaced
      | false => exact Expr.isPlaced_of_false true hLowered.isPlaced
    have hFits : (task.expr.access task.scope).FitsIn s := by
      refine Access.FitsIn.within ?_ (task.expr.access_within task.scope)
      intro scope hAll
      cases hAll
      exact hScope
    have hKept : Kept Undisturbed (task.expr.access task.scope) s
        (exec fuel level (.work task) s).2 :=
      exec_keeps undisturbed_frame fuel level (.work task) hTask s hPlaced hFits
    refine ⟨hKept.placed, fun hSet i hOld => ?_, fun name ty value claims hSet => ?_⟩
    · have hNothing := Expr.access_of_isSet hSet task.scope
      exact hKept.related.scopes i hOld (by rw [hNothing]; exact nofun)
    · rw [hSet] at hTask
      rcases exec_set_scopes hSet fuel level s with hScopes | ⟨fuel', hScopes⟩
      · rw [hScopes]
        exact .refl
      · rw [hScopes]
        refine evalSet_rebinds (fun e scope hPlaced => ?_) name ty claims task.scope hTask hPlaced
        exact exec_keeps undisturbed_frame fuel' (level + 1) (.work { expr := e, scope }) hPlaced

namespace Session

/-- A session with a function that binds a name of the outermost scope in its own. -/
def shadowing : State :=
  ((Use.text (fun path => .error (.unread path)) 99
    "(def f (n) (do (set x (+ n 1)) x)) (set x 1)").perform
      { Session.start {} with files := default, hosts := {} }).2

/-- A call of the function, at top level. -/
def shadowingCall : Task := { expr := .call (.var "f") [.lit (.int 5)], scope := Scopes.globals }

/-- The call binds `x` to 6, and `x` is 1 outside, before and after it. -/
theorem no_hidden_bindings_of_shadowing :
    Reached shadowing ∧ shadowing.scopes.get? Scopes.globals "x" = some (.int 1) ∧
      (exec 99 0 (.work shadowingCall) shadowing).1 = .ok (.int 6) ∧
      shadowing.scopes.Same (exec 99 0 (.work shadowingCall) shadowing).2.scopes := by
  have hReached : Reached shadowing := .after _ (.start _ _ .empty)
  have hLowered : Form.Lowered {} true shadowingCall.expr := by
    refine .call (.var "f") fun e he => ?_
    rw [List.mem_singleton.mp he]
    exact .lit (.int 5)
  have hPlaced : shadowing.Placed := no_hidden_bindings.1 shadowing hReached
  obtain ⟨-, hWork⟩ := no_hidden_bindings.2 shadowing 99 0 hPlaced
  obtain ⟨-, hSame, -⟩ := hWork shadowingCall {} true hLowered hReached.ready.globals
  exact ⟨hReached, by cbv, by cbv, hSame rfl⟩

end Session

end ClauseLisp
