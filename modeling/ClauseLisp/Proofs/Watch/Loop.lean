import ClauseLisp.Proofs.Watch.Machine

/-!
# Watched loops

One step of a loop is the same in the watched machine, and goes on with a task that is
where it may be and fills slots that may be waited for.  So whole loops are the same, and
everything that the machine can be asked to do.

## Main results

* `Guide.step_follows` — one step of the loop.
* `Guide.loop_follows` — a whole loop.
* `Guide.exec_follows` — whatever the machine is asked to do.
-/

namespace ClauseLisp

theorem leaveScope_quiet {α : Type} (scope : Nat) (outcome : Except Stop α) (s : State) :
    s.Quiet (leaveScope scope outcome s).2 :=
  .left s scope

/-- Leaving a scope does not undo an error. -/
theorem leaveScope_error {α : Type} (scope : Nat) (stop : Stop) (s : State) (value : α) :
    (leaveScope scope (.error stop) s).1 ≠ .ok value := by
  intro h
  cases h

namespace Guide

variable {γ : Guide}

/-- A task that is where it may be and fills slots that may be waited for. -/
structure Ready (γ : Guide) (r : γ.Record) (task : Task) : Prop where
  home : γ.Home r task.expr task.scope
  pending : ∀ slot ∈ task.pending, γ.Awaits r slot

theorem Ready.mono {r r' : γ.Record} {task : Task} (h : γ.Ready r task) (hLe : γ.le r r') :
    γ.Ready r' task :=
  ⟨γ.home_mono hLe h.home, fun slot hSlot => γ.awaits_mono hLe (h.pending slot hSlot)⟩

/-- A step that has a value, or goes on with a task that is ready. -/
def Proceeds (γ : Guide) (r : γ.Record) : Progress → Prop
  | .done _ => True
  | .next task => γ.Ready r task

/-! ## Evaluating parts -/

section

variable {eval : Evaluator} {evalW : Watch → Evaluator} (hEval : γ.FollowsEval eval evalW)

include hEval

theorem evalAll_follows {scope : Nat} :
    ∀ (es : List Expr) {r : γ.Record}, (∀ e ∈ es, γ.Home r e scope) →
      γ.Follows r (evalAll eval scope es) fun w => evalAll (evalW w) scope es := by
  intro es
  induction es with
  | nil => exact fun _ => .pure _
  | cons e es ih =>
      intro r hHome
      obtain ⟨hFirst, hRest⟩ := List.forall_mem_cons.mp hHome
      refine .bind (hEval hFirst) fun value r' hLe => ?_
      exact .bind (ih fun e he => γ.home_mono hLe (hRest e he)) fun values r'' _ => .pure _

theorem evalLogical_follows (form : String) (decisive : Bool) {scope : Nat} :
    ∀ (es : List Expr) {r : γ.Record}, (∀ e ∈ es, γ.Home r e scope) →
      γ.Follows r (evalLogical eval form decisive scope es)
        fun w => evalLogical (evalW w) form decisive scope es := by
  intro es
  induction es with
  | nil => exact fun _ => .pure _
  | cons e es ih =>
      intro r hHome
      obtain ⟨hFirst, hRest⟩ := List.forall_mem_cons.mp hHome
      refine .bind (hEval hFirst) fun value r' hLe => ?_
      cases value.untagged with
      | bool b =>
          dsimp only
          split
          · exact .pure _
          · exact ih fun e he => γ.home_mono hLe (hRest e he)
      | _ => exact get_fail_follows fun s => .typing (.operand form (s.repr _))

theorem evalChecked_follows (form : String) (ty : Option Ty) {r : γ.Record} {e : Expr}
    {scope : Nat} (h : γ.Home r e scope) :
    γ.Follows r (evalChecked eval form ty e scope)
      fun w => evalChecked (evalW w) form ty e scope := by
  refine .bind (hEval h) fun value r' _ => ?_
  cases ty with
  | some ty => exact requireType_follows form ty value
  | none => exact .pure value

theorem evalSet_follows {r : γ.Record} {name : String} {ty : Option Ty} {value : Expr}
    {claims : Bool} {scope : Nat} (h : γ.Home r (.set name ty value claims) scope) :
    γ.Follows r (evalSet eval name ty value claims scope)
      fun w => evalSet (evalW w) name ty value claims scope := by
  have hPart : γ.Home r value scope := γ.home_part h List.mem_cons_self
  have hAll : ∀ s : State, γ.Follows r
      (evalChecked eval "set" ty value scope >>= fun result =>
        (if claims then claimSince s.unclaimed.length scope else pure ()) >>= fun _ =>
          bindIn scope name result >>= fun _ => pure result)
      fun w => evalChecked (evalW w) "set" ty value scope >>= fun result =>
        (if claims then claimSince s.unclaimed.length scope else pure ()) >>= fun _ =>
          bindIn scope name result >>= fun _ => pure result := by
    intro s
    refine .bind (evalChecked_follows hEval "set" ty hPart) fun result r₁ hLe₁ => ?_
    have hClaim : γ.Follows r₁
        (if claims then claimSince s.unclaimed.length scope else pure () : Run Unit)
        fun _ => if claims then claimSince s.unclaimed.length scope else pure () := by
      cases claims with
      | true => exact .of_quiet fun s' => .claimed s' s.unclaimed.length scope
      | false => exact .pure ()
    refine .bind hClaim fun _ r₂ hLe₂ => ?_
    refine .bind (bindIn_follows ?_ result) fun _ r₃ _ => .pure result
    exact γ.binds_mono (γ.le_trans hLe₁ hLe₂) (γ.binds_set h)
  intro s hValid
  obtain ⟨r', hLe, hEnd, hSame⟩ := hAll s s hValid
  simp only [evalSet_apply]
  exact ⟨r', hLe, hEnd, hSame⟩

/-! ## Blocks -/

theorem evalLast_follows (cast : Option Ty) {r : γ.Record} {last : Expr} {scope : Nat}
    (h : γ.Home r last scope) :
    γ.Follows r (evalLast eval cast last scope) fun w => evalLast (evalW w) cast last scope :=
  evalChecked_follows hEval "do" cast h

theorem evalBlock_follows {r : γ.Record} {task : Task} {body : List Expr} {cast : Option Ty}
    (hMakes : γ.Makes r (.block task.scope body cast))
    (hPending : ∀ slot ∈ task.pending, γ.Awaits r slot) :
    γ.FollowsTo γ.Proceeds r (evalBlock eval task body cast)
      fun w => w.guard (w.enter (.block task.scope body cast)) >>= fun _ =>
        evalBlock (evalW w) task body cast := by
  refine .enter hMakes fun scope r₁ hLe₁ _ hHome => ?_
  cases hLast : body.getLast? with
  | none => exact .pure fun _ _ => trivial
  | some last =>
      dsimp only
      refine .after_outcome (evalAll_follows hEval _ fun e he =>
        hHome e (List.dropLast_subset body he)) fun outcome r₂ hLe₂ => ?_
      have hLastHome : γ.Home r₂ last scope :=
        γ.home_mono hLe₂ (hHome last (List.mem_of_getLast? hLast))
      cases outcome with
      | error stop =>
          exact .of_follows (.of_quiet (leaveScope_quiet scope _))
            fun _ s value h => absurd h (leaveScope_error scope stop s value)
      | ok values =>
          dsimp only
          have hLeft : ∀ r₃, γ.le r₂ r₃ → γ.FollowsTo γ.Proceeds r₃
              ((evalLast eval cast last scope).outcome >>= fun outcome =>
                leaveScope scope outcome >>= fun value => pure (.done value))
              fun w => (evalLast (evalW w) cast last scope).outcome >>= fun outcome =>
                leaveScope scope outcome >>= fun value => pure (.done value) := by
            intro r₃ hLe₃
            refine .after_outcome (evalLast_follows hEval cast (γ.home_mono hLe₃ hLastHome))
              fun outcome r₄ _ => ?_
            exact .after (.of_quiet (leaveScope_quiet scope outcome)) fun value r₅ _ =>
              .pure fun _ _ => trivial
          refine .after .get fun s r₃ hLe₃ => ?_
          split
          · refine .pure fun r₄ hLe₄ => ⟨γ.home_mono (γ.le_trans hLe₃ hLe₄) hLastHome, ?_⟩
            intro slot hSlot
            have hLe : γ.le r r₄ := γ.le_trans hLe₁ (γ.le_trans hLe₂ (γ.le_trans hLe₃ hLe₄))
            exact γ.awaits_mono hLe (hPending slot hSlot)
          · exact hLeft r₃ hLe₃

end

/-! ## Steps -/

theorem newClosure_follows {r : γ.Record} {params : List Pattern} {ret : Option Ty} {body : Expr}
    {scope : Nat} (h : γ.Home r (.lambda params ret body) scope) :
    γ.Follows r (newClosure (Clause.ofLambda params ret body) scope)
      fun _ => newClosure (Clause.ofLambda params ret body) scope :=
  fun _ hValid => ⟨r, γ.le_refl r, γ.closed hValid h, fun _ _ => rfl⟩

theorem resolve_follows {r : γ.Record} (name : String) (scope : Nat) :
    γ.Follows r (resolve name scope) fun _ => resolve name scope := by
  refine .bind .get fun s r' _ => ?_
  split
  · exact .pure _
  · split
    · exact .pure _
    · exact .fail _

/-- A step that ends the loop. -/
theorem value_follows {r : γ.Record} {x : Run Value} {y : Watch → Run Value}
    (h : γ.Follows r x y) :
    γ.FollowsTo γ.Proceeds r (x >>= fun value => pure (.done value))
      fun w => y w >>= fun value => pure (.done value) :=
  .after h fun _ _ _ => .pure fun _ _ => trivial

section

variable {eval : Evaluator} {evalW : Watch → Evaluator} (hEval : γ.FollowsEval eval evalW)
  {call : Caller} {callW : Watch → Caller} (hCall : γ.FollowsCall call callW)

include hEval hCall

/-- **One step of the loop** is the same, and goes on with a task that is ready. -/
theorem step_follows (fuel : Nat) {r : γ.Record} {task : Task} (hTask : γ.Ready r task) :
    γ.FollowsTo γ.Proceeds r (ClauseLisp.step eval call fuel task)
      fun w => w.stepOf (evalW w) (callW w) fuel task := by
  obtain ⟨e, scope, function, pending⟩ := task
  obtain ⟨hHome, hPending⟩ := hTask
  refine .guard ?_ fun s w hValid hSees => γ.step hValid hHome hPending hSees
  cases e with
  | lit value => exact .pure fun _ _ => trivial
  | var name => exact value_follows (resolve_follows name scope)
  | cond test yes no =>
      refine .after (hEval (γ.home_part hHome List.mem_cons_self)) fun value r' hLe => ?_
      cases value.untagged with
      | bool b =>
          have hBranch : (if b then yes else no) ∈ (Expr.cond test yes no).parts := by
            cases b <;> simp [Expr.parts]
          refine .pure fun r'' hLe' => ⟨?_, fun slot hSlot => ?_⟩
          · exact γ.home_mono (γ.le_trans hLe hLe') (γ.home_part hHome hBranch)
          · exact γ.awaits_mono (γ.le_trans hLe hLe') (hPending slot hSlot)
      | _ => exact .of_follows (get_fail_follows fun s => .typing (.condition (s.repr _))) nofun
  | block body cast => exact evalBlock_follows hEval (γ.makes_block hHome) hPending
  | set name ty value claims => exact value_follows (evalSet_follows hEval hHome)
  | lambda params ret body => exact value_follows (newClosure_follows hHome)
  | conj operands =>
      exact value_follows (evalLogical_follows hEval "and" false operands fun e he =>
        γ.home_part hHome he)
  | disj operands =>
      exact value_follows (evalLogical_follows hEval "or" true operands fun e he =>
        γ.home_part hHome he)
  | call callee args =>
      refine .after (hEval (γ.home_part hHome List.mem_cons_self)) fun function r₁ hLe₁ => ?_
      refine .after (evalAll_follows hEval args fun e he =>
        γ.home_mono hLe₁ (γ.home_part hHome (List.mem_cons_of_mem _ he))) fun arguments r₂ hLe₂ => ?_
      refine .bind (beginCall_follows hCall fuel function arguments) fun begun r₃ hLe₃ hFits => ?_
      cases begun with
      | done value => exact .pure fun _ _ => trivial
      | enter activation =>
          refine .pure fun r₄ hLe₄ => ⟨γ.home_mono hLe₄ hFits.body, fun slot hSlot => ?_⟩
          rcases List.mem_append.mp hSlot with hSlot | hSlot
          · exact γ.awaits_mono hLe₄ (hFits.memo slot hSlot)
          · have hLe : γ.le r r₄ := γ.le_trans hLe₁ (γ.le_trans hLe₂ (γ.le_trans hLe₃ hLe₄))
            exact γ.awaits_mono hLe (hPending slot hSlot)

end

/-! ## Loops -/

/-- **A loop** is the same if its steps are. -/
theorem loop_follows {step : Task → Run Progress} {stepW : Watch → Task → Run Progress}
    (hStep : ∀ {r : γ.Record} {task : Task}, γ.Ready r task →
      γ.FollowsTo γ.Proceeds r (step task) fun w => stepW w task) (fuel : Nat) :
    ∀ {r : γ.Record} {task : Task}, γ.Ready r task →
      γ.Follows r (loop step fuel task) fun w => loop (stepW w) fuel task := by
  induction fuel with
  | zero => exact fun _ => .throw .outOfFuel
  | succ fuel ih =>
      intro r task hTask
      simp only [loop]
      refine FollowsTo.follows ((hStep hTask).outcome_bind fun outcome r' hLe hProceeds =>
        Follows.plain ?_)
      rcases outcome with stop | value | next
      · exact .throw _
      · refine .bind (fun s hValid => ?_) fun _ r'' _ => .pure value
        exact ⟨r', γ.le_refl r', γ.kept value hValid (hTask.mono hLe).pending, fun _ _ => rfl⟩
      · exact ih (hProceeds _ rfl)

/-! ## Requests -/

/-- A task that is ready, or any call. -/
def Accepts (γ : Guide) (r : γ.Record) : Request → Prop
  | .work task => γ.Ready r task
  | .call _ _ => True

/-- **Whatever the machine is asked to do**, the watched one does the same. -/
theorem exec_follows (fuel : Nat) :
    ∀ (level : Nat) {r : γ.Record} {request : Request}, γ.Accepts r request →
      γ.Follows r (exec fuel level request) fun w => w.exec fuel level request := by
  induction fuel with
  | zero => exact fun _ _ _ _ => .throw .outOfFuel
  | succ fuel ih =>
      intro level r request hRequest
      cases request with
      | work task =>
          simp only [exec, Watch.exec]
          split
          · exact .fail _
          · refine loop_follows (fun hTask => step_follows ?_ ?_ fuel hTask) fuel hRequest
            · exact fun hHome => ih (level + 1) ⟨hHome, List.forall_mem_nil _⟩
            · exact fun r' function arguments => ih (level + 1) trivial
      | call function arguments =>
          have hCall : γ.FollowsCall (fun f args => exec fuel level (.call f args))
              fun w f args => w.exec fuel level (.call f args) := fun r' f args => ih level trivial
          simp only [exec, Watch.exec]
          refine (FollowsTo.bind (Q := fun _ _ => True) (beginCall_follows hCall fuel function
            arguments) fun begun r' _ hFits => ?_).follows
          cases begun with
          | done value => exact .pure fun _ _ => trivial
          | enter activation =>
              exact .of_follows (ih level ⟨hFits.body, hFits.memo⟩) fun _ _ _ _ => trivial

end Guide

end ClauseLisp
