import ClauseLisp.Machine.Eval
import ClauseLisp.Proofs.CallsByName
import ClauseLisp.Proofs.Refinement.Basic

/-!
# The machine is monotone in its evaluator

Everything between two evaluations — forcing lazy lists, memo keys, builtins,
the choice of a clause — takes the way to call a function and a bound on the
lengths of lists as parameters, and a step of the loop takes the way to
evaluate as well.  Replacing these by ones that they refine to, and the bound
by a larger one, refines each of these computations.  None of the proofs looks
into `call` or `eval`: they follow the text of the definitions, and only the
loops over lists need an induction, on the smaller bound.

## Main results

* `beginCall_refines` — what a call begins with.
* `step_refines` — one step of the loop.
-/

namespace ClauseLisp

/-- One way to call functions refines to another, call by call. -/
def Caller.Refines (call call' : Caller) : Prop :=
  ∀ function arguments,
    ClauseLisp.Refines (call function arguments) (call' function arguments)

variable {call call' : Caller}

/-! ## Forcing lazy lists -/

theorem force_refines (hCall : call.Refines call') (node : Nat) :
    Refines (force call node) (force call' node) := by
  unfold force
  refine Refines.bind (Refines.refl _) fun s => ?_
  cases s.nodes[node]? with
  | none => exact Refines.refl _
  | some n =>
      cases hForced : n.outcome with
      | some forced => simp only [hForced]; exact Refines.refl _
      | none =>
          simp only [hForced]
          exact Refines.bind (hCall n.iterator [n.state]) fun _ => Refines.refl _

theorem uncons_refines (hCall : call.Refines call') (context : String) (value : Value) :
    Refines (uncons call context value) (uncons call' context value) := by
  unfold uncons
  cases value.untagged with
  | lazy node => exact Refines.bind (force_refines hCall node) fun _ => Refines.refl _
  | _ => exact Refines.refl _

theorem exposeHead_refines (hCall : call.Refines call') (value : Value) :
    Refines (exposeHead call value) (exposeHead call' value) := by
  unfold exposeHead
  cases value with
  | lazy node => exact Refines.bind (force_refines hCall node) fun _ => Refines.refl _
  | _ => exact Refines.refl _

theorem elementsOnto_refines (hCall : call.Refines call') (context : String) {fuel : Nat} :
    ∀ {fuel' : Nat}, fuel ≤ fuel' → ∀ (done : List Value) (value : Value),
      Refines (elementsOnto call context fuel done value)
        (elementsOnto call' context fuel' done value) := by
  induction fuel with
  | zero => intro fuel' _ done value; exact Refines.of_outOfFuel _
  | succ fuel ih =>
      intro fuel' hFuel done value
      obtain ⟨fuel', rfl⟩ : ∃ n, fuel' = n + 1 := ⟨fuel' - 1, by omega⟩
      refine Refines.bind (uncons_refines hCall context value) fun cell => ?_
      cases cell with
      | none => exact Refines.refl _
      | some parts => exact ih (by omega) (parts.1 :: done) parts.2

theorem elements_refines (hCall : call.Refines call') {fuel fuel' : Nat} (hFuel : fuel ≤ fuel')
    (context : String) (value : Value) :
    Refines (elements call fuel context value) (elements call' fuel' context value) :=
  elementsOnto_refines hCall context hFuel [] value

/-! ## Memo keys -/

theorem listKeyOnto_refines (hCall : call.Refines call') {key key' : Value → Run String}
    (hKey : ∀ value, Refines (key value) (key' value)) {fuel : Nat} :
    ∀ {fuel' : Nat}, fuel ≤ fuel' → ∀ (done : String) (value : Value),
      Refines (listKeyOnto call key fuel done value)
        (listKeyOnto call' key' fuel' done value) := by
  induction fuel with
  | zero => intro fuel' _ done value; exact Refines.of_outOfFuel _
  | succ fuel ih =>
      intro fuel' hFuel done value
      obtain ⟨fuel', rfl⟩ : ∃ n, fuel' = n + 1 := ⟨fuel' - 1, by omega⟩
      refine Refines.bind (uncons_refines hCall "memo" value) fun cell => ?_
      cases cell with
      | none => exact Refines.refl _
      | some parts => exact Refines.bind (hKey parts.1) fun _ => ih (by omega) _ parts.2

theorem valueKey_refines (hCall : call.Refines call') {fuel : Nat} :
    ∀ {fuel' : Nat}, fuel ≤ fuel' → ∀ value : Value,
      Refines (valueKey call fuel value) (valueKey call' fuel' value) := by
  induction fuel with
  | zero => intro fuel' _ value; exact Refines.of_outOfFuel _
  | succ fuel ih =>
      intro fuel' hFuel value
      obtain ⟨fuel', rfl⟩ : ∃ n, fuel' = n + 1 := ⟨fuel' - 1, by omega⟩
      have hLe : fuel ≤ fuel' := by omega
      have hList : ∀ value : Value,
          Refines
            (do
              let items ← listKeyOnto call (valueKey call fuel) fuel "(" value
              return items ++ ")")
            (do
              let items ← listKeyOnto call' (valueKey call' fuel') fuel' "(" value
              return items ++ ")") :=
        fun value =>
          Refines.bind (listKeyOnto_refines hCall (fun v => ih hLe v) hLe "(" value)
            fun _ => Refines.refl _
      cases value with
      | tagged name inner => exact Refines.bind (ih hLe inner) fun _ => Refines.refl _
      | nil => exact hList .nil
      | cell head tail elem => exact hList (.cell head tail elem)
      | lazy node => exact hList (.lazy node)
      | _ => exact Refines.refl _

theorem callKey_refines (hCall : call.Refines call') {fuel fuel' : Nat} (hFuel : fuel ≤ fuel')
    (arguments : List Value) :
    Refines (callKey call fuel arguments) (callKey call' fuel' arguments) := by
  have hOnto : ∀ (arguments : List Value) (done : String),
      Refines (callKeyOnto call fuel done arguments)
        (callKeyOnto call' fuel' done arguments) := by
    intro arguments
    induction arguments with
    | nil => intro done; exact Refines.refl _
    | cons argument arguments ih =>
        intro done
        exact Refines.bind (valueKey_refines hCall hFuel argument) fun _ => ih _
  exact hOnto arguments ""

/-! ## Builtins -/

theorem listsEqual_refines (hCall : call.Refines call') {equal equal' : Value → Value → Run Bool}
    (hEqual : ∀ left right, Refines (equal left right) (equal' left right)) {fuel : Nat} :
    ∀ {fuel' : Nat}, fuel ≤ fuel' → ∀ left right : Value,
      Refines (listsEqual call equal fuel left right)
        (listsEqual call' equal' fuel' left right) := by
  induction fuel with
  | zero => intro fuel' _ left right; exact Refines.of_outOfFuel _
  | succ fuel ih =>
      intro fuel' hFuel left right
      obtain ⟨fuel', rfl⟩ : ∃ n, fuel' = n + 1 := ⟨fuel' - 1, by omega⟩
      refine Refines.bind (uncons_refines hCall "=" left) fun leftCell => ?_
      refine Refines.bind (uncons_refines hCall "=" right) fun rightCell => ?_
      cases leftCell with
      | none => cases rightCell <;> exact Refines.refl _
      | some leftParts =>
          cases rightCell with
          | none => exact Refines.refl _
          | some rightParts =>
              refine Refines.bind (hEqual leftParts.1 rightParts.1) fun same => ?_
              split
              · exact ih (by omega) leftParts.2 rightParts.2
              · exact Refines.refl _

theorem equalForced_refines (hCall : call.Refines call') {fuel : Nat} :
    ∀ {fuel' : Nat}, fuel ≤ fuel' → ∀ left right : Value,
      Refines (equalForced call fuel left right) (equalForced call' fuel' left right) := by
  induction fuel with
  | zero => intro fuel' _ left right; exact Refines.of_outOfFuel _
  | succ fuel ih =>
      intro fuel' hFuel left right
      obtain ⟨fuel', rfl⟩ : ∃ n, fuel' = n + 1 := ⟨fuel' - 1, by omega⟩
      have hLe : fuel ≤ fuel' := by omega
      rw [equalForced, equalForced]
      split
      · exact listsEqual_refines hCall (fun l r => ih hLe l r) hLe left right
      · exact Refines.refl _

theorem allEqual_refines (hCall : call.Refines call') {fuel fuel' : Nat} (hFuel : fuel ≤ fuel') :
    ∀ arguments : List Value,
      Refines (allEqual call fuel arguments) (allEqual call' fuel' arguments) := by
  intro arguments
  induction arguments with
  | nil => exact Refines.refl _
  | cons left rest ih =>
      cases rest with
      | nil => exact Refines.refl _
      | cons right rest =>
          rw [allEqual, allEqual]
          refine Refines.bind (equalForced_refines hCall hFuel left right) fun same => ?_
          split
          · exact ih
          · exact Refines.refl _

theorem elementsOfAll_refines (hCall : call.Refines call') {fuel fuel' : Nat}
    (hFuel : fuel ≤ fuel') (context : String) :
    ∀ values : List Value,
      Refines (elementsOfAll call fuel context values)
        (elementsOfAll call' fuel' context values) := by
  intro values
  induction values with
  | nil => exact Refines.refl _
  | cons value values ih =>
      refine Refines.bind (elements_refines hCall hFuel context value) fun items => ?_
      exact Refines.bind ih fun _ => Refines.refl _

theorem concatAll_refines (hCall : call.Refines call') {fuel fuel' : Nat} (hFuel : fuel ≤ fuel')
    (arguments : List Value) :
    Refines (concatAll call fuel arguments) (concatAll call' fuel' arguments) := by
  unfold concatAll
  cases arguments.getLast? with
  | none => exact Refines.refl _
  | some last =>
      cases textsOf? arguments with
      | some texts => exact Refines.refl _
      | none =>
          cases firstNonList 0 arguments with
          | some found => exact Refines.refl _
          | none =>
              exact Refines.bind
                (elementsOfAll_refines hCall hFuel "concat" arguments.dropLast)
                fun _ => Refines.refl _

theorem forceLists_refines (hCall : call.Refines call') {fuel fuel' : Nat} (hFuel : fuel ≤ fuel')
    (context : String) :
    ∀ values : List Value,
      Refines (forceLists call fuel context values) (forceLists call' fuel' context values) := by
  intro values
  induction values with
  | nil => exact Refines.refl _
  | cons value values ih =>
      unfold forceLists
      split
      · exact Refines.bind (elements_refines hCall hFuel context value) fun _ => ih
      · exact ih

theorem intrinsic_refines (hCall : call.Refines call') {fuel fuel' : Nat} (hFuel : fuel ≤ fuel')
    (arguments : List Value) (intrinsic : Intrinsic) :
    Refines (intrinsic.run call fuel arguments) (intrinsic.run call' fuel' arguments) := by
  cases intrinsic with
  | equal =>
      exact Refines.bind (allEqual_refines hCall hFuel arguments) fun _ => Refines.refl _
  | head =>
      refine Refines.bind (Refines.refl _) fun list => ?_
      exact Refines.bind (uncons_refines hCall "head" list) fun _ => Refines.refl _
  | tail =>
      refine Refines.bind (Refines.refl _) fun list => ?_
      exact Refines.bind (uncons_refines hCall "tail" list) fun _ => Refines.refl _
  | isEmpty =>
      refine Refines.bind (Refines.refl _) fun list => ?_
      exact Refines.bind (uncons_refines hCall "empty?" list) fun _ => Refines.refl _
  | concat => exact concatAll_refines hCall hFuel arguments
  | print =>
      exact Refines.bind (forceLists_refines hCall hFuel "print" arguments)
        fun _ => Refines.refl _
  | gen => exact Refines.refl _
  | openFile => exact Refines.refl _
  | readChar => exact Refines.refl _

theorem builtin_refines (hCall : call.Refines call') {fuel fuel' : Nat} (hFuel : fuel ≤ fuel')
    (b : Builtin) (arguments : List Value) :
    Refines (b.run call fuel arguments) (b.run call' fuel' arguments) := by
  unfold Builtin.run
  cases b.body with
  | operation operation => exact Refines.refl _
  | machine intrinsic => exact intrinsic_refines hCall hFuel arguments intrinsic

/-! ## Calls -/

theorem exposeWhere_refines (hCall : call.Refines call') (isLiteral : Nat → Bool) :
    ∀ (arguments : List Value) (position : Nat),
      Refines (exposeWhere call isLiteral position arguments)
        (exposeWhere call' isLiteral position arguments) := by
  intro arguments
  induction arguments with
  | nil => intro position; exact Refines.refl _
  | cons argument arguments ih =>
      intro position
      rw [exposeWhere, exposeWhere]
      have hRest : ∀ first : Value,
          Refines
            (do
              let rest ← exposeWhere call isLiteral (position + 1) arguments
              return first :: rest)
            (do
              let rest ← exposeWhere call' isLiteral (position + 1) arguments
              return first :: rest) :=
        fun _ => Refines.bind (ih (position + 1)) fun _ => Refines.refl _
      split
      · exact Refines.bind (exposeHead_refines hCall argument) hRest
      · exact Refines.bind (Refines.refl _) hRest

theorem beginClosure_refines (hCall : call.Refines call') (closure : Closure)
    (arguments : List Value) :
    Refines (beginClosure call closure arguments) (beginClosure call' closure arguments) := by
  unfold beginClosure
  dsimp only
  split
  · exact Refines.bind (Refines.refl _) fun _ =>
      Refines.bind (exposeWhere_refines hCall _ arguments 0) fun _ => Refines.refl _
  · exact Refines.bind (exposeWhere_refines hCall _ arguments 0) fun _ => Refines.refl _

theorem beginFunction_refines (hCall : call.Refines call') {fuel fuel' : Nat}
    (hFuel : fuel ≤ fuel') (name : String) (clauses : List Clause) (isLiteral : Nat → Bool)
    (arguments : List Value) :
    Refines (beginFunction call fuel name clauses isLiteral arguments)
      (beginFunction call' fuel' name clauses isLiteral arguments) := by
  unfold beginFunction
  refine Refines.bind (exposeWhere_refines hCall isLiteral arguments 0) fun arguments => ?_
  refine Refines.bind (Refines.refl _) fun clause => ?_
  split
  · exact Refines.bind (callKey_refines hCall hFuel arguments) fun _ => Refines.refl _
  · exact Refines.refl _

theorem beginByName_refines (hCall : call.Refines call') {fuel fuel' : Nat}
    (hFuel : fuel ≤ fuel') (name : String) (arguments : List Value) :
    Refines (beginByName call fuel name arguments) (beginByName call' fuel' name arguments) := by
  intro s
  obtain ⟨run, hCalls, hRun⟩ := exists_callsByName s name arguments
  rw [hRun, hRun]
  cases hCalls with
  | @function f => exact beginFunction_refines hCall hFuel name f.clauses f.litAt arguments s
  | tag => exact Refines.refl _ s
  | host => exact Refines.refl _ s
  | @builtin b =>
      have hBuiltin := (builtin_refines hCall hFuel b arguments).mapError_inOperation name
      exact Refines.bind hBuiltin (fun _ => Refines.refl _) s
  | refused error => exact Refines.refl _ s

/-- **What a call begins with is monotone.**  Of all that happens before the
body of a call is evaluated, only the calls of iterators depend on `call`. -/
theorem beginCall_refines (hCall : call.Refines call') {fuel fuel' : Nat}
    (hFuel : fuel ≤ fuel') (function : Value) (arguments : List Value) :
    Refines (beginCall call fuel function arguments)
      (beginCall call' fuel' function arguments) := by
  unfold beginCall
  cases function.untagged with
  | lambda id =>
      refine Refines.bind (Refines.refl _) fun s => ?_
      cases s.closures[id]? with
      | some closure => exact beginClosure_refines hCall closure arguments
      | none => exact Refines.refl _
  | func name => exact beginByName_refines hCall hFuel name arguments
  | _ => exact Refines.refl _

/-! ## Evaluation -/

/-- One way to evaluate refines to another, expression by expression. -/
def Evaluator.Refines (eval eval' : Evaluator) : Prop :=
  ∀ e scope, ClauseLisp.Refines (eval e scope) (eval' e scope)

variable {eval eval' : Evaluator}

theorem evalAll_refines (hEval : eval.Refines eval') (scope : Nat) :
    ∀ es : List Expr, Refines (evalAll eval scope es) (evalAll eval' scope es) := by
  intro es
  induction es with
  | nil => exact Refines.refl _
  | cons e es ih =>
      refine Refines.bind (hEval e scope) fun value => ?_
      exact Refines.bind ih fun _ => Refines.refl _

theorem evalLogical_refines (hEval : eval.Refines eval') (form : String) (decisive : Bool)
    (scope : Nat) :
    ∀ es : List Expr,
      Refines (evalLogical eval form decisive scope es)
        (evalLogical eval' form decisive scope es) := by
  intro es
  induction es with
  | nil => exact Refines.refl _
  | cons e es ih =>
      rw [evalLogical, evalLogical]
      refine Refines.bind (hEval e scope) fun value => ?_
      cases value.untagged with
      | bool b =>
          simp only
          split
          · exact Refines.refl _
          · exact ih
      | _ => exact Refines.refl _

theorem evalSet_refines (hEval : eval.Refines eval') (name : String) (ty : Option Ty)
    (value : Expr) (claims : Bool) (scope : Nat) :
    Refines (evalSet eval name ty value claims scope)
      (evalSet eval' name ty value claims scope) := by
  unfold evalSet
  refine Refines.bind (Refines.refl _) fun s => ?_
  exact Refines.bind (hEval value scope) fun _ => Refines.refl _

theorem evalLast_refines (hEval : eval.Refines eval') (cast : Option Ty) (last : Expr)
    (scope : Nat) :
    Refines (evalLast eval cast last scope) (evalLast eval' cast last scope) :=
  Refines.bind (hEval last scope) fun _ => Refines.refl _

theorem evalBlock_refines (hEval : eval.Refines eval') (task : Task) (body : List Expr)
    (cast : Option Ty) :
    Refines (evalBlock eval task body cast) (evalBlock eval' task body cast) := by
  unfold evalBlock
  refine Refines.bind (Refines.refl _) fun scope => ?_
  cases body.getLast? with
  | none => exact Refines.refl _
  | some last =>
      refine Refines.outcome_bind (evalAll_refines hEval scope body.dropLast)
        (fun s => rfl) fun o o' hSame => ?_
      cases o with
      | error stop =>
          obtain ⟨stop', rfl, hStop⟩ := SameOutcome.error_left hSame
          have hErr : SameOutcome (.error stop : Except Stop Progress) (.error stop') := hStop
          exact Refines.leaveScope hErr scope
      | ok values =>
          obtain rfl := SameOutcome.ok_left hSame
          refine Refines.bind (Refines.refl _) fun s => ?_
          split
          · exact Refines.refl _
          · refine Refines.outcome_bind (evalLast_refines hEval cast last scope)
              (fun s => rfl) fun o o' hSame => ?_
            exact Refines.bind (Refines.leaveScope hSame scope) fun _ => Refines.refl _

/-- **One step of the loop is monotone** in the way to evaluate, the way to
call and the bound on lists. -/
theorem step_refines (hEval : eval.Refines eval') (hCall : call.Refines call')
    {fuel fuel' : Nat} (hFuel : fuel ≤ fuel') (task : Task) :
    Refines (step eval call fuel task) (step eval' call' fuel' task) := by
  obtain ⟨e, scope, function, pending⟩ := task
  cases e with
  | lit value => exact Refines.refl _
  | var name => exact Refines.refl _
  | lambda params ret body => exact Refines.refl _
  | cond test yes no => exact Refines.bind (hEval test scope) fun _ => Refines.refl _
  | block body cast => exact evalBlock_refines hEval _ body cast
  | set name ty value claims =>
      exact Refines.bind (evalSet_refines hEval name ty value claims scope)
        fun _ => Refines.refl _
  | conj operands =>
      exact Refines.bind (evalLogical_refines hEval "and" false scope operands)
        fun _ => Refines.refl _
  | disj operands =>
      exact Refines.bind (evalLogical_refines hEval "or" true scope operands)
        fun _ => Refines.refl _
  | call callee args =>
      refine Refines.bind (hEval callee scope) fun function => ?_
      refine Refines.bind (evalAll_refines hEval scope args) fun arguments => ?_
      exact Refines.bind (beginCall_refines hCall hFuel function arguments)
        fun _ => Refines.refl _

end ClauseLisp
