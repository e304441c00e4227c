import ClauseLisp.Proofs.Frame.Bindings

/-!
# What a scope holds after it has been left

A run leaves the outermost scope, which closes its files, and nothing can be bound there
from then on.  A session may go on all the same.  A `set'` takes over the files that were
opened for its value before it binds its name, and only the binding asks whether the scope
has been left: so a `set'` that is refused leaves its files with a scope that is not left
again, unless there is another run.

`Claims` says of statements that they get to such a `set'`.  One statement takes files over
or leaves what the scope holds as it is (`evalGlobal_takes`), so do statements one after the
other (`evalInOrder_takes`), and so does a text of the session (`evalText_takes`).

## Main results

* `Session.exited_holds_iff` — when an exited scope holds files, over a whole session.
* `Session.exited_scope_holds` — it does if a `set'` comes after a run.
-/

namespace ClauseLisp

/-- Binding is refused in a scope that has been left, and changes nothing there. -/
theorem bindIn_apply (scope : Nat) (name : String) (value result : Value) (s : State) :
    (bindIn scope name value >>= fun _ => pure result) s =
      if s.scopes.isFrozen scope then (.error (.error (.eval (.frozenScope name))), s)
      else (.ok result, { s with scopes := s.scopes.put scope name value }) := by
  rw [Run.bind_apply, bindIn, Run.get_bind_apply]
  cases s.scopes.isFrozen scope <;> rfl

/-- Only a `set'` may take files over. -/
theorem Expr.claiming_of_access {e : Expr} {scope i : Nat} (h : (e.access scope).Claims i) :
    ∃ name ty value, e = .set name ty value true := by
  cases e with
  | set name ty value claims =>
      cases claims with
      | true => exact ⟨name, ty, value, rfl⟩
      | false => cases h
  | _ => cases h

/-- Taking files over does not change whether a scope has been left. -/
theorem Scopes.Rebinds.isFrozen {scope i : Nat} {name : String} {claims : Bool} {ss ss' : Scopes Nat}
    (h : ss.Rebinds scope name claims ss') (hScope : i < ss.table.size) :
    ss'.isFrozen i = ss.isFrozen i := by
  have hGet : ss.table[i]? = some ss.table[i] := Array.getElem?_eq_getElem hScope
  obtain ⟨after, hAfter, hRebound, -⟩ := h i _ hGet
  rw [Scopes.isFrozen, Scopes.isFrozen, hGet, hAfter]
  exact hRebound.frozen

namespace Session

/-! ## One statement -/

/-- How the value of a statement is evaluated, one level below it. -/
def evalPart (fuel : Nat) : Evaluator :=
  fun e scope => exec (fuel - 1) 1 (.work { expr := e, scope })

theorem evalPart_keeps (fuel : Nat) : (evalPart fuel).Keeps Undisturbed :=
  fun e scope => exec_keeps undisturbed_frame (fuel - 1) 1 (.work { expr := e, scope })

/-- A statement that is a `set` is evaluated as one, by whatever is left of the fuel. -/
theorem evalGlobal_set (fuel : Nat) (name : String) (ty : Option Ty) (value : Expr) (claims : Bool)
    (s : State) :
    evalGlobal fuel (.set name ty value claims) s =
      evalSet (evalPart fuel) name ty value claims Scopes.globals s := by
  match fuel with
  | 0 => rfl
  | 1 => rfl
  | fuel + 2 =>
      have hStep : ∀ call, step (fun e scope => exec (fuel + 1) (0 + 1) (.work { expr := e, scope }))
          call (fuel + 1) { expr := .set name ty value claims, scope := Scopes.globals } s =
            (evalSet (evalPart (fuel + 2)) name ty value claims Scopes.globals >>= fun value =>
              pure (.done value)) s := fun _ => rfl
      rw [evalGlobal, exec, if_neg (by decide), loop, Run.outcome_bind_apply, hStep, Run.bind_apply]
      rcases evalSet (evalPart (fuel + 2)) name ty value claims Scopes.globals s with ⟨stop | _, s'⟩
      · cases stop <;> rfl
      · rfl

/-- Evaluating statements one after the other gets to a `set'` that takes files over: its value is
accepted, and what has been opened for it is still unclaimed. -/
inductive Claims (fuel : Nat) : List Expr → State → Prop where
  | here {name : String} {ty : Option Ty} {value : Expr} {es : List Expr} {s s' : State}
      {result : Value} :
      evalChecked (evalPart fuel) "set" ty value Scopes.globals s = (.ok result, s') →
      s.unclaimed.length < s'.unclaimed.length → Claims fuel (.set name ty value true :: es) s
  | later {e : Expr} {es : List Expr} {s s' : State} {result : Value} :
      evalGlobal fuel e s = (.ok result, s') → Claims fuel es s' → Claims fuel (e :: es) s

theorem claims_nil (fuel : Nat) (s : State) : ¬ Claims fuel [] s := nofun

/-- The first statement takes files over, or one of the others does. -/
theorem claims_cons {fuel : Nat} {e : Expr} {es : List Expr} {s : State} :
    Claims fuel (e :: es) s ↔ Claims fuel [e] s ∨
      ∃ result s', evalGlobal fuel e s = (.ok result, s') ∧ Claims fuel es s' := by
  constructor
  · rintro (⟨hValue, hOpened⟩ | ⟨hFirst, hRest⟩)
    · exact .inl (.here hValue hOpened)
    · exact .inr ⟨_, _, hFirst, hRest⟩
  · rintro ((⟨hValue, hOpened⟩ | ⟨-, hRest⟩) | ⟨result, s', hFirst, hRest⟩)
    · exact .here hValue hOpened
    · exact absurd hRest (claims_nil _ _)
    · exact .later hFirst hRest

variable {fuel : Nat} {e : Expr} {s : State}

/-- A `set'` with a value takes over what has been opened, and is refused only then. -/
theorem evalGlobal_set_some {name : String} {ty : Option Ty} {value : Expr} {s' : State}
    {result : Value}
    (h : evalChecked (evalPart fuel) "set" ty value Scopes.globals s = (.ok result, s')) :
    evalGlobal fuel (.set name ty value true) s =
      let taken := s'.claimed s.unclaimed.length Scopes.globals
      if taken.scopes.isFrozen Scopes.globals then
        (.error (.error (.eval (.frozenScope name))), taken)
      else (.ok result, { taken with scopes := taken.scopes.put Scopes.globals name result }) := by
  rw [evalGlobal_set, evalSet_apply, Run.bind_apply, h]
  exact bindIn_apply _ _ _ _ (s'.claimed s.unclaimed.length Scopes.globals)

/-- The value of a `set` is evaluated without writing to the outermost scope. -/
theorem evalChecked_undisturbed (ty : Option Ty) {value : Expr} (h : value.isPlaced false = true)
    (hPlaced : s.Placed) :
    Undisturbed .nothing s (evalChecked (evalPart fuel) "set" ty value Scopes.globals s).2 :=
  (evalChecked_keeps undisturbed_frame "set" ty (eval_keeps (evalPart_keeps fuel) h _) s
    hPlaced (Access.fitsIn_nothing s)).related

theorem evalGlobal_kept (h : e.isPlaced true = true) (hPlaced : s.Placed)
    (hGlobals : Scopes.globals < s.scopes.table.size) :
    Kept Undisturbed (e.access Scopes.globals) s (evalGlobal fuel e s).2 := by
  refine exec_keeps undisturbed_frame fuel 0 (.work { expr := e, scope := Scopes.globals }) h s
    hPlaced (Access.FitsIn.within ?_ (e.access_within Scopes.globals))
  intro scope hAll
  cases hAll
  exact hGlobals

/-- What an evaluation does to the outermost scope: it takes files over if it `claims` some, is
refused then if the scope has been left, and does not leave it. -/
structure Takes (claims : Prop) (outcome : Except Stop Value) (s s' : State) : Prop where
  holds : s'.scopes.holds Scopes.globals = true ↔ s.scopes.holds Scopes.globals = true ∨ claims
  frozen : s'.scopes.isFrozen Scopes.globals = s.scopes.isFrozen Scopes.globals
  refused : s.scopes.isFrozen Scopes.globals = true → claims →
    ∃ name, outcome = .error (.error (.eval (.frozenScope name)))

section Claiming

variable {name : String} {ty : Option Ty} {value : Expr} {s' : State}

/-- A `set'` that gets no value takes nothing over. -/
theorem not_claims_set {stop : Stop}
    (h : evalChecked (evalPart fuel) "set" ty value Scopes.globals s = (.error stop, s')) :
    ¬ Claims fuel [.set name ty value true] s := by
  rintro (⟨hOk, -⟩ | ⟨-, hRest⟩)
  · cases h.symm.trans hOk
  · exact claims_nil _ _ hRest

/-- A `set'` that gets one takes files over exactly if some were opened for it. -/
theorem claims_set {result : Value}
    (h : evalChecked (evalPart fuel) "set" ty value Scopes.globals s = (.ok result, s')) :
    Claims fuel [.set name ty value true] s ↔ s.unclaimed.length < s'.unclaimed.length := by
  refine ⟨?_, .here h⟩
  rintro (⟨hOk, hLess⟩ | ⟨-, hRest⟩)
  · cases h.symm.trans hOk
    exact hLess
  · exact absurd hRest (claims_nil _ _)

/-- What was opened for the value is held from then on, along with what was held before. -/
theorem resources_evalGlobal_set {result : Value} (hValue : Undisturbed .nothing s s')
    (hGlobals : Scopes.globals < s.scopes.table.size)
    (h : evalChecked (evalPart fuel) "set" ty value Scopes.globals s = (.ok result, s')) :
    (evalGlobal fuel (.set name ty value true) s).2.scopes.resources Scopes.globals =
      s'.unclaimed.take (s'.unclaimed.length - s.unclaimed.length) ++
        s.scopes.resources Scopes.globals := by
  rw [← hValue.resources _ not_false,
    ← Scopes.resources_acquireAll _ (hValue.size_lt hGlobals not_false), evalGlobal_set_some h]
  dsimp only
  split
  · rfl
  · exact Scopes.resources_put _ _ _ _ _

theorem holds_evalGlobal_set (h : value.isPlaced false = true) (hPlaced : s.Placed)
    (hGlobals : Scopes.globals < s.scopes.table.size) :
    (evalGlobal fuel (.set name ty value true) s).2.scopes.holds Scopes.globals = true ↔
      s.scopes.holds Scopes.globals = true ∨ Claims fuel [.set name ty value true] s := by
  have hValue : Undisturbed .nothing s
      (evalChecked (evalPart fuel) "set" ty value Scopes.globals s).2 :=
    evalChecked_undisturbed ty h hPlaced
  rcases hRun : evalChecked (evalPart fuel) "set" ty value Scopes.globals s with
    ⟨stop | result, s'⟩ <;> rw [hRun] at hValue
  · have hState : (evalGlobal fuel (.set name ty value true) s).2 = s' := by
      rw [evalGlobal_set, evalSet_apply, Run.bind_apply, hRun]
    rw [hState, Scopes.holds, hValue.resources _ not_false, ← Scopes.holds]
    exact (or_iff_left (not_claims_set hRun)).symm
  · have hFresh : s'.unclaimed.take (s'.unclaimed.length - s.unclaimed.length) = [] ↔
        ¬ s.unclaimed.length < s'.unclaimed.length := by
      rw [← List.length_eq_zero_iff, List.length_take]
      omega
    rw [claims_set hRun, Scopes.holds, Scopes.holds,
      resources_evalGlobal_set hValue hGlobals hRun]
    simp only [Bool.not_eq_true', List.isEmpty_eq_false_iff, ne_eq, List.append_eq_nil_iff, hFresh,
      not_and_or, not_not]
    exact or_comm

end Claiming

/-- A statement takes files over, or leaves the outermost scope with those that it holds. -/
theorem holds_evalGlobal (h : e.isPlaced true = true) (hPlaced : s.Placed)
    (hGlobals : Scopes.globals < s.scopes.table.size) :
    (evalGlobal fuel e s).2.scopes.holds Scopes.globals = true ↔
      s.scopes.holds Scopes.globals = true ∨ Claims fuel [e] s := by
  by_cases hClaims : (e.access Scopes.globals).Claims Scopes.globals
  · obtain ⟨name, ty, value, rfl⟩ := e.claiming_of_access hClaims
    exact holds_evalGlobal_set h hPlaced hGlobals
  · rw [Scopes.holds, (evalGlobal_kept h hPlaced hGlobals).related.resources _ hClaims,
      ← Scopes.holds]
    refine (or_iff_left ?_).symm
    rintro (⟨-, -⟩ | ⟨-, hRest⟩)
    · exact hClaims rfl
    · exact claims_nil _ _ hRest

theorem isFrozen_evalGlobal (h : e.isPlaced true = true) (hPlaced : s.Placed)
    (hGlobals : Scopes.globals < s.scopes.table.size) :
    (evalGlobal fuel e s).2.scopes.isFrozen Scopes.globals = s.scopes.isFrozen Scopes.globals := by
  cases hSet : e.isSet with
  | true =>
      cases e with
      | set name ty value claims =>
          rw [evalGlobal_set]
          exact (evalSet_rebinds (evalPart_keeps fuel) name ty claims _ h hPlaced).isFrozen hGlobals
      | _ => cases hSet
  | false =>
      have hKept : Kept Undisturbed (e.access Scopes.globals) s (evalGlobal fuel e s).2 :=
        evalGlobal_kept h hPlaced hGlobals
      rw [Scopes.isFrozen, hKept.related.scopes _ hGlobals, ← Scopes.isFrozen]
      rw [Expr.access_of_isSet hSet]
      exact not_false

/-- **A statement takes files over or not**, and is refused if it comes too late. -/
theorem evalGlobal_takes (h : e.isPlaced true = true) (hPlaced : s.Placed)
    (hGlobals : Scopes.globals < s.scopes.table.size) :
    Takes (Claims fuel [e] s) (evalGlobal fuel e s).1 s (evalGlobal fuel e s).2 where
  holds := holds_evalGlobal h hPlaced hGlobals
  frozen := isFrozen_evalGlobal h hPlaced hGlobals
  refused hFrozen hClaims := by
    rcases hClaims with ⟨hValue, -⟩ | ⟨-, hRest⟩
    · rename_i name ty value s' result
      have hSame : Undisturbed .nothing s s' := by
        have hUndisturbed : Undisturbed .nothing s
            (evalChecked (evalPart fuel) "set" ty value Scopes.globals s).2 :=
          evalChecked_undisturbed ty h hPlaced
        rwa [hValue] at hUndisturbed
      have hTaken : s.scopes.Rebinds Scopes.globals name true
          (s'.claimed s.unclaimed.length Scopes.globals).scopes :=
        .trans (.of_same fun i hScope => hSame.scopes i hScope not_false) (.acquireAll _)
      refine ⟨name, ?_⟩
      rw [evalGlobal_set_some hValue]
      dsimp only
      rw [hTaken.isFrozen hGlobals, if_pos hFrozen]
    · exact absurd hRest (claims_nil _ _)

/-! ## Statements, texts and runs -/

/-- **Statements take files over if one of them does.** -/
theorem evalInOrder_takes (fuel : Nat) :
    ∀ {es : List Expr} (last : Value) {s : State}, (∀ e ∈ es, e.isPlaced true = true) → s.Placed →
      Scopes.globals < s.scopes.table.size →
      Takes (Claims fuel es s) (evalInOrder fuel last es s).1 s (evalInOrder fuel last es s).2 := by
  intro es
  induction es with
  | nil =>
      intro last s _ _ _
      exact ⟨(or_iff_left (claims_nil fuel s)).symm, rfl, fun _ h => absurd h (claims_nil fuel s)⟩
  | cons e es ih =>
      intro last s hPlaced hState hGlobals
      obtain ⟨hFirst, hRest⟩ := List.forall_mem_cons.mp hPlaced
      have hTakes : Takes (Claims fuel [e] s) (evalGlobal fuel e s).1 s (evalGlobal fuel e s).2 :=
        evalGlobal_takes hFirst hState hGlobals
      have hKept : Kept Undisturbed (e.access Scopes.globals) s (evalGlobal fuel e s).2 :=
        evalGlobal_kept hFirst hState hGlobals
      rw [evalInOrder, Run.bind_apply]
      rcases hRun : evalGlobal fuel e s with ⟨stop | result, s'⟩ <;> rw [hRun] at hTakes hKept
      · have hOnly : Claims fuel (e :: es) s ↔ Claims fuel [e] s := by
          rw [claims_cons, hRun, or_iff_left]
          rintro ⟨_, _, hSame, -⟩
          cases hSame
        rw [hOnly]
        exact hTakes
      · have hLater := ih result hRest hKept.placed (Nat.lt_of_lt_of_le hGlobals hKept.scopes)
        have hEither : Claims fuel (e :: es) s ↔ Claims fuel [e] s ∨ Claims fuel es s' := by
          rw [claims_cons, hRun]
          refine or_congr_right ⟨?_, fun hThere => ⟨result, s', rfl, hThere⟩⟩
          rintro ⟨_, _, hSame, hThere⟩
          cases hSame
          exact hThere
        refine ⟨?_, hLater.frozen.trans hTakes.frozen, fun hFrozen hClaims => ?_⟩
        · rw [hLater.holds, hTakes.holds, hEither, or_assoc]
        · rcases hEither.mp hClaims with hHere | hThere
          · obtain ⟨name, hError⟩ := hTakes.refused hFrozen hHere
            cases hError
          · exact hLater.refused (hTakes.frozen.trans hFrozen) hThere

/-- A text gets to a `set'` that takes files over.  A run leaves none to be held. -/
def Use.Claims : Use → State → Prop
  | .text load fuel source, s =>
    match Session.load load fuel source s with
    | (.ok statements, s') => Session.Claims fuel statements s'
    | (.error _, _) => False
  | .run _, _ => False

/-- Loading before and closing afterwards do not concern the outermost scope. -/
theorem evalText_takes {s : State} (h : Ready s) (load : Loader) (fuel : Nat) (source : String) :
    Takes ((Use.text load fuel source).Claims s) (evalText load fuel source s).1 s
      (evalText load fuel source s).2 := by
  have hLoad : GoesOn s (Session.load load fuel source s).2 := h.load load fuel source
  have hScopes : (Session.load load fuel source s).2.scopes = s.scopes := rfl
  rw [Session.evalText, Run.bind_apply, Use.Claims]
  rcases hRun : Session.load load fuel source s with ⟨stop | statements, s'⟩ <;>
    rw [hRun] at hLoad hScopes
  · refine ⟨?_, congrArg (Scopes.isFrozen · _) hScopes, fun _ hClaims => hClaims.elim⟩
    rw [or_false, ← hScopes]
  · have hPlaced : ∀ e ∈ statements, e.isPlaced true = true :=
      (Program.placed_absorb h.placed.program).added statements (congrArg Prod.fst hRun)
    have hTakes := evalInOrder_takes fuel .nil hPlaced hLoad.ready.placed hLoad.ready.globals
    refine ⟨?_, ?_, fun hFrozen hClaims => ?_⟩
    · rw [← hScopes]
      exact hTakes.holds
    · rw [← hScopes]
      exact hTakes.frozen
    · rw [← hScopes] at hFrozen
      obtain ⟨name, hError⟩ := hTakes.refused hFrozen hClaims
      refine ⟨name, ?_⟩
      show (closeUnclaimed (evalInOrder fuel .nil statements s').1 _).1 = _
      rw [hError]
      rfl

/-- After a run the outermost scope has been left, and holds nothing. -/
theorem run_leaves {s : State} (h : Ready s) (fuel : Nat) :
    (Session.run fuel s).2.scopes.isFrozen Scopes.globals = true ∧
      (Session.run fuel s).2.scopes.holds Scopes.globals = false := by
  have hReady := (h.evalInOrder fuel h.placed.program.statements).ready
  rw [run_state]
  refine ⟨?_, ?_⟩
  · have hGet := Array.getElem?_eq_getElem hReady.globals
    rw [State.left, Scopes.isFrozen, Scopes.freeze, Array.getElem?_modify, if_pos rfl, hGet]
    rfl
  · rw [State.left, Scopes.holds, Scopes.resources_freeze, if_pos rfl]
    rfl

/-! ## Whole sessions -/

/-- Where a session gets to with some uses, one after the other. -/
def leadTo (s : State) (uses : List Use) : State := uses.foldl (fun s use => (use.perform s).2) s

theorem leadTo_snoc (s : State) (uses : List Use) (use : Use) :
    leadTo s (uses ++ [use]) = (use.perform (leadTo s uses)).2 := by
  rw [leadTo, List.foldl_append]
  rfl

theorem Ready.leadTo {s : State} (h : Ready s) (uses : List Use) : Ready (leadTo s uses) := by
  induction uses using List.reverseRecOn with
  | nil => exact h
  | append_singleton uses use ih => exact leadTo_snoc s uses use ▸ (ih.perform use).ready

/-- One of several uses is the last of them, or it stands before the last. -/
theorem snoc_eq_append_cons {uses before later : List Use} {last use : Use} :
    uses ++ [last] = before ++ use :: later ↔
      (before = uses ∧ use = last ∧ later = []) ∨
        ∃ rest, later = rest ++ [last] ∧ uses = before ++ use :: rest := by
  constructor
  · intro hUses
    rcases List.eq_nil_or_concat later with rfl | ⟨rest, other, rfl⟩
    · obtain ⟨rfl, hLast⟩ := List.append_inj' hUses rfl
      exact .inl ⟨rfl, (List.singleton_inj.mp hLast).symm, rfl⟩
    · have hSplit : uses ++ [last] = (before ++ use :: rest) ++ [other] := by simpa using hUses
      obtain ⟨rfl, hLast⟩ := List.append_inj' hSplit rfl
      exact .inr ⟨rest, by rw [hLast, List.concat_eq_append], rfl⟩
  · rintro (⟨rfl, rfl, rfl⟩ | ⟨rest, rfl, rfl⟩)
    · rfl
    · rw [List.append_assoc, List.cons_append]

/-- **Whether the outermost scope holds files is up to the texts since the last run.** -/
theorem holds_leadTo {s : State} (h : Ready s) (hNothing : s.scopes.holds Scopes.globals = false)
    (uses : List Use) :
    (leadTo s uses).scopes.holds Scopes.globals = true ↔
      ∃ before use later, uses = before ++ use :: later ∧ (∀ fuel, Use.run fuel ∉ later) ∧
        use.Claims (leadTo s before) := by
  induction uses using List.reverseRecOn with
  | nil =>
      refine iff_of_false (by rw [leadTo, List.foldl_nil, hNothing]; exact Bool.false_ne_true) ?_
      rintro ⟨before, use, later, hUses, -⟩
      cases before <;> cases hUses
  | append_singleton uses last ih =>
      simp only [leadTo_snoc, snoc_eq_append_cons]
      cases last with
      | run fuel =>
          have hRun : ((Use.run fuel).perform (leadTo s uses)).2.scopes.holds Scopes.globals = false :=
            (run_leaves (h.leadTo uses) fuel).2
          rw [hRun]
          refine iff_of_false Bool.false_ne_true ?_
          rintro ⟨before, use, later, ⟨-, rfl, -⟩ | ⟨rest, rfl, -⟩, hLater, hClaims⟩
          · exact hClaims
          · exact hLater fuel (List.mem_append_right _ (List.mem_singleton_self _))
      | text load fuel source =>
          have hTakes := evalText_takes (h.leadTo uses) load fuel source
          refine (hTakes.holds.trans (or_congr_left ih)).trans ⟨?_, ?_⟩
          · rintro (⟨before, use, rest, hUses, hRest, hClaims⟩ | hClaims)
            · refine ⟨before, use, _, .inr ⟨rest, rfl, hUses⟩, fun fuel hRun => ?_, hClaims⟩
              rcases List.mem_append.mp hRun with hMem | hMem
              · exact hRest fuel hMem
              · cases List.mem_singleton.mp hMem
            · exact ⟨uses, _, [], .inl ⟨rfl, rfl, rfl⟩, nofun, hClaims⟩
          · rintro ⟨before, use, later, ⟨rfl, rfl, -⟩ | ⟨rest, rfl, hUses⟩, hLater, hClaims⟩
            · exact .inr hClaims
            · refine .inl ⟨before, use, rest, hUses, fun fuel hRun => ?_, hClaims⟩
              exact hLater fuel (List.mem_append_left _ hRun)

/-- The outermost scope has been left if there has been a run. -/
theorem isFrozen_leadTo {s : State} (h : Ready s)
    (hOpen : s.scopes.isFrozen Scopes.globals = false) (uses : List Use) :
    (leadTo s uses).scopes.isFrozen Scopes.globals = true ↔ ∃ fuel, Use.run fuel ∈ uses := by
  induction uses using List.reverseRecOn with
  | nil =>
      refine iff_of_false (by rw [leadTo, List.foldl_nil, hOpen]; exact Bool.false_ne_true) ?_
      rintro ⟨fuel, hRun⟩
      cases hRun
  | append_singleton uses last ih =>
      rw [leadTo_snoc]
      cases last with
      | run fuel =>
          refine iff_of_true (run_leaves (h.leadTo uses) fuel).1 ⟨fuel, ?_⟩
          exact List.mem_append_right _ (List.mem_singleton_self _)
      | text load fuel source =>
          have hTakes := evalText_takes (h.leadTo uses) load fuel source
          rw [show ((Use.text load fuel source).perform (leadTo s uses)).2.scopes.isFrozen
            Scopes.globals = _ from hTakes.frozen, ih]
          simp

/-- **When an exited scope holds files.**  Whatever program, files and operations of the host a
session starts with, and whatever it is given: its outermost scope has been left if there has been
a run.  It then holds files exactly if, since the last run, a text has got to a `set'` for the
value of which files were opened and are unclaimed; and such a `set'` is refused, so that the text
ends with its error. -/
theorem exited_holds_iff {program : Program} (hProgram : program.Loaded) (files : Files)
    (hosts : Dict HostOperation) (uses : List Use) :
    let start : State := { Session.start program with files, hosts }
    ((leadTo start uses).scopes.isFrozen Scopes.globals = true ↔ ∃ fuel, Use.run fuel ∈ uses) ∧
      ((leadTo start uses).scopes.isFrozen Scopes.globals = true →
        ((leadTo start uses).scopes.holds Scopes.globals = true ↔
          ∃ before use later, uses = before ++ use :: later ∧
            (∃ fuel, Use.run fuel ∈ before) ∧ (∀ fuel, Use.run fuel ∉ later) ∧
            use.Claims (leadTo start before) ∧
            ∃ name, (use.perform (leadTo start before)).1 =
              .error (.error (.eval (.frozenScope name))))) := by
  intro start
  have hReady : Ready start := (Reached.start files hosts hProgram).ready
  have hFrozen := isFrozen_leadTo hReady rfl
  refine ⟨hFrozen uses, fun hLeft => ?_⟩
  rw [holds_leadTo hReady rfl]
  constructor
  · rintro ⟨before, use, later, rfl, hLater, hClaims⟩
    have hBefore : ∃ fuel, Use.run fuel ∈ before := by
      obtain ⟨fuel, hRun⟩ := (hFrozen _).mp hLeft
      rcases List.mem_append.mp hRun with hMem | hMem
      · exact ⟨fuel, hMem⟩
      · rcases List.mem_cons.mp hMem with rfl | hMem
        · exact hClaims.elim
        · exact absurd hMem (hLater fuel)
    refine ⟨before, use, later, rfl, hBefore, hLater, hClaims, ?_⟩
    cases use with
    | run fuel => exact hClaims.elim
    | text load fuel source =>
        exact (evalText_takes (hReady.leadTo before) load fuel source).refused
          ((hFrozen before).mpr hBefore) hClaims
  · rintro ⟨before, use, later, hUses, -, hLater, hClaims, -⟩
    exact ⟨before, use, later, hUses, hLater, hClaims⟩

/-- A run after the refused `set'` closes the file. -/
theorem exited_holds_iff_of_second_run :
    Program.Loaded {} ∧
      (leadTo withFile [.run 9, opening, .run 9]).scopes.isFrozen Scopes.globals = true ∧
      (leadTo withFile [.run 9, opening, .run 9]).scopes.holds Scopes.globals = false := by
  obtain ⟨hFrozen, hHolds⟩ := exited_holds_iff .empty withFile.files {} [.run 9, opening, .run 9]
  have hLeft := hFrozen.mpr ⟨9, List.mem_cons_self⟩
  refine ⟨.empty, hLeft, Bool.eq_false_iff.mpr fun hHeld => ?_⟩
  obtain ⟨before, use, later, hUses, -, hLater, hClaims, -⟩ := (hHolds hLeft).mp hHeld
  rw [show [Use.run 9, opening, .run 9] = [.run 9, opening] ++ [.run 9] from rfl,
    snoc_eq_append_cons] at hUses
  rcases hUses with ⟨-, rfl, -⟩ | ⟨rest, rfl, -⟩
  · exact hClaims
  · exact hLater 9 (List.mem_append_right _ (List.mem_singleton_self _))

/-- **An exited scope may hold files**: after a run, a `set'` is refused, but the file that it
opened is left with the outermost scope, open. -/
theorem exited_scope_holds :
    Reached (leadTo withFile [.run 9, opening]) ∧
      (leadTo withFile [.run 9, opening]).scopes.isFrozen Scopes.globals = true ∧
      (leadTo withFile [.run 9, opening]).scopes.holds Scopes.globals = true ∧
      (opening.perform (leadTo withFile [.run 9])).1 =
        .error (.error (.eval (.frozenScope "f"))) ∧
      (leadTo withFile [.run 9, opening]).streams[0]?.map Stream.isOpen = some true :=
  ⟨.after _ (.after _ (.start _ _ .empty)), by cbv, by cbv, by cbv, by cbv⟩

end Session

end ClauseLisp
