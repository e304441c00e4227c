import ClauseLisp.Proofs.Run

/-!
# Refinement of computations

`Refines x y` says that wherever `x` comes to an end, `y` comes to the same
end in the same state.  Running out of fuel is no end, and errors count as the
same when they have the same root: the names of the calls that an error has
left may differ, since a chain of tail calls keeps only the last of them.

One detail of the wrapping can matter: whether there is any.  An argument error
that names no operation gets a name from the operation it arises in
(`Error.inOperation`), unless it has left a call before.

## Main results

* `Refines.bind`, `Refines.outcome_bind` — sequencing keeps refinement, also
  where the outcome of the first computation is looked at.
* `Refines.mapError_inOperation`, `Refines.leaveScope` — so do the two other
  ways in which the machine handles an outcome.
-/

namespace ClauseLisp

/-! ## Errors up to the calls they left -/

/-- An argument error that does not name its operation. -/
def Error.Unnamed (e : Error) : Prop :=
  ∃ expected found position, e = .cast "" expected found position

/-- Two errors with the same root.  If it is still to be named, both or neither
of them have left a call. -/
def Error.SameRoot (e e' : Error) : Prop :=
  e.root = e'.root ∧ (e.root.Unnamed → (e.calls = [] ↔ e'.calls = []))

namespace Error

theorem SameRoot.refl (e : Error) : e.SameRoot e := ⟨rfl, fun _ => Iff.rfl⟩

theorem SameRoot.symm {e e' : Error} (h : e.SameRoot e') : e'.SameRoot e :=
  ⟨h.1.symm, fun hUnnamed => (h.2 (h.1 ▸ hUnnamed)).symm⟩

theorem SameRoot.trans {e e' e'' : Error} (h : e.SameRoot e') (h' : e'.SameRoot e'') :
    e.SameRoot e'' :=
  ⟨h.1.trans h'.1, fun hUnnamed => (h.2 hUnnamed).trans (h'.2 (h.1 ▸ hUnnamed))⟩

/-- Once both have left a call, it does not matter which. -/
theorem SameRoot.inCall {e e' : Error} (h : e.SameRoot e') (f f' : String) :
    (Error.inCall f e).SameRoot (Error.inCall f' e') :=
  ⟨h.1, fun _ => by simp [calls]⟩

/-- Nor does it matter how many. -/
theorem sameRoot_inCall_inCall (f g : String) (e : Error) :
    (Error.inCall g (Error.inCall f e)).SameRoot (Error.inCall f e) :=
  ⟨rfl, fun _ => by simp [calls]⟩

/-- An error that needs no name is the same before and after it leaves a call. -/
theorem sameRoot_inCall {e : Error} (h : ¬ e.root.Unnamed) (f : String) :
    (Error.inCall f e).SameRoot e :=
  ⟨rfl, fun hUnnamed => absurd hUnnamed h⟩

theorem root_eq_self {e : Error} (h : e.calls = []) : e.root = e := by
  cases e with
  | inCall f source => simp [calls] at h
  | _ => rfl

theorem inOperation_of_calls {e : Error} (name : String) (h : e.calls ≠ []) :
    e.inOperation name = e := by
  cases e with
  | inCall f source => rfl
  | _ => exact absurd rfl h

theorem inOperation_of_named {e : Error} (name : String) (h : ¬ e.Unnamed) :
    e.inOperation name = e := by
  unfold inOperation
  split
  · exact absurd ⟨_, _, _, rfl⟩ h
  · rfl

/-- An error whose root has a name is left as it is, wrapped or not. -/
theorem inOperation_of_root_named {e : Error} (name : String) (h : ¬ e.root.Unnamed) :
    e.inOperation name = e := by
  by_cases hBare : e.calls = []
  · rw [root_eq_self hBare] at h
    exact inOperation_of_named name h
  · exact inOperation_of_calls name hBare

theorem SameRoot.inOperation {e e' : Error} (h : e.SameRoot e') (name : String) :
    (e.inOperation name).SameRoot (e'.inOperation name) := by
  by_cases hUnnamed : e.root.Unnamed
  · have hIff := h.2 hUnnamed
    by_cases hBare : e.calls = []
    · have hEq : e = e' := by
        rw [← root_eq_self hBare, h.1, root_eq_self (hIff.mp hBare)]
      subst hEq
      exact SameRoot.refl _
    · have hBare' : e'.calls ≠ [] := fun h' => hBare (hIff.mpr h')
      rw [inOperation_of_calls name hBare, inOperation_of_calls name hBare']
      exact h
  · have hUnnamed' : ¬ e'.root.Unnamed := h.1 ▸ hUnnamed
    rw [inOperation_of_root_named name hUnnamed, inOperation_of_root_named name hUnnamed']
    exact h

end Error

/-- Two reasons to stop that are the same up to the calls that an error left. -/
def Stop.SameRoot : Stop → Stop → Prop
  | .error e, .error e' => e.SameRoot e'
  | stop, stop' => stop = stop'

namespace Stop

theorem SameRoot.refl (stop : Stop) : stop.SameRoot stop := by
  cases stop with
  | error e => exact Error.SameRoot.refl e
  | outOfFuel => rfl
  | unread path => rfl

theorem SameRoot.symm {a b : Stop} (h : a.SameRoot b) : b.SameRoot a := by
  cases a <;> cases b <;>
    first
      | exact Error.SameRoot.symm h
      | exact Eq.symm h

/-- The reasons that agree with an error are errors. -/
theorem SameRoot.error_left {e : Error} {stop : Stop} (h : (Stop.error e).SameRoot stop) :
    ∃ e', stop = .error e' ∧ e.SameRoot e' := by
  cases stop with
  | error e' => exact ⟨e', rfl, h⟩
  | outOfFuel => cases h
  | unread path => cases h

theorem SameRoot.outOfFuel_right {stop : Stop} (h : stop.SameRoot .outOfFuel) :
    stop = .outOfFuel := by
  cases stop with
  | error e => cases h
  | outOfFuel => rfl
  | unread path => cases h

theorem SameRoot.trans {a b c : Stop} (h : a.SameRoot b) (h' : b.SameRoot c) :
    a.SameRoot c := by
  cases a with
  | error e =>
      obtain ⟨e', rfl, hErr⟩ := SameRoot.error_left h
      obtain ⟨e'', rfl, hErr'⟩ := SameRoot.error_left h'
      exact hErr.trans hErr'
  | outOfFuel =>
      cases b <;> cases h
      exact h'
  | unread path =>
      cases b <;> cases h
      exact h'

end Stop

/-- Two outcomes with the same value, or which stop for the same reason. -/
def SameOutcome {α : Type} : Except Stop α → Except Stop α → Prop
  | .ok a, .ok b => a = b
  | .error stop, .error stop' => stop.SameRoot stop'
  | _, _ => False

namespace SameOutcome

variable {α : Type}

theorem refl (o : Except Stop α) : SameOutcome o o := by
  cases o with
  | ok a => rfl
  | error stop => exact Stop.SameRoot.refl stop

theorem symm {o o' : Except Stop α} (h : SameOutcome o o') : SameOutcome o' o := by
  cases o <;> cases o' <;>
    first
      | exact Stop.SameRoot.symm h
      | exact Eq.symm h
      | exact h.elim

/-- What agrees with a value is that value. -/
theorem ok_left {a : α} {o : Except Stop α} (h : SameOutcome (.ok a) o) : o = .ok a := by
  cases o with
  | ok b => exact congrArg Except.ok (Eq.symm h)
  | error stop => exact h.elim

/-- What agrees with a stop is a stop for the same reason. -/
theorem error_left {stop : Stop} {o : Except Stop α} (h : SameOutcome (.error stop) o) :
    ∃ stop', o = .error stop' ∧ stop.SameRoot stop' := by
  cases o with
  | ok b => exact h.elim
  | error stop' => exact ⟨stop', rfl, h⟩

theorem trans {a b c : Except Stop α} (h : SameOutcome a b) (h' : SameOutcome b c) :
    SameOutcome a c := by
  cases a with
  | ok x =>
      obtain rfl := ok_left h
      exact h'
  | error stop =>
      obtain ⟨stop', rfl, hStop⟩ := error_left h
      obtain ⟨stop'', rfl, hStop'⟩ := error_left h'
      exact hStop.trans hStop'

end SameOutcome

/-! ## Refinement -/

/-- Wherever `x` does not run out of fuel, `y` has the same outcome and leaves
the same state. -/
def Refines {α : Type} (x y : Run α) : Prop :=
  ∀ s, (x s).1 = .error .outOfFuel ∨ SameOutcome (x s).1 (y s).1 ∧ (x s).2 = (y s).2

namespace Refines

variable {α β : Type}

theorem refl (x : Run α) : Refines x x := fun _ => .inr ⟨SameOutcome.refl _, rfl⟩

theorem trans {x y z : Run α} (h : Refines x y) (h' : Refines y z) : Refines x z := by
  intro s
  rcases h s with hFuel | ⟨hOut, hState⟩
  · exact .inl hFuel
  · rcases h' s with hFuel | ⟨hOut', hState'⟩
    · rw [hFuel] at hOut
      cases hx : (x s).1 with
      | ok a =>
          rw [hx] at hOut
          exact hOut.elim
      | error stop =>
          rw [hx] at hOut
          left
          rw [Stop.SameRoot.outOfFuel_right hOut]
    · exact .inr ⟨hOut.trans hOut', hState.trans hState'⟩

/-- What runs out of fuel everywhere is refined by anything. -/
theorem of_outOfFuel (y : Run α) : Refines (throw .outOfFuel) y := fun _ => .inl rfl

/-- Computations with the same outcome and state everywhere refine each other. -/
theorem of_same {x y : Run α}
    (h : ∀ s, SameOutcome (x s).1 (y s).1 ∧ (x s).2 = (y s).2) : Refines x y :=
  fun s => .inr (h s)

/-- Sequencing keeps refinement. -/
theorem bind {x y : Run α} {f g : α → Run β} (h : Refines x y)
    (hNext : ∀ a, Refines (f a) (g a)) : Refines (x >>= f) (y >>= g) := by
  intro s
  rw [Run.bind_apply, Run.bind_apply]
  have hs := h s
  rcases hx : x s with ⟨ox, sx⟩
  rcases hy : y s with ⟨oy, sy⟩
  rw [hx, hy] at hs
  rcases hs with hFuel | ⟨hOut, hState⟩
  · left
    simp only at hFuel
    rw [hFuel]
  · simp only at hOut hState
    subst hState
    cases ox with
    | ok a =>
        obtain rfl := SameOutcome.ok_left hOut
        exact hNext a sx
    | error stop =>
        obtain ⟨stop', rfl, hStop⟩ := SameOutcome.error_left hOut
        exact .inr ⟨hStop, rfl⟩

/-- Sequencing keeps refinement where the outcome is looked at, provided that
running out of fuel is passed on. -/
theorem outcome_bind {x y : Run α} {f g : Except Stop α → Run β} (h : Refines x y)
    (hFuel : ∀ s, (f (.error .outOfFuel) s).1 = .error .outOfFuel)
    (hNext : ∀ o o', SameOutcome o o' → Refines (f o) (g o')) :
    Refines (x.outcome >>= f) (y.outcome >>= g) := by
  intro s
  rw [Run.outcome_bind_apply, Run.outcome_bind_apply]
  rcases h s with hEnd | ⟨hOut, hState⟩
  · left
    rw [hEnd]
    exact hFuel _
  · rw [← hState]
    exact hNext _ _ hOut _

/-- Naming the operation in argument errors keeps refinement. -/
theorem mapError_inOperation {x y : Run α} (h : Refines x y) (name : String) :
    Refines (x.mapError (Error.inOperation name)) (y.mapError (Error.inOperation name)) := by
  intro s
  have hs := h s
  simp only [Run.mapError]
  rcases hx : x s with ⟨ox, sx⟩
  rcases hy : y s with ⟨oy, sy⟩
  rw [hx, hy] at hs
  rcases hs with hFuel | ⟨hOut, hState⟩
  · left
    simp only at hFuel
    rw [hFuel]
  · simp only at hOut hState
    subst hState
    right
    cases ox with
    | ok a =>
        obtain rfl := SameOutcome.ok_left hOut
        exact ⟨SameOutcome.refl _, rfl⟩
    | error stop =>
        obtain ⟨stop', rfl, hStop⟩ := SameOutcome.error_left hOut
        cases stop with
        | error e =>
            obtain ⟨e', rfl, hErr⟩ := Stop.SameRoot.error_left hStop
            exact ⟨hErr.inOperation name, rfl⟩
        | outOfFuel =>
            cases stop' <;> cases hStop
            exact ⟨SameOutcome.refl _, rfl⟩
        | unread path =>
            cases stop' <;> cases hStop
            exact ⟨SameOutcome.refl _, rfl⟩

/-- Leaving a scope with the same outcome keeps refinement. -/
theorem leaveScope {o o' : Except Stop α} (h : SameOutcome o o') (scope : Nat) :
    Refines (ClauseLisp.leaveScope scope o) (ClauseLisp.leaveScope scope o') := by
  intro s
  right
  refine ⟨?_, rfl⟩
  show SameOutcome
    (outcomeAfter Stop.error o
      (releaseAll State.closeStream (s.scopes.resources scope) s.streams).1)
    (outcomeAfter Stop.error o'
      (releaseAll State.closeStream (s.scopes.resources scope) s.streams).1)
  cases o with
  | ok a =>
      obtain rfl := SameOutcome.ok_left h
      exact SameOutcome.refl _
  | error stop =>
      obtain ⟨stop', rfl, hStop⟩ := SameOutcome.error_left h
      exact hStop

end Refines

end ClauseLisp
