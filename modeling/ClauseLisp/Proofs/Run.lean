import ClauseLisp.Machine.State

/-!
# What a computation does to a state

A computation on the machine is a function from states to an outcome and a
state.  The equations below say what each way of composing computations does
at one state, so that no proof has to open the monad itself.
-/

namespace ClauseLisp.Run

variable {α β : Type}

/-- Sequencing runs the first computation and, if it has a result, the second
one from the state that the first has reached. -/
theorem bind_apply (x : Run α) (f : α → Run β) (s : State) :
    (x >>= f) s =
      match x s with
      | (.ok a, s') => f a s'
      | (.error stop, s') => (.error stop, s') := by
  show (x >>= f).run s = _
  simp only [ExceptT.run, bind, ExceptT.bind, ExceptT.mk, StateT.bind,
    ExceptT.bindCont]
  rcases x s with ⟨_ | a, s'⟩ <;> rfl

theorem bind_apply_ok {x : Run α} {f : α → Run β} {s s' : State} {a : α}
    (h : x s = (.ok a, s')) : (x >>= f) s = f a s' := by
  rw [bind_apply, h]

/-- If a sequence has a result, so has its first computation, and the second one
has that result from there. -/
theorem bind_eq_ok {x : Run α} {f : α → Run β} {s s'' : State} {b : β}
    (h : (x >>= f) s = (.ok b, s'')) : ∃ a s', x s = (.ok a, s') ∧ f a s' = (.ok b, s'') := by
  rw [bind_apply] at h
  rcases hFirst : x s with ⟨stop | a, s'⟩
  · rw [hFirst] at h
    cases h
  · rw [hFirst] at h
    exact ⟨a, s', rfl, h⟩

@[simp] theorem get_bind_apply (f : State → Run β) (s : State) : (get >>= f) s = f s s := rfl

@[simp] theorem outcome_bind_apply (x : Run α) (f : Except Stop α → Run β) (s : State) :
    (x.outcome >>= f) s = f (x s).1 (x s).2 := rfl

end ClauseLisp.Run
