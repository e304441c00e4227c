import ClauseLisp.Proofs.Lazy.WriteOnce

/-!
# Calls of builtins

A builtin is called by its name once the number of arguments has been found to be
right, and an argument error that it raises is given that name.  The machine gets
there if neither the program nor its host has something of that name.

## Main results

* `beginCall_builtin`, `exec_call_builtin` — a call of such a name is a call of the
  builtin.
-/

namespace ClauseLisp

/-- Call a builtin on arguments whose number is right: its argument errors name it. -/
def Builtin.called (call : Caller) (fuel : Nat) (b : Builtin) (arguments : List Value) :
    Run Value :=
  Run.mapError (Error.inOperation b.id) (b.run call fuel arguments)

/-- A value is the first of several that has not a property, and stands at a position. -/
structure FirstWithout (P : Value → Prop) (values : List Value) (position : Nat) (value : Value) :
    Prop where
  found : values[position]? = some value
  without : ¬ P value
  before : ∀ earlier ∈ values.take position, P earlier

namespace FirstWithout

variable {P : Value → Prop} {first value : Value} {values : List Value} {position : Nat}

theorem head (h : FirstWithout P (first :: values) 0 value) : first = value := by
  simpa using h.found

theorem passes (h : FirstWithout P (first :: values) (position + 1) value) : P first :=
  h.before first (by simp)

theorem tail (h : FirstWithout P (first :: values) (position + 1) value) :
    FirstWithout P values position value :=
  ⟨by simpa using h.found, h.without, fun v hv => h.before v (by simp [hv])⟩

end FirstWithout

/-- Neither the program nor its host has something of this name. -/
structure State.LeavesToBuiltins (s : State) (name : String) : Prop where
  function : s.program.function? name = none
  parent : s.program.types.parent? name = none
  host : s.hosts.get? name = none

namespace Builtin

variable {name : String} {b : Builtin}

/-- Builtins are found under their own names. -/
theorem id_of_find? (h : Builtin.find? name = some b) : b.id = name := by
  have hFound := List.find?_some h
  simpa using hFound

end Builtin

/-- What the caller of a builtin sees of what the builtin has worked out of its arguments. -/
def Builtin.outcome (name : String) : Except Error Value → Except Stop Value
  | .ok value => .ok value
  | .error error => .error (.error (error.inOperation name))

theorem Run.mapError_ok {α : Type} {x : Run α} {s s' : State} {a : α} (h : x s = (.ok a, s'))
    (f : Error → Error) : x.mapError f s = (.ok a, s') := by
  simp only [Run.mapError, h]

theorem Run.mapError_error {α : Type} {x : Run α} {s s' : State} {error : Error}
    (h : x s = (.error (.error error), s')) (f : Error → Error) :
    x.mapError f s = (.error (.error (f error)), s') := by
  simp only [Run.mapError, h]

/-- A builtin that only works on its arguments leaves the state alone, unless its result needs
places for types. -/
theorem Builtin.called_operation {b : Builtin} {operation : Operation} {s : State}
    {arguments : List Value} (hBody : b.body = .operation operation)
    (hMade : ∀ value, operation s.view arguments = .ok value → newValue value s = (.ok value, s))
    (call : Caller) (fuel : Nat) :
    b.called call fuel arguments s =
      (Builtin.outcome b.id (operation s.view arguments), s) := by
  have hRun : b.run call fuel arguments s =
      (Run.ofExcept (operation s.view arguments) >>= newValue) s := by
    simp only [Builtin.run, hBody, Run.get_bind_apply]
  cases hResult : operation s.view arguments with
  | ok value =>
      rw [hResult] at hRun
      exact Run.mapError_ok (hRun.trans (hMade value hResult)) _
  | error error =>
      rw [hResult] at hRun
      exact Run.mapError_error (hRun.trans rfl) _

section

variable {name : String} {b : Builtin} {s : State} {function : Value} {arguments : List Value}

/-- **A name that is left to the builtins calls the builtin of that name.** -/
theorem beginCall_builtin (hFunction : function.untagged = .func name)
    (hFree : s.LeavesToBuiltins name) (hFind : Builtin.find? name = some b)
    (hArity : b.arity.fault? arguments.length = none) (call : Caller) (fuel : Nat) :
    beginCall call fuel function arguments s =
      (b.called call fuel arguments >>= fun value => pure (.done value)) s := by
  have hId : b.id = name := Builtin.id_of_find? hFind
  simp only [beginCall, hFunction, beginByName, Run.get_bind_apply, hFree.function, hFree.parent,
    hFree.host, hFind, hArity, Builtin.called, hId]

/-- The machine's own call of such a name is the builtin's answer. -/
theorem exec_call_builtin (hFunction : function.untagged = .func name)
    (hFree : s.LeavesToBuiltins name) (hFind : Builtin.find? name = some b)
    (hArity : b.arity.fault? arguments.length = none) (fuel level : Nat) :
    exec (fuel + 1) level (.call function arguments) s =
      b.called (.ofMachine fuel level) fuel arguments s := by
  have hBegin := beginCall_builtin hFunction hFree hFind hArity (.ofMachine fuel level) fuel
  show (beginCall (.ofMachine fuel level) fuel function arguments >>= _) s = _
  rw [Run.bind_apply, hBegin, Run.bind_apply]
  rcases b.called (.ofMachine fuel level) fuel arguments s with ⟨_ | _, _⟩ <;> rfl

end

end ClauseLisp
