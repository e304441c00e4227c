import ClauseLisp.Machine.Call
import ClauseLisp.Proofs.Run

/-!
# What a name calls

A name calls a function of the program, a type constructor, an operation of the host or a
builtin, whichever of these is found first, and the call is refused if there is none of them or
if it does not take that many arguments.  `CallsByName` says in which state a name calls what, so
that a property of all calls by name is shown with one case for each and without a look at the
order in which they are searched.

## Main results

* `exists_callsByName` — in every state, a call by name is one of these.
-/

namespace ClauseLisp

/-- What a name calls in a state, with its way to call functions and its fuel left open. -/
inductive CallsByName (s : State) (name : String) (arguments : List Value) :
    (Caller → Nat → Run Begun) → Prop
  | function {f : Function} (hFunction : s.program.function? name = some f) :
      CallsByName s name arguments fun call fuel =>
        beginFunction call fuel name f.clauses f.litAt arguments
  | tag {parent : Ty} (hFunction : s.program.function? name = none)
      (hParent : s.program.types.parent? name = some parent) :
      CallsByName s name arguments fun _ _ =>
        tagChecked name parent arguments >>= fun value => pure (.done value)
  | host {host : HostOperation} (hFunction : s.program.function? name = none)
      (hParent : s.program.types.parent? name = none) (hHost : s.hosts.get? name = some host)
      (hArity : host.arity.fault? arguments.length = none) :
      CallsByName s name arguments fun _ _ =>
        Run.mapError (Error.inOperation name) (Run.ofExcept (host.run s.view arguments)) >>=
          fun value => newValue value >>= fun value => pure (.done value)
  | builtin {b : Builtin} (hFunction : s.program.function? name = none)
      (hParent : s.program.types.parent? name = none) (hHost : s.hosts.get? name = none)
      (hBuiltin : Builtin.find? name = some b) (hArity : b.arity.fault? arguments.length = none) :
      CallsByName s name arguments fun call fuel =>
        Run.mapError (Error.inOperation name) (b.run call fuel arguments) >>=
          fun value => pure (.done value)
  | refused (error : Error) (hFunction : s.program.function? name = none) :
      CallsByName s name arguments fun _ _ => fail error

/-- **A call by name is a call of what the name calls**, whatever functions are called with. -/
theorem exists_callsByName (s : State) (name : String) (arguments : List Value) :
    ∃ run, CallsByName s name arguments run ∧
      ∀ call fuel, beginByName call fuel name arguments s = run call fuel s := by
  simp only [beginByName, Run.get_bind_apply]
  cases hFunction : s.program.function? name with
  | some f => exact ⟨_, .function hFunction, fun _ _ => rfl⟩
  | none =>
      cases hParent : s.program.types.parent? name with
      | some parent => exact ⟨_, .tag hFunction hParent, fun _ _ => rfl⟩
      | none =>
          cases hHost : s.hosts.get? name with
          | some host =>
              cases hArity : host.arity.fault? arguments.length with
              | some error => exact ⟨_, .refused error hFunction, fun _ _ => by simp only [hArity]⟩
              | none =>
                  exact ⟨_, .host hFunction hParent hHost hArity, fun _ _ => by simp only [hArity]⟩
          | none =>
              cases hBuiltin : Builtin.find? name with
              | none => exact ⟨_, .refused (.unbound name) hFunction, fun _ _ => rfl⟩
              | some b =>
                  cases hArity : b.arity.fault? arguments.length with
                  | some error => exact ⟨_, .refused error hFunction, fun _ _ => by simp only [hArity]⟩
                  | none =>
                      exact ⟨_, .builtin hFunction hParent hHost hBuiltin hArity,
                        fun _ _ => by simp only [hArity]⟩

end ClauseLisp
