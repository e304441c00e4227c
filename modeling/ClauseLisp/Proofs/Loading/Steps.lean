import ClauseLisp.Program.Loading
import ClauseLisp.Proofs.Types.Growth

/-!
# The steps of a load

Loading is a sequence of three passes over a program: the modules are collected,
their declarations are made, and their forms are lowered.  What each pass may
change is said here once, whatever its outcome is: collecting adds paths,
declaring changes types, and lowering changes functions.

## Main results

* `collect_loaded`, `declareAll_types`, `lowerAll_defines` — what the passes change.
* `absorb_readable` — a load adds its expressions after all three.
-/

namespace ClauseLisp

open Ty (Registry)

/-- If a sequence of two succeeds, so do both. -/
theorem except_bind_ok {α β : Type} {x : Except Error α} {f : α → Except Error β} {b : β}
    (h : (x >>= f) = .ok b) : ∃ a, x = .ok a ∧ f a = .ok b := by
  cases x with
  | error error => cases h
  | ok a => exact ⟨a, rfl, h⟩

/-! ## Composing loads -/

namespace Loading

variable {α β : Type}

/-- Sequencing runs the first computation and, if it has a result, the second one
on the program that the first has reached. -/
theorem bind_apply (x : Loading α) (f : α → Loading β) (p : Program) :
    (x >>= f) p =
      match x p with
      | (.ok a, p') => f a p'
      | (.error stop, p') => (.error stop, p') := by
  show (x >>= f).run p = _
  simp only [ExceptT.run, bind, ExceptT.bind, ExceptT.mk, StateT.bind,
    ExceptT.bindCont]
  rcases x p with ⟨_ | a, p'⟩ <;> rfl

/-- A computation that adds loaded paths to the program and changes nothing else,
whatever its outcome is. -/
def Asks (x : Loading α) : Prop :=
  ∀ p : Program, ∃ paths, (x p).2 = { p with loaded := paths ++ p.loaded }

namespace Asks

theorem pure (a : α) : Asks (Pure.pure a) := fun _ => ⟨[], rfl⟩

theorem throw (stop : Stop) : Asks (MonadExcept.throw stop : Loading α) := fun _ => ⟨[], rfl⟩

theorem ofExcept (x : Except Error α) : Asks (Loading.ofExcept x) := by
  cases x with
  | ok a => exact .pure a
  | error error => exact .throw (.error error)

theorem bind {x : Loading α} {f : α → Loading β} (hx : Asks x) (hf : ∀ a, Asks (f a)) :
    Asks (x >>= f) := by
  intro p
  obtain ⟨paths, hPaths⟩ := hx p
  rw [bind_apply]
  rcases hRun : x p with ⟨stop | a, p'⟩ <;> rw [hRun] at hPaths
  · exact ⟨paths, hPaths⟩
  · obtain ⟨others, hOthers⟩ := hf a p'
    replace hPaths : p' = { p with loaded := paths ++ p.loaded } := hPaths
    refine ⟨others ++ paths, ?_⟩
    show (f a p').2 = _
    rw [hOthers, hPaths, List.append_assoc]

end Asks

end Loading

namespace Program

/-! ## Modules -/

section

variable {enter : String → Loading (List (List Form))} {own forms : List Form} {form : Form}
  {p : Program}

theorem modulesOf_other (h : form.keyword? ≠ some "use") :
    modulesOf enter own (form :: forms) = modulesOf enter (form :: own) forms := by
  rw [modulesOf, if_neg h]

theorem modulesOf_unnamed {error : Error} (h : form.keyword? = some "use")
    (hPath : usePath form = .error error) :
    modulesOf enter own (form :: forms) p = (.error (.error error), p) := by
  rw [modulesOf, if_pos h, hPath]
  rfl

theorem modulesOf_loaded {path : String} (h : form.keyword? = some "use")
    (hPath : usePath form = .ok path) (hLoaded : path ∈ p.loaded) :
    modulesOf enter own (form :: forms) p = modulesOf enter own forms p := by
  have hContains : p.loaded.contains path = true := List.contains_iff_mem.mpr hLoaded
  rw [modulesOf, if_pos h, hPath]
  show (if p.loaded.contains path then _ else _ : Loading (List (List Form))) p = _
  rw [if_pos hContains]

/-- A path that has not been asked for counts as loaded before it is entered. -/
theorem modulesOf_new {path : String} (h : form.keyword? = some "use")
    (hPath : usePath form = .ok path) (hNew : path ∉ p.loaded) :
    modulesOf enter own (form :: forms) p =
      (enter path >>= fun used => modulesOf enter own forms >>= fun others =>
        pure (used ++ others) : Loading (List (List Form))) { p with loaded := path :: p.loaded } := by
  have hContains : ¬ p.loaded.contains path = true := fun h => hNew (List.contains_iff_mem.mp h)
  rw [modulesOf, if_pos h, hPath]
  show (if p.loaded.contains path then _ else _ : Loading (List (List Form))) p = _
  rw [if_neg hContains]
  rfl

end

/-- **Collecting modules adds loaded paths only.** -/
theorem modulesOf_loads {enter : String → Loading (List (List Form))}
    (hEnter : ∀ path, (enter path).Asks) :
    ∀ forms own : List Form, (modulesOf enter own forms).Asks := by
  intro forms
  induction forms with
  | nil => exact fun own => .pure _
  | cons form forms ih =>
      intro own p
      by_cases hUse : form.keyword? = some "use"
      · cases hPath : usePath form with
        | error error =>
            rw [modulesOf_unnamed hUse hPath]
            exact ⟨[], rfl⟩
        | ok path =>
            by_cases hLoaded : path ∈ p.loaded
            · rw [modulesOf_loaded hUse hPath hLoaded]
              exact ih own p
            · rw [modulesOf_new hUse hPath hLoaded]
              obtain ⟨paths, hPaths⟩ := (hEnter path).bind
                (fun _ => (ih own).bind fun others => .pure _) { p with loaded := path :: p.loaded }
              refine ⟨paths ++ [path], hPaths.trans ?_⟩
              rw [List.append_assoc]
              rfl
      · rw [modulesOf_other hUse]
        exact ih (form :: own) p

/-- The modules that a path amounts to, where modules may use each other so deeply. -/
def enterWith (load : Loader) (fuel : Nat) (path : String) : Loading (List (List Form)) :=
  match load path with
  | .error stop => throw stop
  | .ok source => Loading.ofExcept (Form.parseAll source) >>= fun forms => collect load fuel forms

theorem collect_succ (load : Loader) (fuel : Nat) (forms : List Form) :
    collect load (fuel + 1) forms = modulesOf (enterWith load fuel) [] forms := rfl

theorem collect_loaded (load : Loader) :
    ∀ (fuel : Nat) (forms : List Form), (collect load fuel forms).Asks := by
  intro fuel
  induction fuel with
  | zero => exact fun _ => .throw .outOfFuel
  | succ fuel ih =>
      intro forms
      rw [collect_succ]
      refine modulesOf_loads (fun path => ?_) forms []
      unfold enterWith
      cases load path with
      | error stop => exact .throw stop
      | ok source => exact .bind (.ofExcept _) fun forms => ih forms

theorem enterWith_loaded (load : Loader) (fuel : Nat) (path : String) :
    (enterWith load fuel path).Asks := by
  unfold enterWith
  cases load path with
  | error stop => exact .throw stop
  | ok source => exact .bind (.ofExcept _) fun forms => collect_loaded load fuel forms

/-! ## Declarations -/

/-- Whether a form declares a type or a type variable. -/
def isDeclaration (form : Form) : Bool :=
  form.keyword? = some "deftype" || form.keyword? = some "contract"

/-- A registry in which more names are taken than in another one. -/
structure TakesMore (r r' : Registry) : Prop where
  taken : ∀ name, r.isTaken name = true → r'.isTaken name = true
  fresh : ∃ name, r.isTaken name = false ∧ r'.isTaken name = true

theorem takesMore_declare {r r' : Registry} {name : String} {parent : Ty}
    (h : r.declare name parent = .ok r') : TakesMore r r' := by
  obtain ⟨hFree, resolved, -, -, rfl⟩ := Registry.declare_ok h
  refine ⟨fun _ => Registry.isTaken_insert_parent r name resolved, name, hFree, ?_⟩
  simp [Registry.isTaken, Dict.contains, Dict.get?_insert]

theorem takesMore_declareVariable {r r' : Registry} {name : String} {bound : Option Ty}
    (h : r.declareVariable name bound = .ok r') : TakesMore r r' := by
  obtain ⟨hFree, resolved, -, rfl⟩ := Registry.declareVariable_ok h
  refine ⟨fun _ => Registry.isTaken_insert_bound r name resolved, name, hFree, ?_⟩
  simp [Registry.isTaken, Dict.contains, Dict.get?_insert]

theorem declare_other {form : Form} (h : isDeclaration form = false) (p : Program) :
    p.declare form = .ok p := by
  rw [isDeclaration, Bool.or_eq_false_iff] at h
  unfold declare
  split
  · rename_i hKeyword
    exact absurd hKeyword (of_decide_eq_false h.1)
  · rename_i hKeyword
    exact absurd hKeyword (of_decide_eq_false h.2)
  · rfl

/-- What declaring does: a form that declares nothing leaves the program alone, and
one that declares something takes a name that was free. -/
theorem declare_ok {p p' : Program} {form : Form} (h : p.declare form = .ok p') :
    (isDeclaration form = false ∧ p' = p) ∨
      (isDeclaration form = true ∧ ∃ types : Registry, p' = { p with types } ∧
        p.types.Declares types ∧ TakesMore p.types types) := by
  unfold declare at h
  unfold isDeclaration
  split at h
  · rename_i hKeyword
    refine .inr ⟨by rw [hKeyword]; rfl, ?_⟩
    split at h
    · obtain ⟨name, -, h⟩ := except_bind_ok h
      split at h
      · cases h
      · obtain ⟨parent, -, h⟩ := except_bind_ok h
        obtain ⟨types, hTypes, h⟩ := except_bind_ok h
        cases h
        exact ⟨types, rfl, .declare .refl hTypes, takesMore_declare hTypes⟩
    · cases h
  · rename_i hKeyword
    refine .inr ⟨by rw [hKeyword]; rfl, ?_⟩
    split at h
    · obtain ⟨name, -, h⟩ := except_bind_ok h
      obtain ⟨types, hTypes, h⟩ := except_bind_ok h
      cases h
      exact ⟨types, rfl, .declareVariable .refl hTypes, takesMore_declareVariable hTypes⟩
    · obtain ⟨name, -, h⟩ := except_bind_ok h
      obtain ⟨bound, -, h⟩ := except_bind_ok h
      obtain ⟨types, hTypes, h⟩ := except_bind_ok h
      cases h
      exact ⟨types, rfl, .declareVariable .refl hTypes, takesMore_declareVariable hTypes⟩
    · cases h
  · rename_i hType hVariable
    cases h
    refine .inl ⟨?_, rfl⟩
    rw [Bool.or_eq_false_iff]
    exact ⟨decide_eq_false hType, decide_eq_false hVariable⟩

/-- One declaration after the other. -/
theorem declareAll_cons (form : Form) (forms : List Form) (p : Program) :
    declareAll (form :: forms) p =
      match p.declare form with
      | .ok p' => declareAll forms p'
      | .error error => (.error (.error error), p) := by
  show (Loading.ofExcept (p.declare form) >>= fun p' => set p' >>= fun _ => declareAll forms :
    Loading Unit) p = _
  cases p.declare form with
  | ok p' => rfl
  | error error => rfl

/-- **Declarations change types only**, and take nothing back. -/
theorem declareAll_types :
    ∀ (forms : List Form) (p : Program), ∃ types : Registry,
      (declareAll forms p).2 = { p with types } ∧ p.types.Declares types := by
  intro forms
  induction forms with
  | nil => exact fun p => ⟨p.types, rfl, .refl⟩
  | cons form forms ih =>
      intro p
      rw [declareAll_cons]
      cases hDeclare : p.declare form with
      | error error => exact ⟨p.types, rfl, .refl⟩
      | ok p' =>
          rcases declare_ok hDeclare with ⟨-, rfl⟩ | ⟨-, between, rfl, hFirst, -⟩
          · exact ih p'
          · obtain ⟨types, hTypes, hRest⟩ := ih { p with types := between }
            exact ⟨types, hTypes, hFirst.trans hRest⟩

/-! ## Lowering -/

/-- One module after the other. -/
theorem lowerAll_cons (forms : List Form) (modules : List (List Form)) (p : Program) :
    lowerAll (forms :: modules) p =
      match lowerFrom p.types [] [] forms with
      | .error error => (.error (.error error), p)
      | .ok (functions, statements) =>
        (lowerAll modules >>= fun others => pure (statements ++ others) : Loading (List Expr))
          (p.define functions) := by
  show (Loading.ofExcept (lowerFrom p.types [] [] forms) >>= fun lowered =>
    modify (·.define lowered.1) >>= fun _ => lowerAll modules >>= fun others =>
      pure (lowered.2 ++ others) : Loading (List Expr)) p = _
  cases lowerFrom p.types [] [] forms with
  | error error => rfl
  | ok lowered => rfl

theorem define_append (p : Program) (functions others : List Function) :
    p.define (functions ++ others) = (p.define functions).define others := by
  rw [define, List.foldl_append]
  rfl

/-- **Lowering defines functions**, wherever it stops, and does nothing else. -/
theorem lowerAll_defines :
    ∀ (modules : List (List Form)) (p : Program), ∃ functions,
      (lowerAll modules p).2 = p.define functions := by
  intro modules
  induction modules with
  | nil => exact fun p => ⟨[], rfl⟩
  | cons forms modules ih =>
      intro p
      rw [lowerAll_cons]
      cases lowerFrom p.types [] [] forms with
      | error error => exact ⟨[], rfl⟩
      | ok lowered =>
          obtain ⟨others, hOthers⟩ := ih (p.define lowered.1)
          refine ⟨lowered.1 ++ others, ?_⟩
          rw [define_append, ← hOthers]
          show ((lowerAll modules >>= _ : Loading (List Expr)) (p.define lowered.1)).2 = _
          rw [Loading.bind_apply]
          rcases lowerAll modules (p.define lowered.1) with ⟨stop | others, p'⟩ <;> rfl

/-- Lowering changes functions only. -/
theorem lowerAll_functions (modules : List (List Form)) (p : Program) :
    ∃ functions, (lowerAll modules p).2 = { p with functions } := by
  obtain ⟨functions, hDefines⟩ := lowerAll_defines modules p
  exact ⟨(p.define functions).functions, hDefines⟩

/-! ## Whole loads -/

/-- Declare what modules declare, and lower them. -/
def build (modules : List (List Form)) : Loading (List Expr) :=
  declareAll modules.flatten >>= fun _ => lowerAll modules

/-- The steps of a load of forms, without the last one. -/
def prepare (load : Loader) (fuel : Nat) (forms : List Form) : Loading (List Expr) :=
  collect load fuel forms >>= build

/-- A load reads the text, prepares what it adds, and adds its expressions last. -/
theorem absorb_eq (load : Loader) (fuel : Nat) (source : String) :
    absorb load fuel source =
      Loading.ofExcept (Form.parseAll source) >>= fun forms =>
        prepare load fuel forms >>= fun added =>
          modify (fun p => { p with statements := p.statements ++ added }) >>= fun _ => pure added := by
  simp only [prepare, build, bind_assoc]
  rfl

theorem absorb_unreadable {load : Loader} {fuel : Nat} {source : String} {error : Error}
    (h : Form.parseAll source = .error error) (p : Program) :
    absorb load fuel source p = (.error (.error error), p) := by
  rw [absorb_eq, h]
  rfl

theorem absorb_readable {load : Loader} {fuel : Nat} {source : String} {forms : List Form}
    (h : Form.parseAll source = .ok forms) (p : Program) :
    absorb load fuel source p =
      match prepare load fuel forms p with
      | (.error stop, p') => (.error stop, p')
      | (.ok added, p') => (.ok added, { p' with statements := p'.statements ++ added }) := by
  rw [absorb_eq, h]
  show (prepare load fuel forms >>= _ : Loading (List Expr)) p = _
  rw [Loading.bind_apply]
  rcases prepare load fuel forms p with ⟨stop | added, p'⟩ <;> rfl

/-- Building modules changes types and functions only. -/
theorem build_changes (modules : List (List Form)) (p : Program) :
    ∃ types functions, (build modules p).2 = { p with types, functions } := by
  obtain ⟨types, hTypes, -⟩ := declareAll_types modules.flatten p
  rw [build, Loading.bind_apply]
  rcases hDeclare : declareAll modules.flatten p with ⟨stop | _, p'⟩ <;> rw [hDeclare] at hTypes
  · exact ⟨types, p.functions, hTypes⟩
  · obtain ⟨functions, hFunctions⟩ := lowerAll_functions modules p'
    replace hTypes : p' = { p with types } := hTypes
    refine ⟨types, functions, ?_⟩
    show (lowerAll modules p').2 = _
    rw [hFunctions, hTypes]

/-- Everything but the last step of a load leaves the expressions at top level alone. -/
theorem prepare_statements (load : Loader) (fuel : Nat) (forms : List Form) (p : Program) :
    (prepare load fuel forms p).2.statements = p.statements := by
  obtain ⟨paths, hPaths⟩ := collect_loaded load fuel forms p
  rw [prepare, Loading.bind_apply]
  rcases hCollect : collect load fuel forms p with ⟨stop | modules, p'⟩ <;> rw [hCollect] at hPaths
  · show p'.statements = _
    rw [show p' = _ from hPaths]
  · obtain ⟨types, functions, hBuild⟩ := build_changes modules p'
    show (build modules p').2.statements = _
    rw [hBuild, show p' = _ from hPaths]

end Program

end ClauseLisp
