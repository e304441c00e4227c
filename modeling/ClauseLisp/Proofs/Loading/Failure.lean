import Mathlib
import ClauseLisp.Proofs.Loading.Steps

/-!
# Loads that fail

A session goes on with its program after a load has failed, so it matters what a
failed load leaves behind.  Expressions at top level are added at the very end,
and the functions of a module after all of it has been lowered.  But a path counts
as loaded before anything has been read from it, and a type is declared before
the forms after it have been looked at.  If the load then fails, the path is not
asked for again, and the type cannot be declared again.

## Main results

* `failed_use_is_not_repeated` — a module that could not be loaded counts as
  loaded, and a declaration in front of a fault stays.
* `absorb_failure` — what a failed load changes, and when it changes nothing.
-/

namespace ClauseLisp

open Ty (Registry)

namespace Program

/-! ## What forms use and declare -/

/-- Whether a form uses a module. -/
def isUse (form : Form) : Bool := form.keyword? = some "use"

/-- The paths that forms use, up to the first `use` that names none. -/
def pathsUsed : List Form → List String
  | [] => []
  | form :: forms =>
    if form.keyword? = some "use" then
      match usePath form with
      | .ok path => path :: pathsUsed forms
      | .error _ => []
    else pathsUsed forms

/-- Whether every `use` among forms names a path. -/
def usesNamed : List Form → Bool
  | [] => true
  | form :: forms =>
    if form.keyword? = some "use" then
      match usePath form with
      | .ok _ => usesNamed forms
      | .error _ => false
    else usesNamed forms

/-- All modules that a text uses have been loaded. -/
def UsesNothingNew (p : Program) (source : String) : Prop :=
  ∀ forms, Form.parseAll source = .ok forms → ∀ path ∈ pathsUsed forms, path ∈ p.loaded

/-- The first declaration of a text is refused, if the text comes to it. -/
def DeclaresNothing (p : Program) (source : String) : Prop :=
  ∀ forms, Form.parseAll source = .ok forms → usesNamed forms = true →
    ∀ form, forms.find? isDeclaration = some form → ∃ error, p.declare form = .error error

/-! ## Modules -/

/-- A module that is asked for counts as loaded from then on. -/
theorem exists_loaded_of_new {enter : String → Loading (List (List Form))}
    (hEnter : ∀ path, (enter path).Asks) {p : Program} :
    ∀ (forms own : List Form), (∃ path ∈ pathsUsed forms, path ∉ p.loaded) →
      ∃ path, path ∉ p.loaded ∧ path ∈ (modulesOf enter own forms p).2.loaded := by
  intro forms
  induction forms with
  | nil =>
      rintro own ⟨path, hUsed, -⟩
      cases hUsed
  | cons form forms ih =>
      rintro own ⟨path, hUsed, hNew⟩
      rw [pathsUsed] at hUsed
      by_cases hUse : form.keyword? = some "use"
      · rw [if_pos hUse] at hUsed
        cases hPath : usePath form with
        | error error =>
            rw [hPath] at hUsed
            cases hUsed
        | ok first =>
            rw [hPath] at hUsed
            by_cases hLoaded : first ∈ p.loaded
            · rw [modulesOf_loaded hUse hPath hLoaded]
              rcases List.mem_cons.mp hUsed with rfl | hUsed
              · exact absurd hLoaded hNew
              · exact ih own ⟨path, hUsed, hNew⟩
            · rw [modulesOf_new hUse hPath hLoaded]
              refine ⟨first, hLoaded, ?_⟩
              obtain ⟨paths, hPaths⟩ := (hEnter first).bind
                (fun _ => (modulesOf_loads hEnter forms own).bind fun others => .pure _)
                { p with loaded := first :: p.loaded }
              rw [hPaths]
              exact List.mem_append_right paths List.mem_cons_self
      · rw [if_neg hUse] at hUsed
        rw [modulesOf_other hUse]
        exact ih (form :: own) ⟨path, hUsed, hNew⟩

/-- If all modules that forms use have been loaded, only the forms themselves are
left; and nothing is left if a `use` names no path. -/
theorem modulesOf_nothingNew {enter : String → Loading (List (List Form))} {p : Program} :
    ∀ (forms own : List Form), (∀ path ∈ pathsUsed forms, path ∈ p.loaded) →
      (usesNamed forms = true → modulesOf enter own forms p =
        (.ok [own.reverse ++ forms.filter fun form => !isUse form], p)) ∧
      (usesNamed forms = false → ∃ error, modulesOf enter own forms p = (.error (.error error), p)) := by
  intro forms
  induction forms with
  | nil =>
      refine fun own _ => ⟨fun _ => ?_, nofun⟩
      rw [List.filter_nil, List.append_nil]
      rfl
  | cons form forms ih =>
      intro own hUsed
      rw [pathsUsed] at hUsed
      rw [usesNamed]
      by_cases hUse : form.keyword? = some "use"
      · have hIsUse : isUse form = true := decide_eq_true hUse
        rw [if_pos hUse] at hUsed ⊢
        rw [List.filter_cons, hIsUse]
        cases hPath : usePath form with
        | error error => exact ⟨nofun, fun _ => ⟨error, modulesOf_unnamed hUse hPath⟩⟩
        | ok path =>
            rw [hPath] at hUsed
            rw [modulesOf_loaded hUse hPath (hUsed path List.mem_cons_self)]
            exact ih own fun path h => hUsed path (List.mem_cons_of_mem _ h)
      · have hIsUse : isUse form = false := decide_eq_false hUse
        rw [if_neg hUse] at hUsed ⊢
        rw [List.filter_cons, hIsUse, modulesOf_other hUse]
        obtain ⟨hNamed, hUnnamed⟩ := ih (form :: own) hUsed
        refine ⟨fun h => ?_, hUnnamed⟩
        rw [hNamed h, List.reverse_cons, List.append_assoc]
        rfl

/-! ## Declarations -/

/-- Where the first declaration is refused, or there is none, nothing is declared. -/
theorem declareAll_nothing {p : Program} :
    ∀ (forms : List Form),
      (∀ form, forms.find? isDeclaration = some form → ∃ error, p.declare form = .error error) →
      (declareAll forms p).2 = p := by
  intro forms
  induction forms with
  | nil => exact fun _ => rfl
  | cons form forms ih =>
      intro hRefused
      rw [declareAll_cons]
      cases hDeclare : p.declare form with
      | error error => rfl
      | ok p' =>
          rcases declare_ok hDeclare with ⟨hNone, rfl⟩ | ⟨hDeclares, -⟩
          · refine ih fun other h => hRefused other ?_
            rw [List.find?_cons, hNone]
            exact h
          · obtain ⟨error, hError⟩ := hRefused form (by rw [List.find?_cons, hDeclares])
            rw [hError] at hDeclare
            cases hDeclare

/-- Where the first declaration is accepted, a name is taken that was free. -/
theorem declareAll_something {p : Program} :
    ∀ (forms : List Form) (form : Form), forms.find? isDeclaration = some form →
      (∀ error, p.declare form ≠ .error error) →
      TakesMore p.types (declareAll forms p).2.types := by
  intro forms
  induction forms with
  | nil => exact fun _ h => nomatch h
  | cons first forms ih =>
      intro form hFind hAccepted
      rw [declareAll_cons]
      rw [List.find?_cons] at hFind
      cases hDeclare : p.declare first with
      | error error =>
          cases hFirst : isDeclaration first with
          | true =>
              rw [hFirst] at hFind
              cases hFind
              exact absurd hDeclare (hAccepted error)
          | false =>
              rw [declare_other hFirst] at hDeclare
              cases hDeclare
      | ok p' =>
          rcases declare_ok hDeclare with ⟨hNone, rfl⟩ | ⟨hDeclares, between, rfl, -, hTakes⟩
          · rw [hNone] at hFind
            exact ih form hFind hAccepted
          · obtain ⟨types, hTypes, hLater⟩ := declareAll_types forms { p with types := between }
            obtain ⟨name, hFree, hNow⟩ := hTakes.fresh
            show TakesMore p.types (declareAll forms { p with types := between }).2.types
            rw [hTypes]
            exact ⟨fun name h => hLater.isTaken (hTakes.taken name h), name, hFree,
              hLater.isTaken hNow⟩

/-! ## Lowering -/

/-- A single module that cannot be lowered leaves nothing behind. -/
theorem lowerAll_single {forms : List Form} {p : Program} {stop : Stop}
    (h : (lowerAll [forms] p).1 = .error stop) : (lowerAll [forms] p).2 = p := by
  rw [lowerAll_cons] at h ⊢
  cases hLower : lowerFrom p.types [] [] forms with
  | error error => rfl
  | ok lowered =>
      rw [hLower] at h
      cases h

/-! ## Loads -/

/-- A load that asks for a new module does not leave the program as it was. -/
theorem prepare_ne_of_new {load : Loader} {fuel : Nat} {forms : List Form} {p : Program}
    (hNew : ∃ path ∈ pathsUsed forms, path ∉ p.loaded) :
    (prepare load (fuel + 1) forms p).2 ≠ p := by
  intro hSame
  obtain ⟨path, hBefore, hLoaded⟩ :=
    exists_loaded_of_new (enterWith_loaded load fuel) forms [] hNew
  rw [← collect_succ] at hLoaded
  refine hBefore ?_
  rw [← hSame, prepare, Loading.bind_apply]
  rcases hCollect : collect load (fuel + 1) forms p with ⟨stop | modules, p'⟩ <;>
    rw [hCollect] at hLoaded
  · exact hLoaded
  · obtain ⟨types, functions, hBuild⟩ := build_changes modules p'
    show path ∈ (build modules p').2.loaded
    rw [hBuild]
    exact hLoaded

/-- Without new modules a load only declares and lowers the forms themselves, if
every `use` names a path, and fails at once otherwise. -/
theorem prepare_of_nothingNew (load : Loader) (fuel : Nat) {forms : List Form} {p : Program}
    (hUsed : ∀ path ∈ pathsUsed forms, path ∈ p.loaded) :
    (usesNamed forms = true →
      prepare load (fuel + 1) forms p = build [forms.filter fun form => !isUse form] p) ∧
    (usesNamed forms = false → (prepare load (fuel + 1) forms p).2 = p) := by
  obtain ⟨hNamed, hUnnamed⟩ := modulesOf_nothingNew forms [] hUsed
  constructor
  · intro h
    rw [prepare, Loading.bind_apply]
    rw [show collect load (fuel + 1) forms p = _ from hNamed h]
    rfl
  · intro h
    obtain ⟨error, hError⟩ := hUnnamed h
    rw [prepare, Loading.bind_apply]
    rw [show collect load (fuel + 1) forms p = _ from hError]

/-- What a failed build of one module changes: types that it declares before the
first fault, and nothing else. -/
theorem build_single {forms : List Form} {p : Program} {stop : Stop}
    (h : (build [forms] p).1 = .error stop) : (build [forms] p).2 = (declareAll forms p).2 := by
  have hFlatten : [forms].flatten = forms := by simp
  rw [build, Loading.bind_apply, hFlatten] at h ⊢
  rcases hDeclare : declareAll forms p with ⟨stop' | _, p'⟩
  · rfl
  · rw [hDeclare] at h
    exact lowerAll_single h

/-- The first declaration among forms is the first one among those that use no
module. -/
theorem find?_isDeclaration (forms : List Form) :
    (forms.filter fun form => !isUse form).find? isDeclaration = forms.find? isDeclaration := by
  rw [List.find?_filter]
  congr 1
  funext form
  cases hDeclares : isDeclaration form with
  | false => simp
  | true =>
      have hNotUse : isUse form = false := by
        refine decide_eq_false fun hUse => ?_
        rw [isDeclaration, hUse] at hDeclares
        cases hDeclares
      rw [hNotUse]
      rfl

/-- **What a failed load changes.**  The expressions at top level stay as they were.
If the load uses no module that has not been loaded before, it can only add types.
And it leaves the whole program as it was exactly if, besides, the first declaration
that it comes to is refused. -/
theorem absorb_failure {load : Loader} {fuel : Nat} {source : String} {p : Program} {error : Error}
    (h : (absorb load fuel source p).1 = .error (.error error)) :
    (absorb load fuel source p).2.statements = p.statements ∧
      (p.UsesNothingNew source →
        ∃ types, (absorb load fuel source p).2 = { p with types }) ∧
      ((absorb load fuel source p).2 = p ↔
        p.UsesNothingNew source ∧ p.DeclaresNothing source) := by
  cases hParse : Form.parseAll source with
  | error fault =>
      rw [absorb_unreadable hParse]
      have hNever : ∀ forms, Form.parseAll source ≠ .ok forms := by
        intro forms hForms
        rw [hParse] at hForms
        cases hForms
      exact ⟨rfl, fun _ => ⟨p.types, rfl⟩,
        fun _ => ⟨fun forms hForms => absurd hForms (hNever forms),
          fun forms hForms => absurd hForms (hNever forms)⟩, fun _ => rfl⟩
  | ok forms =>
      have hPrepare : absorb load fuel source p = prepare load fuel forms p := by
        rw [absorb_readable hParse] at h ⊢
        rcases hRun : prepare load fuel forms p with ⟨stop | added, p'⟩
        · rfl
        · rw [hRun] at h
          cases h
      rw [hPrepare] at h ⊢
      have hUses : p.UsesNothingNew source ↔ ∀ path ∈ pathsUsed forms, path ∈ p.loaded := by
        simp only [UsesNothingNew, hParse, Except.ok.injEq, forall_eq']
      have hDeclares : p.DeclaresNothing source ↔ (usesNamed forms = true → ∀ form,
          forms.find? isDeclaration = some form → ∃ error, p.declare form = .error error) := by
        simp only [DeclaresNothing, hParse, Except.ok.injEq, forall_eq']
      rw [hUses, hDeclares]
      refine ⟨prepare_statements load fuel forms p, ?_⟩
      cases fuel with
      | zero => cases h
      | succ fuel =>
          by_cases hUsed : ∀ path ∈ pathsUsed forms, path ∈ p.loaded
          · obtain ⟨hNamed, hUnnamed⟩ := prepare_of_nothingNew load fuel hUsed
            cases hUsesNamed : usesNamed forms with
            | false =>
                rw [hUnnamed hUsesNamed]
                exact ⟨fun _ => ⟨p.types, rfl⟩, fun _ => ⟨hUsed, nofun⟩, fun _ => rfl⟩
            | true =>
                rw [hNamed hUsesNamed] at h ⊢
                rw [build_single h]
                obtain ⟨types, hTypes, -⟩ :=
                  declareAll_types (forms.filter fun form => !isUse form) p
                refine ⟨fun _ => ⟨types, hTypes⟩, fun hSame => ⟨hUsed, fun _ form hFind => ?_⟩, ?_⟩
                · -- An accepted declaration would have taken a name that is still free.
                  refine Classical.byContradiction fun hAccepted => ?_
                  rw [← find?_isDeclaration] at hFind
                  obtain ⟨name, hFree, hTaken⟩ := (declareAll_something _ form hFind
                    fun error hError => hAccepted ⟨error, hError⟩).fresh
                  rw [hSame, hFree] at hTaken
                  cases hTaken
                · rintro ⟨-, hRefused⟩
                  refine declareAll_nothing _ fun form hFind => ?_
                  rw [find?_isDeclaration] at hFind
                  exact hRefused rfl form hFind
          · have hNew : ∃ path ∈ pathsUsed forms, path ∉ p.loaded := by
              simpa only [Classical.not_forall, exists_prop] using hUsed
            exact ⟨fun h => absurd h hUsed, fun hSame => absurd hSame (prepare_ne_of_new hNew),
              fun h => absurd h.1 hUsed⟩

/-- A single module, which declares a type. -/
def units : Loader := .ofTable ⟨[("units", "(deftype metre int)")]⟩

/-- The program of a text that uses the module. -/
def withUnits : Program := (absorb units 5 "(use \"units\")" {}).2

/-- A text that uses the module again, and declares its type again before another one. -/
def redeclaring : String := "(use \"units\") (deftype metre str) (deftype mile int)"

/-- The module has been loaded and the name is taken, so the text is refused before it comes
to the other type, and leaves the program as it was. -/
theorem absorb_failure_of_redeclaring :
    withUnits.loaded = ["units"] ∧ withUnits.types.isDeclared "metre" = true ∧
      (absorb units 5 redeclaring withUnits).1 = .error (.error (.typing (.taken "metre"))) ∧
      (absorb units 5 redeclaring withUnits).2 = withUnits := by
  have hLoaded : withUnits.loaded = ["units"] := by cbv
  have hFails : (absorb units 5 redeclaring withUnits).1 =
      .error (.error (.typing (.taken "metre"))) := by cbv
  have hPaths : (Form.parseAll redeclaring).map pathsUsed = .ok ["units"] := by cbv
  have hFirst : (Form.parseAll redeclaring).map (List.find? isDeclaration) =
      .ok (some (.list [.sym "deftype" none, .sym "metre" none, .sym "str" none])) := by cbv
  have hRefused : withUnits.declare
      (.list [.sym "deftype" none, .sym "metre" none, .sym "str" none]) =
        .error (.typing (.taken "metre")) := by cbv
  refine ⟨hLoaded, by cbv, hFails, (absorb_failure hFails).2.2.mpr ⟨?_, ?_⟩⟩
  · intro forms hForms path hUsed
    rw [hForms] at hPaths
    obtain hSame : pathsUsed forms = ["units"] := Except.ok.inj hPaths
    rw [hLoaded, ← hSame]
    exact hUsed
  · intro forms hForms _ form hFind
    rw [hForms] at hFirst
    obtain rfl := Option.some.inj (hFind.symm.trans (Except.ok.inj hFirst))
    exact ⟨_, hRefused⟩

/-- Load a text where there are no modules. -/
def loadAlone (source : String) : Loading (List Expr) := absorb (Loader.ofTable {}) 5 source

/-- **A module that could not be loaded counts as loaded**, and a declaration in
front of a fault stays.  So the first entry is accepted when it is repeated, though
there still is no such module, and the name is taken when the second one is
corrected. -/
theorem failed_use_is_not_repeated :
    (loadAlone "(use \"m\")" {}).1 = .error (.error (.eval (.cannotLoad "m" "not found"))) ∧
      (loadAlone "(use \"m\")" (loadAlone "(use \"m\")" {}).2).1 = .ok [] ∧
      (loadAlone "(deftype m int) (if)" {}).1 = .error (.error (.arity 3 0 (some "(if)"))) ∧
      (loadAlone "(deftype m int) (if)" {}).2.types.isTaken "m" = true := by
  refine ⟨?_, ?_, ?_, ?_⟩ <;> cbv

end Program

end ClauseLisp
