import ClauseLisp.Proofs.Loading.Lowered

/-!
# What a load adds

A load may fail at any point, and what has been done before stays.  Wherever it stops,
it has declared types, defined functions and added expressions, and whatever is new in
the program is made of forms, with the types that the load ends with.

What holds of all code that forms are lowered to holds of loaded programs by this, so
that nothing else has to follow a load again.

## Main results

* `Program.GrowsTo` — how a load changes a program.
* `absorb_adds` — every load changes it so.
* `absorb_defines` — a load puts functions in place of earlier ones.
-/

namespace ClauseLisp

open Ty (Registry)

/-- A clause that is made of a form. -/
structure Clause.FromForm (r : Registry) (c : Clause) : Prop where
  head : ∃ keyword form params rest,
    Form.clauseHead r keyword form params rest = .ok (c.params, c.ret)
  body : Form.Lowered r false c.body
  pure : c.memoize = true → c.pure = true

/-- A function that is made of forms, and has not been called. -/
structure Function.FromForms (r : Registry) (f : Function) : Prop where
  clauses : ∀ c ∈ f.clauses, c.FromForm r
  nonempty : f.clauses ≠ []
  apart : r.isDeclared f.name = false
  memo : f.memo = {}

theorem Form.fromForm_of_definition {r : Registry} {keyword : String} {form : Form}
    {name : String} {clause : Clause} (h : form.definition r keyword = .ok (name, clause)) :
    clause.FromForm r := by
  unfold Form.definition at h
  split at h
  · split at h
    · cases h
    · split at h
      · rename_i hClause
        cases h
        obtain ⟨head, hHead, hClause⟩ := except_bind_ok hClause
        obtain ⟨body, hBody, hClause⟩ := except_bind_ok hClause
        cases hClause
        have hBody := Form.lowered_body r _ (Form.isEmptyBlock_of_clauseHead hHead) hBody
        refine ⟨⟨_, _, _, _, hHead⟩, hBody, fun hMemoize => ?_⟩
        exact Bool.or_eq_true _ _ |>.mpr (.inl hMemoize)
      · cases h
  · cases h

namespace Program

/-! ## Modules -/

theorem fromForms_addClause {r : Registry} {name : String} {clause : Clause}
    (hClause : clause.FromForm r) (hApart : r.isDeclared name = false) :
    ∀ {functions : List Function}, (∀ f ∈ functions, f.FromForms r) →
      ∀ f ∈ addClause name clause functions, f.FromForms r := by
  intro functions
  induction functions with
  | nil =>
      intro _
      exact List.forall_mem_singleton.mpr
        ⟨List.forall_mem_singleton.mpr hClause, List.cons_ne_nil clause [], hApart, rfl⟩
  | cons first others ih =>
      intro hFunctions
      obtain ⟨hFirst, hOthers⟩ := List.forall_mem_cons.mp hFunctions
      rw [addClause]
      split
      · have hClauses : ∀ c ∈ first.clauses ++ [clause], c.FromForm r :=
          List.forall_mem_append.mpr ⟨hFirst.clauses, List.forall_mem_singleton.mpr hClause⟩
        exact List.forall_mem_cons.mpr
          ⟨⟨hClauses, List.append_ne_nil_of_left_ne_nil hFirst.nonempty _, hFirst.apart, hFirst.memo⟩,
            hOthers⟩
      · exact List.forall_mem_cons.mpr ⟨hFirst, ih hOthers⟩

/-- Lowering a module gives functions and expressions that are made of its forms. -/
theorem lowerFrom_adds {r : Registry} {lowered : List Function × List Expr} :
    ∀ {forms : List Form} {functions : List Function} {statements : List Expr},
      lowerFrom r functions statements forms = .ok lowered → (∀ f ∈ functions, f.FromForms r) →
      (∀ e ∈ statements, Form.Lowered r true e) →
      (∀ f ∈ lowered.1, f.FromForms r) ∧ ∀ e ∈ lowered.2, Form.Lowered r true e := by
  intro forms
  induction forms with
  | nil =>
      intro functions statements h hFunctions hStatements
      cases h
      exact ⟨hFunctions, fun e he => hStatements e (List.mem_reverse.mp he)⟩
  | cons form forms ih =>
      intro functions statements h hFunctions hStatements
      have hStatement : ∀ {statement : Expr}, form.expr r true = .ok statement →
          ∀ e ∈ statement :: statements, Form.Lowered r true e := fun hExpr =>
        List.forall_mem_cons.mpr ⟨Form.lowered_expr r form hExpr, hStatements⟩
      unfold lowerFrom at h
      split at h
      · split at h
        · split at h
          · cases h
          · rename_i hDefinition
            split at h
            · cases h
            · rename_i hApart
              have hClause := Form.fromForm_of_definition hDefinition
              have hFree := Bool.not_eq_true _ ▸ hApart
              exact ih h (fromForms_addClause hClause hFree hFunctions) hStatements
        · split at h
          · exact ih h hFunctions hStatements
          · split at h
            · cases h
            · rename_i hExpr
              exact ih h hFunctions (hStatement hExpr)
      · split at h
        · cases h
        · rename_i hExpr
          exact ih h hFunctions (hStatement hExpr)

/-- A function of a program to which functions have been added is one of these, under
its own name, or was there before. -/
theorem mem_of_define {name : String} {f : Function} :
    ∀ {functions : List Function} {p : Program},
      (p.define functions).functions.get? name = some f →
      (f.name = name ∧ f ∈ functions) ∨ p.functions.get? name = some f := by
  intro functions
  induction functions with
  | nil => exact fun h => .inr h
  | cons first others ih =>
      intro p h
      rcases ih (p := { p with functions := p.functions.insert first.name first }) h with
        ⟨hName, hMem⟩ | hGet
      · exact .inl ⟨hName, List.mem_cons_of_mem first hMem⟩
      · rw [Dict.get?_insert] at hGet
        split at hGet
        · rename_i hName
          cases hGet
          exact .inl ⟨hName, List.mem_cons_self⟩
        · exact .inr hGet

theorem lowerAll_adds :
    ∀ (modules : List (List Form)) (p : Program),
      (∀ name f, (lowerAll modules p).2.functions.get? name = some f →
        p.functions.get? name = some f ∨ (f.name = name ∧ f.FromForms p.types)) ∧
      ∀ added, (lowerAll modules p).1 = .ok added → ∀ e ∈ added, Form.Lowered p.types true e := by
  intro modules
  induction modules with
  | nil =>
      intro p
      refine ⟨fun _ _ hGet => .inl hGet, fun added hAdded => ?_⟩
      cases hAdded
      exact List.forall_mem_nil _
  | cons forms modules ih =>
      intro p
      rw [lowerAll_cons]
      cases hLower : lowerFrom p.types [] [] forms with
      | error error => exact ⟨fun _ _ hGet => .inl hGet, nofun⟩
      | ok lowered =>
          obtain ⟨hNew, hStatements⟩ :=
            lowerFrom_adds hLower (List.forall_mem_nil _) (List.forall_mem_nil _)
          obtain ⟨hLater, hOthers⟩ := ih (p.define lowered.1)
          have hFunctions : ∀ name f,
              (lowerAll modules (p.define lowered.1)).2.functions.get? name = some f →
                p.functions.get? name = some f ∨ (f.name = name ∧ f.FromForms p.types) := by
            intro name f hGet
            rcases hLater name f hGet with hBefore | hForms
            · rcases mem_of_define hBefore with ⟨hName, hMem⟩ | hBefore
              · exact .inr ⟨hName, hNew f hMem⟩
              · exact .inl hBefore
            · exact .inr hForms
          simp only [Loading.bind_apply]
          rcases hRun : lowerAll modules (p.define lowered.1) with ⟨stop | others, p'⟩ <;>
            rw [hRun] at hFunctions hOthers
          · exact ⟨hFunctions, nofun⟩
          · refine ⟨hFunctions, fun added hAdded => ?_⟩
            cases hAdded
            exact List.forall_mem_append.mpr ⟨hStatements, hOthers others rfl⟩

theorem contains_define {name : String} :
    ∀ {functions : List Function} {p : Program}, p.functions.contains name = true →
      (p.define functions).functions.contains name = true := by
  intro functions
  induction functions with
  | nil => exact id
  | cons first others ih =>
      intro p h
      refine ih (p := { p with functions := p.functions.insert first.name first }) ?_
      show ((p.functions.insert first.name first).get? name).isSome = true
      rw [Dict.get?_insert]
      split
      · rfl
      · exact h

/-! ## Declarations -/

/-- A declaration makes no type of the name of a function. -/
theorem declare_apart {p p' : Program} {form : Form} (h : p.declare form = .ok p') {name : String}
    (hName : p.functions.contains name = true) :
    p'.types.isDeclared name = p.types.isDeclared name := by
  have hVariable : ∀ {types : Registry} {other : String} {bound : Option Ty},
      p.types.declareVariable other bound = .ok types →
      types.isDeclared name = p.types.isDeclared name := fun hTypes =>
    congrArg Option.isSome (Registry.parent?_declareVariable hTypes name)
  unfold declare at h
  split at h
  · split at h
    · obtain ⟨declared, -, h⟩ := except_bind_ok h
      split at h
      · cases h
      · rename_i hFree
        obtain ⟨parent, -, h⟩ := except_bind_ok h
        obtain ⟨types, hTypes, h⟩ := except_bind_ok h
        cases h
        have hOther : name ≠ declared := by
          rintro rfl
          exact hFree hName
        exact congrArg Option.isSome (Registry.parent?_declare hTypes hOther)
    · cases h
  · split at h
    · obtain ⟨declared, -, h⟩ := except_bind_ok h
      obtain ⟨types, hTypes, h⟩ := except_bind_ok h
      cases h
      exact hVariable hTypes
    · obtain ⟨declared, -, h⟩ := except_bind_ok h
      obtain ⟨bound, -, h⟩ := except_bind_ok h
      obtain ⟨types, hTypes, h⟩ := except_bind_ok h
      cases h
      exact hVariable hTypes
    · cases h
  · cases h
    rfl

theorem declareAll_apart {name : String} :
    ∀ (forms : List Form) {p : Program}, p.functions.contains name = true →
      (declareAll forms p).2.types.isDeclared name = p.types.isDeclared name := by
  intro forms
  induction forms with
  | nil => exact fun _ => rfl
  | cons form forms ih =>
      intro p hName
      rw [declareAll_cons]
      cases hDeclare : p.declare form with
      | error error => rfl
      | ok p' =>
          have hFirst := declare_apart hDeclare hName
          rcases declare_ok hDeclare with ⟨-, rfl⟩ | ⟨-, types, rfl, -⟩
          · exact ih hName
          · exact (ih (p := { p with types }) hName).trans hFirst

/-! ## Loads -/

/-- How a load changes a program: it declares types, none of the name of a function, and
what is new is made of forms. -/
structure GrowsTo (p p' : Program) : Prop where
  types : p.types.Declares p'.types
  apart : ∀ name, p.functions.contains name = true →
    p'.types.isDeclared name = p.types.isDeclared name
  functions : ∀ name f, p'.functions.get? name = some f →
    p.functions.get? name = some f ∨ (f.name = name ∧ f.FromForms p'.types)
  statements : ∀ e ∈ p'.statements, e ∈ p.statements ∨ Form.Lowered p'.types true e

/-- The outcome of a load: the program has grown, and the expressions that have been
added are made of forms. -/
structure AddsTo (p : Program) (outcome : Except Stop (List Expr) × Program) : Prop where
  grows : p.GrowsTo outcome.2
  added : ∀ added, outcome.1 = .ok added → ∀ e ∈ added, Form.Lowered outcome.2.types true e

theorem AddsTo.of_error {p p' : Program} (h : p.GrowsTo p') (stop : Stop) :
    p.AddsTo (.error stop, p') :=
  ⟨h, nofun⟩

theorem GrowsTo.refl (p : Program) : p.GrowsTo p :=
  ⟨.refl, fun _ _ => rfl, fun _ _ hGet => .inl hGet, fun _ he => .inl he⟩

theorem build_adds (modules : List (List Form)) (p : Program) : p.AddsTo (build modules p) := by
  obtain ⟨types, hTypes, hDeclares⟩ := declareAll_types modules.flatten p
  have hApart := fun name => @declareAll_apart name modules.flatten p
  rw [build, Loading.bind_apply]
  rcases hDeclare : declareAll modules.flatten p with ⟨stop | _, p'⟩ <;>
    rw [hDeclare] at hTypes hApart <;>
    replace hTypes : p' = { p with types } := hTypes <;> subst hTypes
  · have hGrows : p.GrowsTo { p with types } :=
      ⟨hDeclares, hApart, fun _ _ hGet => .inl hGet, fun _ he => .inl he⟩
    exact .of_error hGrows stop
  · obtain ⟨hFunctions, hAdded⟩ := lowerAll_adds modules { p with types }
    obtain ⟨functions, hChanges⟩ := lowerAll_functions modules { p with types }
    show p.AddsTo (lowerAll modules { p with types })
    rcases hRun : lowerAll modules { p with types } with ⟨outcome, p''⟩
    rw [hRun] at hFunctions hAdded hChanges
    replace hChanges : p'' = { p with types, functions } := hChanges
    subst hChanges
    exact ⟨⟨hDeclares, hApart, hFunctions, fun _ he => .inl he⟩, hAdded⟩

theorem prepare_adds (load : Loader) (fuel : Nat) (forms : List Form) (p : Program) :
    p.AddsTo (prepare load fuel forms p) := by
  obtain ⟨paths, hPaths⟩ := collect_loaded load fuel forms p
  rw [prepare, Loading.bind_apply]
  rcases hCollect : collect load fuel forms p with ⟨stop | modules, p'⟩ <;>
    rw [hCollect] at hPaths <;>
    replace hPaths : p' = { p with loaded := paths ++ p.loaded } := hPaths <;> subst hPaths
  · have hGrows : p.GrowsTo { p with loaded := paths ++ p.loaded } :=
      ⟨.refl, fun _ _ => rfl, fun _ _ hGet => .inl hGet, fun _ he => .inl he⟩
    exact .of_error hGrows stop
  · obtain ⟨⟨hTypes, hApart, hFunctions, hStatements⟩, hAdded⟩ :=
      build_adds modules { p with loaded := paths ++ p.loaded }
    exact ⟨⟨hTypes, hApart, hFunctions, hStatements⟩, hAdded⟩

/-- **Whatever a load adds is made of forms**, also if it fails midway. -/
theorem absorb_adds (load : Loader) (fuel : Nat) (source : String) (p : Program) :
    p.AddsTo (absorb load fuel source p) := by
  cases hParse : Form.parseAll source with
  | error error =>
      rw [absorb_unreadable hParse]
      exact .of_error (.refl p) _
  | ok forms =>
      obtain ⟨hGrows, hAdded⟩ := prepare_adds load fuel forms p
      rw [absorb_readable hParse]
      rcases hRun : prepare load fuel forms p with ⟨stop | added, p'⟩ <;>
        rw [hRun] at hGrows hAdded
      · exact .of_error hGrows stop
      · have hNew := hAdded added rfl
        refine ⟨⟨hGrows.types, hGrows.apart, hGrows.functions, ?_⟩, fun added' hSame => ?_⟩
        · exact List.forall_mem_append.mpr ⟨hGrows.statements, fun e he => .inr (hNew e he)⟩
        · cases hSame
          exact hNew

/-- **A load defines functions**, each in place of an earlier one of its name, wherever
it stops. -/
theorem absorb_defines (load : Loader) (fuel : Nat) (source : String) (p : Program) :
    ∃ functions, (absorb load fuel source p).2.functions = (p.define functions).functions := by
  have hBuild : ∀ (modules : List (List Form)) (p' : Program), ∃ functions,
      (build modules p').2.functions = (p'.define functions).functions := by
    intro modules p'
    obtain ⟨types, hTypes, -⟩ := declareAll_types modules.flatten p'
    rw [build, Loading.bind_apply]
    rcases hDeclare : declareAll modules.flatten p' with ⟨stop | _, p''⟩ <;>
      rw [hDeclare] at hTypes <;>
      replace hTypes : p'' = { p' with types } := hTypes <;> subst hTypes
    · exact ⟨[], rfl⟩
    · obtain ⟨functions, hDefines⟩ := lowerAll_defines modules { p' with types }
      refine ⟨functions, ?_⟩
      show (lowerAll modules { p' with types }).2.functions = _
      rw [hDefines]
      rfl
  cases hParse : Form.parseAll source with
  | error error =>
      rw [absorb_unreadable hParse]
      exact ⟨[], rfl⟩
  | ok forms =>
      obtain ⟨paths, hPaths⟩ := collect_loaded load fuel forms p
      have hPrepare : ∃ functions,
          (prepare load fuel forms p).2.functions = (p.define functions).functions := by
        rw [prepare, Loading.bind_apply]
        rcases hCollect : collect load fuel forms p with ⟨stop | modules, p'⟩ <;>
          rw [hCollect] at hPaths <;>
          replace hPaths : p' = { p with loaded := paths ++ p.loaded } := hPaths <;> subst hPaths
        · exact ⟨[], rfl⟩
        · exact hBuild modules _
      rw [absorb_readable hParse]
      rcases hRun : prepare load fuel forms p with ⟨stop | added, p'⟩ <;> rw [hRun] at hPrepare <;>
        exact hPrepare

/-- **A load takes no function back**, wherever it stops. -/
theorem absorb_contains (load : Loader) (fuel : Nat) (source : String) {p : Program}
    {name : String} (h : p.functions.contains name = true) :
    (absorb load fuel source p).2.functions.contains name = true := by
  obtain ⟨functions, hDefines⟩ := absorb_defines load fuel source p
  rw [hDefines]
  exact contains_define h

end Program

end ClauseLisp
