import Mathlib
import ClauseLisp.Proofs.Loading.Steps
import ClauseLisp.Proofs.Types.Stability

/-!
# Definitions in several modules

A load comes to some modules, in the order in which they are lowered.  Clauses of one name
are added up within a module only: when a module is finished, its functions replace what
was known under their names, whether that is from an earlier module or from an earlier
load.  So a name stands for the clauses in the last module that defines it, and for what it
stood for before if none does.

Types are declared before any module is lowered, so that all of them are known to every
module, wherever they are declared.

## Main results

* `lowerFrom_ok` — what a module is lowered to, definition by definition.
* `get?_define` — functions replace what was known under their names.
* `declareAll_declared` — every declaration is known in the end.
* `absorb_shadows` — what a load makes of names, types and expressions.
-/

namespace ClauseLisp

open Ty (Registry)

theorem Dict.get?_insert_self {α : Type} (d : Dict α) (name : String) (value : α) :
    (d.insert name value).get? name = some value :=
  (d.get?_insert name value name).trans (if_pos rfl)

/-! ## What a module is lowered to -/

/-- Whether a form defines a clause of a function. -/
def Form.isDefinition (form : Form) : Bool :=
  form.keyword? = some "def" || form.keyword? = some "def'" || form.keyword? = some "defpure"

/-- Whether a form of a module is evaluated. -/
def Form.isStatement (form : Form) : Bool := !form.isDefinition && !Program.isDeclaration form

/-- The code of a module: its clauses, each with the name of its function, and its
expressions, in the order in which they are written. -/
structure ModuleCode where
  definitions : List (String × Clause)
  statements : List Expr

/-- The clauses of a name among some definitions. -/
def clausesNamed (name : String) (definitions : List (String × Clause)) : List Clause :=
  (definitions.filter fun d => d.1 = name).map Prod.snd

namespace ModuleCode

/-- The clauses of a name in a module. -/
def clausesOf (code : ModuleCode) (name : String) : List Clause :=
  clausesNamed name code.definitions

/-- The code of a module is what its forms are lowered to, one by one. -/
structure LoweredFrom (r : Registry) (forms : List Form) (code : ModuleCode) : Prop where
  definitions : List.Forall₂
    (fun form d => ∃ keyword, form.keyword? = some keyword ∧ form.definition r keyword = .ok d)
    (forms.filter Form.isDefinition) code.definitions
  statements : List.Forall₂ (fun form e => form.expr r true = .ok e)
    (forms.filter Form.isStatement) code.statements

namespace LoweredFrom

variable {r : Registry} {form : Form} {forms : List Form} {code : ModuleCode}

theorem nil : LoweredFrom r [] ⟨[], []⟩ := ⟨.nil, .nil⟩

theorem definition (h : LoweredFrom r forms code) {keyword : String} {d : String × Clause}
    (hKeyword : form.keyword? = some keyword) (hDefines : form.isDefinition = true)
    (hLower : form.definition r keyword = .ok d) :
    LoweredFrom r (form :: forms) ⟨d :: code.definitions, code.statements⟩ where
  definitions := by
    rw [List.filter_cons_of_pos hDefines]
    exact .cons ⟨keyword, hKeyword, hLower⟩ h.definitions
  statements := by
    rw [List.filter_cons_of_neg (by simp [Form.isStatement, hDefines])]
    exact h.statements

theorem declaration (h : LoweredFrom r forms code) (hDefines : form.isDefinition = false)
    (hDeclares : Program.isDeclaration form = true) : LoweredFrom r (form :: forms) code where
  definitions := by
    rw [List.filter_cons_of_neg (by simp [hDefines])]
    exact h.definitions
  statements := by
    rw [List.filter_cons_of_neg (by simp [Form.isStatement, hDeclares])]
    exact h.statements

theorem statement (h : LoweredFrom r forms code) {e : Expr} (hStatement : form.isStatement = true)
    (hLower : form.expr r true = .ok e) :
    LoweredFrom r (form :: forms) ⟨code.definitions, e :: code.statements⟩ where
  definitions := by
    have hDefines : form.isDefinition = false := by
      rw [Form.isStatement, Bool.and_eq_true, Bool.not_eq_true'] at hStatement
      exact hStatement.1
    rw [List.filter_cons_of_neg (by simp [hDefines])]
    exact h.definitions
  statements := by
    rw [List.filter_cons_of_pos hStatement]
    exact .cons hLower h.statements

end LoweredFrom

end ModuleCode

namespace Program

/-- Functions to which clauses have been added, one after the other. -/
def addClauses (definitions : List (String × Clause)) (functions : List Function) : List Function :=
  definitions.foldl (fun fs d => addClause d.1 d.2 fs) functions

/-- **What a module is lowered to**: its clauses are added to functions in their order, and its
expressions follow each other. -/
theorem lowerFrom_ok {r : Registry} {lowered : List Function × List Expr} :
    ∀ {forms : List Form} {functions : List Function} {statements : List Expr},
      lowerFrom r functions statements forms = .ok lowered →
      ∃ code : ModuleCode, code.LoweredFrom r forms ∧
        lowered = (addClauses code.definitions functions, statements.reverse ++ code.statements) := by
  intro forms
  induction forms with
  | nil =>
      intro functions statements h
      cases h
      exact ⟨⟨[], []⟩, .nil, by rw [List.append_nil]; rfl⟩
  | cons form forms ih =>
      intro functions statements h
      have hEvaluated : ∀ {e : Expr}, form.isStatement = true → form.expr r true = .ok e →
          lowerFrom r functions (e :: statements) forms = .ok lowered →
          ∃ code : ModuleCode, code.LoweredFrom r (form :: forms) ∧
            lowered = (addClauses code.definitions functions,
              statements.reverse ++ code.statements) := by
        intro e hStatement hExpr h
        obtain ⟨code, hCode, rfl⟩ := ih h
        refine ⟨_, hCode.statement hStatement hExpr, ?_⟩
        rw [List.reverse_cons, List.append_assoc]
        rfl
      unfold lowerFrom at h
      split at h
      · rename_i keyword hKeyword
        have hDefines : form.isDefinition =
            (keyword = "def" || keyword = "def'" || keyword = "defpure" : Bool) := by
          simp [Form.isDefinition, hKeyword]
        have hDeclares : isDeclaration form =
            (keyword = "deftype" || keyword = "contract" : Bool) := by
          simp [isDeclaration, hKeyword]
        split at h
        · rename_i hDef
          split at h
          · cases h
          · rename_i name clause hDefinition
            split at h
            · cases h
            · obtain ⟨code, hCode, rfl⟩ := ih h
              exact ⟨_, hCode.definition hKeyword (by rw [hDefines, hDef]) hDefinition, rfl⟩
        · rename_i hDef
          rw [Bool.not_eq_true] at hDef
          split at h
          · rename_i hDecl
            obtain ⟨code, hCode, rfl⟩ := ih h
            exact ⟨code, hCode.declaration (by rw [hDefines, hDef]) (by rw [hDeclares, hDecl]), rfl⟩
          · rename_i hDecl
            rw [Bool.not_eq_true] at hDecl
            split at h
            · cases h
            · rename_i hExpr
              refine hEvaluated ?_ hExpr h
              rw [Form.isStatement, hDefines, hDeclares, hDef, hDecl]
              rfl
      · rename_i hKeyword
        split at h
        · cases h
        · rename_i hExpr
          refine hEvaluated ?_ hExpr h
          simp [Form.isStatement, Form.isDefinition, isDeclaration, hKeyword]

/-! ## Functions of a module -/

/-- The function of a name among several. -/
def functionIn? (name : String) (functions : List Function) : Option Function :=
  functions.find? fun f => f.name = name

/-- A function with one more clause, or a new one. -/
def withClause (name : String) (clause : Clause) : Option Function → Function
  | some f => { f with clauses := f.clauses ++ [clause] }
  | none => { name, clauses := [clause] }

theorem functionIn?_addClause (name other : String) (clause : Clause) :
    ∀ functions : List Function, functionIn? other (addClause name clause functions) =
      if name = other then some (withClause name clause (functionIn? name functions))
      else functionIn? other functions := by
  intro functions
  induction functions with
  | nil => by_cases hSame : name = other <;> simp [addClause, functionIn?, withClause, hSame]
  | cons f fs ih =>
      rw [addClause]
      by_cases hFirst : f.name = name
      · by_cases hSame : name = other <;> simp [functionIn?, withClause, hFirst, hSame]
      · rw [if_neg hFirst]
        unfold functionIn? at ih ⊢
        by_cases hOther : f.name = other
        · have hApart : name ≠ other := fun h => hFirst (hOther.trans h.symm)
          simp [hOther, hApart]
        · simp [hOther, hFirst, ih]

/-- The function of a name with some clauses, if there are any. -/
def ofClauses? (name : String) : List Clause → Option Function
  | [] => none
  | clauses => some { name, clauses }

theorem ofClauses?_of_ne_nil {name : String} {clauses : List Clause} (h : clauses ≠ []) :
    ofClauses? name clauses = some { name, clauses } := by
  cases clauses with
  | nil => exact absurd rfl h
  | cons c cs => rfl

theorem withClause_ofClauses? (name : String) (clauses : List Clause) (clause : Clause) :
    withClause name clause (ofClauses? name clauses) = { name, clauses := clauses ++ [clause] } := by
  cases clauses with
  | nil => rfl
  | cons c cs => rfl

/-- **The functions of a module**: a name stands for its clauses in their order, with nothing
that is remembered. -/
theorem functionIn?_addClauses (name : String) (definitions : List (String × Clause)) :
    functionIn? name (addClauses definitions []) =
      ofClauses? name (clausesNamed name definitions) := by
  induction definitions using List.reverseRecOn with
  | nil => rfl
  | append_singleton ds d ih =>
      have hLast : addClauses (ds ++ [d]) [] = addClause d.1 d.2 (addClauses ds []) :=
        List.foldl_append
      rw [hLast, functionIn?_addClause, clausesNamed, List.filter_append, List.map_append]
      by_cases hName : d.1 = name
      · subst hName
        rw [if_pos rfl, ih, withClause_ofClauses?, List.filter_cons_of_pos (by simp)]
        exact (ofClauses?_of_ne_nil (List.concat_ne_nil _ _)).symm
      · rw [if_neg hName, ih, List.filter_cons_of_neg (by simp [hName])]
        simp [clausesNamed]

theorem names_addClause (name : String) (clause : Clause) :
    ∀ functions : List Function, (addClause name clause functions).map Function.name =
      if name ∈ functions.map Function.name then functions.map Function.name
      else functions.map Function.name ++ [name] := by
  intro functions
  induction functions with
  | nil => rfl
  | cons f fs ih =>
      rw [addClause]
      by_cases hFirst : f.name = name
      · simp [hFirst]
      · have hApart : name ≠ f.name := Ne.symm hFirst
        rw [if_neg hFirst, List.map_cons, ih]
        by_cases hMem : name ∈ fs.map Function.name <;> simp [hMem, hApart]

/-- No two functions of a module have the same name. -/
theorem nodup_addClauses (definitions : List (String × Clause)) :
    ((addClauses definitions []).map Function.name).Nodup := by
  induction definitions using List.reverseRecOn with
  | nil => exact List.nodup_nil
  | append_singleton ds d ih =>
      have hLast : addClauses (ds ++ [d]) [] = addClause d.1 d.2 (addClauses ds []) :=
        List.foldl_append
      rw [hLast, names_addClause]
      split
      · exact ih
      · rename_i hNew
        refine List.nodup_append.mpr ⟨ih, by simp, fun other hOther name hName hSame => hNew ?_⟩
        rw [← List.mem_singleton.mp hName, ← hSame]
        exact hOther

/-- **Functions replace what was known under their names**, and nothing else. -/
theorem get?_define (name : String) :
    ∀ {functions : List Function} (p : Program), (functions.map Function.name).Nodup →
      (p.define functions).functions.get? name =
        (functionIn? name functions).or (p.functions.get? name) := by
  intro functions
  induction functions with
  | nil => exact fun p _ => rfl
  | cons f fs ih =>
      intro p hNodup
      rw [List.map_cons, List.nodup_cons] at hNodup
      have hRest := ih { p with functions := p.functions.insert f.name f } hNodup.2
      rw [Dict.get?_insert] at hRest
      refine hRest.trans ?_
      by_cases hName : f.name = name
      · have hNone : functionIn? name fs = none := by
          refine List.find?_eq_none.mpr fun g hMem hSame => hNodup.1 ?_
          rw [hName, ← of_decide_eq_true hSame]
          exact List.mem_map_of_mem hMem
        rw [if_pos hName, hNone, functionIn?, List.find?_cons_of_pos (by simp [hName])]
        rfl
      · rw [if_neg hName]
        unfold functionIn?
        rw [List.find?_cons_of_neg (by simp [hName])]

/-! ## One module after the other -/

/-- The clauses of a name in the last module that defines it. -/
def latest (name : String) : List ModuleCode → List Clause
  | [] => []
  | code :: codes => if latest name codes = [] then code.clausesOf name else latest name codes

theorem latest_eq_nil {name : String} :
    ∀ {codes : List ModuleCode}, (∀ code ∈ codes, code.clausesOf name = []) →
      latest name codes = [] := by
  intro codes
  induction codes with
  | nil => exact fun _ => rfl
  | cons code codes ih =>
      intro hNone
      rw [List.forall_mem_cons] at hNone
      rw [latest, if_pos (ih hNone.2)]
      exact hNone.1

theorem latest_append {name : String} {code : ModuleCode} {after : List ModuleCode}
    (hDefines : code.clausesOf name ≠ []) (hAfter : ∀ other ∈ after, other.clausesOf name = []) :
    ∀ before : List ModuleCode, latest name (before ++ code :: after) = code.clausesOf name := by
  intro before
  induction before with
  | nil => rw [List.nil_append, latest, if_pos (latest_eq_nil hAfter)]
  | cons first before ih =>
      rw [List.cons_append, latest, ih, if_neg hDefines]

/-- **What lowering makes of a program**: its names stand for the clauses in the last modules
that define them, and its expressions are those of the modules in their order. -/
theorem lowerAll_ok :
    ∀ {modules : List (List Form)} {p p' : Program} {added : List Expr},
      lowerAll modules p = (.ok added, p') →
      ∃ codes : List ModuleCode,
        List.Forall₂ (fun forms (code : ModuleCode) => code.LoweredFrom p.types forms) modules codes ∧
        added = codes.flatMap ModuleCode.statements ∧
        ∀ name, p'.functions.get? name =
          (ofClauses? name (latest name codes)).or (p.functions.get? name) := by
  intro modules
  induction modules with
  | nil =>
      intro p p' added h
      cases h
      exact ⟨[], .nil, rfl, fun _ => rfl⟩
  | cons forms modules ih =>
      intro p p' added h
      rw [lowerAll_cons] at h
      cases hLower : lowerFrom p.types [] [] forms with
      | error error =>
          rw [hLower] at h
          cases h
      | ok lowered =>
          rw [hLower] at h
          obtain ⟨code, hCode, rfl⟩ := lowerFrom_ok hLower
          simp only [Loading.bind_apply] at h
          rcases hRest : lowerAll modules (p.define (addClauses code.definitions [])) with
            ⟨stop | others, p''⟩ <;> rw [hRest] at h
          · cases h
          · cases h
            obtain ⟨codes, hCodes, rfl, hFunctions⟩ := ih hRest
            refine ⟨code :: codes, .cons hCode hCodes, rfl, fun name => ?_⟩
            rw [hFunctions name, get?_define name p (nodup_addClauses _), functionIn?_addClauses,
              latest]
            split
            · rename_i hNone
              rw [hNone]
              rfl
            · rename_i hSome
              rw [ofClauses?_of_ne_nil hSome]
              rfl

/-! ## Declarations -/

/-- A declaration is known: its name stands for a type with the parent that is written there,
or for a variable with the bound that is written there. -/
inductive Declared (r : Registry) : Form → Prop
  | type {head name parent : Form} {declared : String} {written resolved : Ty} :
      (Form.list [head, name, parent]).keyword? = some "deftype" → name.plain? = some declared →
      typeOfForm "deftype" (.list [head, name, parent]) parent = .ok written →
      r.resolve written = .ok resolved → r.parent? declared = some resolved →
      r.resolveName declared = .ok (.named declared) → Declared r (.list [head, name, parent])
  | unbounded {head name : Form} {declared : String} :
      (Form.list [head, name]).keyword? = some "contract" → name.plain? = some declared →
      r.bounds.get? declared = some none →
      r.resolveName declared = .ok (.var declared) → Declared r (.list [head, name])
  | bounded {head name bound : Form} {declared : String} {written resolved : Ty} :
      (Form.list [head, name, bound]).keyword? = some "contract" → name.plain? = some declared →
      typeOfForm "contract" (.list [head, name, bound]) bound = .ok written →
      r.resolve written = .ok resolved → r.bounds.get? declared = some (some resolved) →
      r.resolveName declared = .ok (.var declared) → Declared r (.list [head, name, bound])

/-- What is known stays known. -/
theorem Declared.declares {r r' : Registry} {form : Form} (h : Declared r form)
    (hMore : r.Declares r') : Declared r' form := by
  cases h with
  | type hKeyword hName hWritten hResolve hParent hMeaning =>
      exact .type hKeyword hName hWritten (hMore.resolve hResolve)
        (hMore.parent?_of_some hParent) (hMore.resolveName hMeaning)
  | unbounded hKeyword hName hBound hMeaning =>
      have hTaken := Registry.isTaken_of_resolveName hMeaning
      exact .unbounded hKeyword hName ((hMore.bounds hTaken).trans hBound) (hMore.resolveName hMeaning)
  | bounded hKeyword hName hWritten hResolve hBound hMeaning =>
      have hTaken := Registry.isTaken_of_resolveName hMeaning
      exact .bounded hKeyword hName hWritten (hMore.resolve hResolve)
        ((hMore.bounds hTaken).trans hBound) (hMore.resolveName hMeaning)

theorem declaredName_ok {keyword : String} {whole name : Form} {declared : String}
    (h : declaredName keyword whole name = .ok declared) : name.plain? = some declared := by
  unfold declaredName at h
  split at h
  · cases h
    assumption
  · cases h

/-- A type that is declared stands for itself. -/
theorem resolveName_declare {r r' : Registry} {name : String} {parent : Ty}
    (h : r.declare name parent = .ok r') : r'.resolveName name = .ok (.named name) := by
  obtain ⟨hFree, resolved, -, -, rfl⟩ := Registry.declare_ok h
  simp only [Registry.isTaken, Bool.or_eq_false_iff] at hFree
  obtain ⟨⟨⟨-, hVariable⟩, -⟩, hBound⟩ := hFree
  have hDeclared : (r.parents.insert name resolved).contains name = true := by
    rw [Dict.contains, Dict.get?_insert_self]
    rfl
  rw [Registry.resolveName, Registry.isVariable, Registry.isDeclared, hVariable, hBound, hDeclared,
    Bool.or_true]
  rfl

/-- A variable that is declared stands for itself. -/
theorem resolveName_declareVariable {r r' : Registry} {name : String} {bound : Option Ty}
    (h : r.declareVariable name bound = .ok r') : r'.resolveName name = .ok (.var name) := by
  obtain ⟨-, resolved, -, rfl⟩ := Registry.declareVariable_ok h
  simp [Registry.resolveName, Registry.isVariable, Dict.contains, Dict.get?_insert]

/-- **A declaration that is made is known.** -/
theorem declared_of_declare {p p' : Program} {form : Form} (h : p.declare form = .ok p')
    (hDeclares : isDeclaration form = true) : Declared p'.types form := by
  unfold declare at h
  split at h
  · rename_i hKeyword
    split at h
    · obtain ⟨name, hName, h⟩ := except_bind_ok h
      split at h
      · cases h
      · obtain ⟨parent, hWritten, h⟩ := except_bind_ok h
        obtain ⟨types, hTypes, h⟩ := except_bind_ok h
        cases h
        have hMore : p.types.Declares types := .declare .refl hTypes
        obtain ⟨-, resolved, hResolve, -, rfl⟩ := Registry.declare_ok hTypes
        exact .type hKeyword (declaredName_ok hName) hWritten (hMore.resolve hResolve)
          (Dict.get?_insert_self _ _ _) (resolveName_declare hTypes)
    · cases h
  · rename_i hKeyword
    split at h
    · obtain ⟨name, hName, h⟩ := except_bind_ok h
      obtain ⟨types, hTypes, h⟩ := except_bind_ok h
      cases h
      obtain ⟨-, resolved, hResolve, rfl⟩ := Registry.declareVariable_ok hTypes
      cases hResolve
      exact .unbounded hKeyword (declaredName_ok hName) (Dict.get?_insert_self _ _ _)
        (resolveName_declareVariable hTypes)
    · obtain ⟨name, hName, h⟩ := except_bind_ok h
      obtain ⟨bound, hWritten, h⟩ := except_bind_ok h
      obtain ⟨types, hTypes, h⟩ := except_bind_ok h
      cases h
      have hMore : p.types.Declares types := .declareVariable .refl hTypes
      obtain ⟨-, resolved, hResolve, rfl⟩ := Registry.declareVariable_ok hTypes
      rw [Registry.resolve?] at hResolve
      split at hResolve
      · rename_i hResolved
        cases hResolve
        exact .bounded hKeyword (declaredName_ok hName) hWritten (hMore.resolve hResolved)
          (Dict.get?_insert_self _ _ _) (resolveName_declareVariable hTypes)
      · cases hResolve
    · cases h
  · rename_i hType hVariable
    rw [isDeclaration, decide_eq_false hType, decide_eq_false hVariable] at hDeclares
    cases hDeclares

/-- **Every declaration is known in the end**, whichever module it is in. -/
theorem declareAll_declared :
    ∀ {forms : List Form} {p p' : Program}, declareAll forms p = (.ok (), p') →
      ∀ form ∈ forms, isDeclaration form = true → Declared p'.types form := by
  intro forms
  induction forms with
  | nil => exact fun _ _ hMem => nomatch hMem
  | cons first forms ih =>
      intro p p' h form hMem hDeclares
      rw [declareAll_cons] at h
      cases hFirst : p.declare first with
      | error error =>
          rw [hFirst] at h
          cases h
      | ok between =>
          rw [hFirst] at h
          replace h : declareAll forms between = (.ok (), p') := h
          rcases List.mem_cons.mp hMem with rfl | hMem
          · obtain ⟨types, hTypes, hMore⟩ := declareAll_types forms between
            rw [h] at hTypes
            cases hTypes
            exact (declared_of_declare hFirst hDeclares).declares hMore
          · exact ih h form hMem hDeclares

/-! ## Loads -/

/-- What a load has made of a program, with the modules that the text amounts to and their
code. -/
structure Installs (p : Program) (modules : List (List Form)) (codes : List ModuleCode)
    (added : List Expr) (p' : Program) : Prop where
  /-- The code of each module is what its forms are lowered to, with all types declared. -/
  lowered : List.Forall₂ (fun forms (code : ModuleCode) => code.LoweredFrom p'.types forms)
    modules codes
  /-- The types and the variables that any module declares are known. -/
  declared : ∀ forms ∈ modules, ∀ form ∈ forms, isDeclaration form = true → Declared p'.types form
  /-- A name has the clauses in the last module that defines it, and remembers nothing. -/
  last : ∀ (name : String) (before : List ModuleCode) (code : ModuleCode) (after : List ModuleCode),
    codes = before ++ code :: after → code.clausesOf name ≠ [] →
    (∀ other ∈ after, other.clausesOf name = []) →
    p'.function? name = some { name, clauses := code.clausesOf name, memo := {} }
  /-- A name that no module defines stands for what it stood for before, and remembers what it
  did. -/
  kept : ∀ name, (∀ code ∈ codes, code.clausesOf name = []) → p'.function? name = p.function? name
  /-- The expressions that are added are those of the modules, in their order. -/
  result : added = codes.flatMap ModuleCode.statements
  /-- They come after those of the program. -/
  statements : p'.statements = p.statements ++ added

/-- What building modules does: all declarations first, then one module after the other. -/
theorem build_ok {modules : List (List Form)} {p p' : Program} {added : List Expr}
    (h : build modules p = (.ok added, p')) :
    ∃ codes : List ModuleCode,
      List.Forall₂ (fun forms (code : ModuleCode) => code.LoweredFrom p'.types forms) modules codes ∧
      (∀ forms ∈ modules, ∀ form ∈ forms, isDeclaration form = true → Declared p'.types form) ∧
      added = codes.flatMap ModuleCode.statements ∧
      (∀ name, p'.functions.get? name =
        (ofClauses? name (latest name codes)).or (p.functions.get? name)) ∧
      p'.statements = p.statements := by
  obtain ⟨types, hTypes, -⟩ := declareAll_types modules.flatten p
  rw [build, Loading.bind_apply] at h
  rcases hDeclare : declareAll modules.flatten p with ⟨stop | _, between⟩ <;>
    rw [hDeclare] at h hTypes
  · cases h
  · replace hTypes : between = { p with types } := hTypes
    replace h : lowerAll modules between = (.ok added, p') := h
    obtain ⟨functions, hChanges⟩ := lowerAll_functions modules between
    obtain ⟨codes, hCodes, hAdded, hFunctions⟩ := lowerAll_ok h
    rw [h] at hChanges
    replace hChanges : p' = { between with functions } := hChanges
    subst hTypes hChanges
    refine ⟨codes, hCodes, fun forms hModule form hForm => ?_, hAdded, hFunctions, rfl⟩
    exact declareAll_declared hDeclare form (List.mem_flatten_of_mem hModule hForm)

/-- **What a load makes of names, types and expressions.**  Let a text be loaded.  It amounts
to some modules, the forms of which are lowered one by one with the types that all of them
declare.  A name stands for the clauses in the last module that defines it, in the order in
which they are written, or for what it stood for before; and the expressions of the modules,
which are the result, are added to those of the program in their order. -/
theorem absorb_shadows {load : Loader} {fuel : Nat} {source : String} {p : Program}
    {added : List Expr} (h : (absorb load fuel source p).1 = .ok added) :
    ∃ forms modules codes, Form.parseAll source = .ok forms ∧
      (collect load fuel forms p).1 = .ok modules ∧
      Installs p modules codes added (absorb load fuel source p).2 := by
  cases hParse : Form.parseAll source with
  | error error =>
      rw [absorb_unreadable hParse] at h
      cases h
  | ok forms =>
      rw [absorb_readable hParse] at h ⊢
      rcases hPrepare : prepare load fuel forms p with ⟨stop | prepared, p'⟩ <;> rw [hPrepare] at h
      · cases h
      · cases h
        obtain ⟨paths, hPaths⟩ := collect_loaded load fuel forms p
        rw [prepare, Loading.bind_apply] at hPrepare
        rcases hCollect : collect load fuel forms p with ⟨stop | modules, collected⟩ <;>
          rw [hCollect] at hPaths hPrepare
        · cases hPrepare
        · replace hPaths : collected = { p with loaded := paths ++ p.loaded } := hPaths
          obtain ⟨codes, hCodes, hDeclared, hAdded, hFunctions, hStatements⟩ := build_ok hPrepare
          subst hPaths
          refine ⟨forms, modules, codes, rfl, congrArg Prod.fst hCollect, hCodes, hDeclared, ?_, ?_,
            hAdded, congrArg (· ++ added) hStatements⟩
          · rintro name before code after rfl hDefines hAfter
            refine (hFunctions name).trans ?_
            rw [latest_append hDefines hAfter, ofClauses?_of_ne_nil hDefines]
            rfl
          · intro name hNone
            refine (hFunctions name).trans ?_
            rw [latest_eq_nil hNone]
            rfl

/-- A module with two clauses of `f`, the second of which mentions a type that the text
declares. -/
def libraries : Loader := Loader.ofTable ⟨[("m", "(def f (0) 1) (def f (x:t) 2) 3")]⟩

/-- A text that uses the module, and defines `f` again. -/
def shadowing : String := "(use \"m\") (deftype t int) (def f (n) n) 4"

/-- The text is loaded after the module, and its `f` replaces the one of the module. -/
theorem absorb_shadows_of_libraries :
    let added : List Expr := [.lit (.int 3), .lit (.int 4)]
    (absorb libraries 5 shadowing {}).1 = .ok added ∧
      ((absorb libraries 5 shadowing {}).2.function? "f").map (fun f => f.clauses.map Clause.params) =
        some [[.bind "n"]] ∧
      ∃ forms modules codes, Form.parseAll shadowing = .ok forms ∧
        (collect libraries 5 forms {}).1 = .ok modules ∧
        Installs {} modules codes added (absorb libraries 5 shadowing {}).2 := by
  intro added
  have hLoads : (absorb libraries 5 shadowing {}).1 = .ok added := by cbv
  refine ⟨hLoads, by cbv, absorb_shadows hLoads⟩

end Program

end ClauseLisp
