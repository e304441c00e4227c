import ClauseLisp.Check
import ClauseLisp.Proofs.Types.Separation

/-!
# What checking does to a scope

The scope of the checker only grows while it walks over code: variables get types, and
where the checker has worked in another scope, it comes back.  Beside that it adds
diagnostics, and but for looking up a name none of them says that a name is unbound.

## Main results

* `Check.nameType_adds`, `Check.calleeType_adds` — what it takes to be reported as unbound.
* `Check.exprType_grows` — checking an expression keeps all names in scope.
-/

namespace ClauseLisp

open Ty (Registry)

/-- Whether a diagnostic says that a name is unbound, wherever it was found. -/
def Error.SaysUnbound (name : String) : Error → Prop
  | .unbound other => other = name
  | .inCall _ error => SaysUnbound name error
  | _ => False

/-- Whether a diagnostic is about the types of values, wherever it was found. -/
def Error.isAboutTypes (error : Error) : Bool :=
  match error.root with
  | .dispatch _ _ | .cast _ _ _ _ | .arity _ _ _ | .typing _ => true
  | _ => false

theorem Error.not_saysUnbound {error : Error} (h : error.isAboutTypes = true) (name : String) :
    ¬ error.SaysUnbound name := by
  induction error with
  | unbound other => cases h
  | inCall function error ih => exact ih h
  | _ => exact id

namespace Check

variable {α β : Type}

/-- What a step reads is what has been found before it. -/
theorem get_bind_apply (x : Findings → Checking α) (f : Findings) :
    (MonadState.get >>= x : Checking α) f = x f f :=
  rfl

/-! ## Names in scope -/

theorem contains_insert {scope : Dict Ty} {name other : String} {ty : Ty} :
    (scope.insert name ty).contains other = true ↔
      other = name ∨ scope.contains other = true := by
  rw [Dict.contains, Dict.get?_insert]
  by_cases hName : name = other
  · simp [hName]
  · simp [hName, Ne.symm hName, Dict.contains]

theorem contains_insertNew {scope : Dict Ty} {name other : String} {ty : Ty} :
    (scope.insertNew name ty).contains other = true ↔
      other = name ∨ scope.contains other = true := by
  rw [Dict.insertNew]
  split
  · rename_i hName
    rw [iff_or_self]
    rintro rfl
    exact hName
  · exact contains_insert

/-! ## Diagnostics -/

/-- One of the diagnostics that have been added says that a name is unbound. -/
def Reports (name : String) (f f' : Findings) : Prop :=
  ∃ added, f'.diagnostics = added ++ f.diagnostics ∧ ∃ d ∈ added, d.SaysUnbound name

/-- Diagnostics have been added, and names that are reported as unbound have a property. -/
def Adds (Q : String → Prop) (f f' : Findings) : Prop :=
  ∃ added, f'.diagnostics = added ++ f.diagnostics ∧
    ∀ d ∈ added, ∀ name, d.SaysUnbound name → Q name

namespace Adds

variable {Q Q' : String → Prop} {f f' f'' : Findings}

theorem of_same (h : f'.diagnostics = f.diagnostics) : Adds Q f f' :=
  ⟨[], h, List.forall_mem_nil _⟩

theorem refl (f : Findings) : Adds Q f f := of_same rfl

theorem trans (h : Adds Q f f') (h' : Adds Q f' f'') : Adds Q f f'' := by
  obtain ⟨added, hFirst, hNames⟩ := h
  obtain ⟨more, hSecond, hNames'⟩ := h'
  refine ⟨more ++ added, ?_, List.forall_mem_append.mpr ⟨hNames', hNames⟩⟩
  rw [hSecond, hFirst, List.append_assoc]

theorem mono (h : Adds Q f f') (hMore : ∀ name, Q name → Q' name) :
    Adds Q' f f' := by
  obtain ⟨added, hAdded, hNames⟩ := h
  exact ⟨added, hAdded, fun d hd name hSame => hMore name (hNames d hd name hSame)⟩

theorem report {context : Option Context} {error : Error}
    (h : ∀ name, error.SaysUnbound name → Q name) (f : Findings) :
    Adds Q f (Check.report context error f).2 := by
  cases context with
  | none => exact ⟨[error], rfl, List.forall_mem_singleton.mpr h⟩
  | some c => exact ⟨[.inCall c.function error], rfl, List.forall_mem_singleton.mpr h⟩

theorem suffix (h : Adds Q f f') : f.diagnostics <:+ f'.diagnostics := by
  obtain ⟨added, hAdded, -⟩ := h
  exact ⟨added, hAdded.symm⟩

/-- One step after the other. -/
theorem bind {x : Checking α} {y : α → Checking β} (hx : Adds Q f (x f).2)
    (hy : Adds Q (x f).2 (y (x f).1 (x f).2).2) : Adds Q f ((x >>= y) f).2 :=
  hx.trans hy

/-- What has been found in another scope stays. -/
theorem inScope {scope : Dict Ty} {x : Checking α}
    (hx : Adds Q { f with scope } (x { f with scope }).2) :
    Adds Q f (Check.inScope scope x f).2 :=
  hx

theorem of_reports {name : String} (h : Adds Q f f') (hReports : Reports name f f') :
    Q name := by
  obtain ⟨added, hAdded, hNames⟩ := h
  obtain ⟨reported, hReported, d, hd, hSays⟩ := hReports
  obtain rfl : reported = added := List.append_cancel_right (hReported.symm.trans hAdded)
  exact hNames d hd name hSays

theorem reports (h : Adds Q f f') : Adds (fun name => Q name ∧ Reports name f f') f f' := by
  obtain ⟨added, hAdded, hNames⟩ := h
  exact ⟨added, hAdded, fun d hd name hSays =>
    ⟨hNames d hd name hSays, added, hAdded, d, hd, hSays⟩⟩

end Adds

/-- A step that keeps all names in scope and all diagnostics. -/
structure Grows (x : Checking α) : Prop where
  scope : ∀ (f : Findings) (name : String), f.scope.contains name = true →
    (x f).2.scope.contains name = true
  diagnostics : ∀ f : Findings, Adds (fun _ => True) f (x f).2

namespace Grows

theorem pure (a : α) : Grows (Pure.pure a : Checking α) := ⟨fun _ _ h => h, .refl⟩

theorem get : Grows (MonadState.get : Checking Findings) := ⟨fun _ _ h => h, .refl⟩

theorem bind {x : Checking α} {y : α → Checking β} (hx : Grows x) (hy : ∀ a, Grows (y a)) :
    Grows (x >>= y) where
  scope f name h := (hy (x f).1).scope (x f).2 name (hx.scope f name h)
  diagnostics f := (hx.diagnostics f).trans ((hy (x f).1).diagnostics (x f).2)

/-- The checker comes back from another scope. -/
theorem inScope {scope : Dict Ty} {x : Checking α} (hx : Grows x) :
    Grows (Check.inScope scope x) where
  scope _ _ h := h
  diagnostics f := hx.diagnostics { f with scope }

/-- A step that does not touch the scope. -/
theorem of_adds {x : Checking α} {Q : Findings → String → Prop}
    (h : ∀ f, (x f).2.scope = f.scope ∧ Adds (Q f) f (x f).2) : Grows x where
  scope f name hName := by
    rw [(h f).1]
    exact hName
  diagnostics f := (h f).2.mono fun _ _ => trivial

end Grows

/-- What has been found first is still there after a second step. -/
theorem suffix_bind (x : Checking α) {y : α → Checking β} (hy : ∀ a, Grows (y a)) (f : Findings) :
    (x f).2.diagnostics <:+ ((x >>= y) f).2.diagnostics :=
  ((hy (x f).1).diagnostics (x f).2).suffix

theorem declare_grows (name : String) (ty : Ty) : Grows (declare name ty) :=
  ⟨fun _ _ h => contains_insert.mpr (.inr h), .refl⟩

/-- A step that adds diagnostics only, none of which says that a name is unbound. -/
def Remarks (x : Checking α) : Prop :=
  ∀ f : Findings, (x f).2.scope = f.scope ∧ Adds (fun _ => False) f (x f).2

namespace Remarks

theorem pure (a : α) : Remarks (Pure.pure a : Checking α) := fun f => ⟨rfl, .refl f⟩

theorem bind {x : Checking α} {y : α → Checking β} (hx : Remarks x)
    (hy : ∀ a, Remarks (y a)) : Remarks (x >>= y) := by
  intro f
  obtain ⟨hScope, hAdds⟩ := hx f
  obtain ⟨hScope', hAdds'⟩ := hy (x f).1 (x f).2
  exact ⟨hScope'.trans hScope, hAdds.trans hAdds'⟩

theorem report {context : Option Context} {error : Error}
    (h : ∀ name, ¬ error.SaysUnbound name) : Remarks (Check.report context error) :=
  fun f => ⟨rfl, .report h f⟩

theorem grows {x : Checking α} (h : Remarks x) : Grows x := .of_adds h

theorem adds {x : Checking α} (h : Remarks x) {Q : String → Prop} {f : Findings} :
    Adds Q f (x f).2 :=
  (h f).2.mono fun _ => False.elim

end Remarks

/-- A step that adds diagnostics about types only. -/
def Judges (x : Checking α) : Prop :=
  ∀ f : Findings, (x f).2.scope = f.scope ∧
    ∃ added, (x f).2.diagnostics = added ++ f.diagnostics ∧ ∀ d ∈ added, d.isAboutTypes = true

namespace Judges

theorem pure (a : α) : Judges (Pure.pure a : Checking α) :=
  fun _ => ⟨rfl, [], rfl, List.forall_mem_nil _⟩

theorem bind {x : Checking α} {y : α → Checking β} (hx : Judges x) (hy : ∀ a, Judges (y a)) :
    Judges (x >>= y) := by
  intro f
  obtain ⟨hScope, added, hAdded, hTypes⟩ := hx f
  obtain ⟨hScope', more, hMore, hTypes'⟩ := hy (x f).1 (x f).2
  refine ⟨hScope'.trans hScope, more ++ added, ?_, List.forall_mem_append.mpr ⟨hTypes', hTypes⟩⟩
  rw [List.append_assoc, ← hAdded]
  exact hMore

theorem report {context : Option Context} {error : Error} (h : error.isAboutTypes = true) :
    Judges (Check.report context error) := by
  intro f
  cases context with
  | none => exact ⟨rfl, [error], rfl, List.forall_mem_singleton.mpr h⟩
  | some c => exact ⟨rfl, [.inCall c.function error], rfl, List.forall_mem_singleton.mpr h⟩

theorem remarks {x : Checking α} (h : Judges x) : Remarks x := by
  intro f
  obtain ⟨hScope, added, hAdded, hTypes⟩ := h f
  exact ⟨hScope, added, hAdded, fun d hd name => d.not_saysUnbound (hTypes d hd) name⟩

theorem grows {x : Checking α} (h : Judges x) : Grows x := h.remarks.grows

theorem adds {x : Checking α} (h : Judges x) {Q : String → Prop} {f : Findings} :
    Adds Q f (x f).2 :=
  h.remarks.adds

end Judges

/-! ## One step after the other -/

/-- What has been found after a step for each of several items. -/
def after (x : α → Checking β) (f : Findings) (items : List α) : Findings :=
  items.foldl (fun f item => (x item f).2) f

theorem after_append (x : α → Checking β) (f : Findings) (items more : List α) :
    after x f (items ++ more) = after x (after x f items) more :=
  List.foldl_append

section

variable {x : α → Checking β}

theorem Grows.after (h : ∀ a, Grows (x a)) (items : List α) :
    Grows fun f => ((), Check.after x f items) := by
  induction items with
  | nil => exact .pure ()
  | cons item items ih => exact .bind (h item) fun _ => ih

/-- What is added on the way is added by one of the steps. -/
theorem adds_after {Q : String → Prop} :
    ∀ {items : List α} {f : Findings},
      (∀ before item rest, items = before ++ item :: rest →
        Adds Q (after x f before) (x item (after x f before)).2) →
      Adds Q f (after x f items) := by
  intro items
  induction items with
  | nil => exact fun {f} _ => .refl f
  | cons item items ih =>
      intro f h
      refine (h [] item items rfl).trans (ih fun before other rest hItems => ?_)
      exact h (item :: before) other rest (congrArg (item :: ·) hItems)

/-- What a step adds is still there after the steps that follow. -/
theorem suffix_after (h : ∀ a, Grows (x a)) (before : List α) (item : α) (rest : List α)
    (f : Findings) :
    (x item (after x f before)).2.diagnostics <:+
      (after x f (before ++ item :: rest)).diagnostics := by
  rw [after_append]
  exact ((Grows.after h rest).diagnostics (x item (after x f before)).2).suffix

end

/-! ## What is said about types -/

section

variable {p : Program} {context : Option Context}

theorem demand_judges (place : String) (actual target : Ty) :
    Judges (demand p context place actual target) := by
  unfold demand
  split
  · exact .report rfl
  · exact .pure ()

theorem demandResult_judges (function : String) (body : Ty) (declared : Option Ty) :
    Judges (demandResult p context function body declared) := by
  unfold demandResult
  split
  · split
    · exact .report rfl
    · exact .pure ()
  · exact .pure ()

theorem checkArguments_judges (b : Builtin) :
    ∀ (arguments : List Ty) (position : Nat) (bindings : Ty.Bindings),
      Judges (checkArguments p context b position bindings arguments) := by
  intro arguments
  induction arguments with
  | nil => exact fun _ _ => .pure _
  | cons argument arguments ih =>
      intro position bindings
      rw [checkArguments]
      cases b.signature.paramAt position with
      | none => exact ih (position + 1) bindings
      | some param =>
          dsimp only
          split
          · exact .bind (.report rfl) fun _ => ih (position + 1) _
          · exact ih (position + 1) _

theorem arity_of_fault {arity : Arity} {got : Nat} {error : Error}
    (h : arity.fault? got = some error) : ∃ expected found, error = .arity expected found none := by
  unfold Arity.fault? at h
  split at h
  · split at h
    · cases h
    · cases h
      exact ⟨_, _, rfl⟩
  · split at h
    · cases h
      exact ⟨_, _, rfl⟩
    · cases h
  · cases h

theorem builtinCallType_judges (b : Builtin) (arguments : List Ty) :
    Judges (builtinCallType p context b arguments) := by
  unfold builtinCallType
  split
  · rename_i error hFault
    obtain ⟨expected, got, rfl⟩ := arity_of_fault hFault
    exact .bind (.report rfl) fun _ => .pure _
  · split
    · exact .pure _
    · exact .bind (checkArguments_judges b arguments 0 Dict.empty) fun _ => .pure _

theorem valueCallType_judges (name : String) (callee : Ty) (arguments : List Ty) :
    Judges (valueCallType p context name callee arguments) := by
  unfold valueCallType
  split
  · exact .bind (.report rfl) fun _ => .pure _
  · split
    · dsimp only
      split
      · exact .pure _
      · exact .bind (.report rfl) fun _ => .pure _
    · exact .pure _

theorem demandPure_remarks (callee : String) (calleeIsPure : Bool) :
    Remarks (demandPure context callee calleeIsPure) := by
  unfold demandPure
  split
  · split
    · exact .report fun _ h => h
    · exact .pure ()
  · exact .pure ()

end

/-! ## Names -/

/-- A name that is not in scope, and that nothing can be called by. -/
structure Unknown (p : Program) (f : Findings) (name : String) : Prop where
  scope : f.scope.contains name = false
  function : p.function? name = none
  type : p.types.parent? name = none
  builtin : Builtin.find? name = none

section

variable {p : Program} {context : Option Context}

/-- Looking up a name reports it if it is unknown, and nothing else. -/
theorem nameType_adds (name : String) (f : Findings) :
    (nameType p context name f).2.scope = f.scope ∧
      Adds (fun x => x = name ∧ Unknown p f name) f (nameType p context name f).2 := by
  unfold nameType
  rw [get_bind_apply]
  cases hScope : f.scope.get? name with
  | some ty => exact ⟨rfl, .refl f⟩
  | none =>
      cases hFunction : p.function? name with
      | some g => exact ⟨rfl, .refl f⟩
      | none =>
          cases hType : p.types.parent? name with
          | some parent => exact ⟨rfl, .refl f⟩
          | none =>
              cases hBuiltin : Builtin.find? name with
              | some b => exact ⟨rfl, .refl f⟩
              | none =>
                  refine ⟨rfl, .report (fun x hSame => ?_) f⟩
                  refine ⟨(show name = x from hSame).symm, ?_, hFunction, hType, hBuiltin⟩
                  rw [Dict.contains, hScope]
                  rfl

/-- A call by name reports the name if nothing can be called by it. -/
theorem namedCallType_adds (name : String) (arguments : List Ty) (f : Findings) :
    (namedCallType p context name arguments f).2.scope = f.scope ∧
      Adds
        (fun x => x = name ∧ p.function? name = none ∧ p.types.parent? name = none ∧
          Builtin.find? name = none) f
        (namedCallType p context name arguments f).2 := by
  have hRemarks : ∀ {x : Checking Ty} {Q : String → Prop}, Remarks x →
      (x f).2.scope = f.scope ∧ Adds Q f (x f).2 := fun h =>
    ⟨(h f).1, (h f).2.mono fun _ => False.elim⟩
  unfold namedCallType
  cases hFunction : p.function? name with
  | some g =>
      refine hRemarks (.bind (demandPure_remarks name g.isPure) fun _ => ?_)
      cases chooseStatic? p.types g.clauses arguments with
      | some choice => exact .pure _
      | none => exact .bind (.report fun _ h => h) fun _ => .pure _
  | none =>
      cases hType : p.types.parent? name with
      | some parent =>
          refine hRemarks ?_
          dsimp only
          split
          · exact .bind (demand_judges name _ parent).remarks fun _ => .pure _
          · exact .bind (.report fun _ h => h) fun _ => .pure _
      | none =>
          cases hBuiltin : Builtin.find? name with
          | some b =>
              exact hRemarks (.bind (demandPure_remarks name b.pure) fun _ =>
                (builtinCallType_judges b arguments).remarks)
          | none =>
              refine ⟨rfl, .report (fun x hSame => ?_) f⟩
              exact ⟨(show name = x from hSame).symm, rfl, rfl, rfl⟩

/-- What the checker does with a callee that is a name. -/
def calleeType (p : Program) (context : Option Context) (name : String) (arguments : List Ty) :
    Checking Ty := do
  if (← get).scope.contains name then
    let ty ← nameType p context name
    valueCallType p context name ty arguments
  else namedCallType p context name arguments

/-- **A callee is reported as unbound if it is unknown**, and no other name is. -/
theorem calleeType_adds (name : String) (arguments : List Ty) (f : Findings) :
    (calleeType p context name arguments f).2.scope = f.scope ∧
      Adds (fun x => x = name ∧ Unknown p f name) f
        (calleeType p context name arguments f).2 := by
  unfold calleeType
  rw [get_bind_apply]
  cases hScope : f.scope.contains name with
  | true =>
      obtain ⟨hSame, hAdds⟩ := @nameType_adds p context name f
      have hJudges : Judges (valueCallType p context name (nameType p context name f).1 arguments) :=
        valueCallType_judges name _ arguments
      obtain ⟨hSame', hAdds'⟩ := hJudges.remarks (nameType p context name f).2
      exact ⟨hSame'.trans hSame, hAdds.trans (hAdds'.mono fun _ => False.elim)⟩
  | false =>
      obtain ⟨hSame, hAdds⟩ := @namedCallType_adds p context name arguments f
      refine ⟨hSame, hAdds.mono fun x hUnknown => ?_⟩
      obtain ⟨hName, hFunction, hType, hBuiltin⟩ := hUnknown
      exact ⟨hName, hScope, hFunction, hType, hBuiltin⟩

end

/-! ## Expressions -/

section

variable (p : Program) (context : Option Context)

/-- What the checker makes of the test of a conditional. -/
def testResult (ty : Ty) : Checking Unit :=
  if mayHave p.types ty Ty.bool then pure () else report context (.typing (.condition ty.text))

/-- The test of a conditional. -/
def testType (test : Expr) : Checking Unit :=
  exprType p context test >>= testResult p context

/-- What the checker makes of an operand of `and` or `or`. -/
def operandResult (form : String) (ty : Ty) : Checking Unit :=
  if mayHave p.types ty Ty.bool then pure () else report context (.typing (.operand form ty.text))

/-- An operand of `and` or `or`. -/
def operandType (form : String) (e : Expr) : Checking Unit :=
  exprType p context e >>= operandResult p context form

/-- The scope in which the value of a `set` is checked: a lambda may call itself. -/
def setScope (name : String) (value : Expr) (scope : Dict Ty) : Dict Ty :=
  if value.isLambda then scope.insertNew name .func else scope

/-- What the checker makes of the value of a `set`. -/
def setResult (name : String) (ty : Option Ty) (inferred : Ty) : Checking Ty := do
  match ty with
  | some declared =>
    demand p context "set" inferred declared
    declare name declared
    return declared
  | none =>
    declare name inferred
    return inferred

/-- What the checker makes of the last expression of a block. -/
def blockResult (cast : Option Ty) (last : Ty) : Checking Ty := do
  match cast with
  | some target =>
    demand p context "do" last target
    return target
  | none => return last

/-- What the checker makes of the body of a lambda. -/
def lambdaResult (params : List Pattern) (ret : Option Ty) (found : Ty) : Checking Ty := do
  demandResult p context "lambda" found ret
  match Pattern.types? params with
  | some types => return .arrow types (ret.getD found)
  | none => return .func

theorem exprType_block (body : List Expr) (cast : Option Ty) :
    exprType p context (.block body cast) =
      get >>= fun f => inScope (withSetNames f.scope body) (lastType p context Ty.listAny body) >>=
        blockResult p context cast := by
  rw [exprType]
  rfl

theorem exprType_set (name : String) (ty : Option Ty) (value : Expr) (claims : Bool) :
    exprType p context (.set name ty value claims) =
      modify (fun f => { f with scope := setScope name value f.scope }) >>= fun _ =>
        exprType p context value >>= setResult p context name ty := by
  rw [exprType]
  unfold setScope
  cases value.isLambda <;> rfl

theorem exprType_lambda (params : List Pattern) (ret : Option Ty) (body : Expr) :
    exprType p context (.lambda params ret body) =
      get >>= fun f => inScope (withParams f.scope params) (exprType p context body) >>=
        lambdaResult p context params ret := by
  rw [exprType]
  rfl

theorem exprType_cond (test yes no : Expr) :
    exprType p context (.cond test yes no) =
      testType p context test >>= fun _ => exprType p context yes >>= fun yes =>
        exprType p context no >>= fun no => pure (p.types.join yes no) := by
  rw [exprType, testType, bind_assoc]
  refine congrArg _ (funext fun ty => ?_)
  unfold testResult
  cases mayHave p.types ty Ty.bool <;> rfl

theorem operandsType_cons (form : String) (e : Expr) (es : List Expr) :
    operandsType p context form (e :: es) =
      operandType p context form e >>= fun _ => operandsType p context form es := by
  rw [operandsType, operandType, bind_assoc]
  refine congrArg _ (funext fun ty => ?_)
  unfold operandResult
  cases mayHave p.types ty Ty.bool <;> rfl

theorem exprType_call_named (name : String) (args : List Expr) :
    exprType p context (.call (.var name) args) =
      exprTypes p context args >>= calleeType p context name := by
  rw [exprType]
  rfl

theorem exprType_call {callee : Expr} (h : ∀ name, callee ≠ .var name) (args : List Expr) :
    exprType p context (.call callee args) =
      exprTypes p context args >>= fun arguments => exprType p context callee >>= fun ty =>
        valueCallType p context "lambda" ty arguments := by
  rw [exprType]
  cases callee with
  | var name => exact absurd rfl (h name)
  | _ => rfl

theorem exprTypes_state (es : List Expr) (f : Findings) :
    (exprTypes p context es f).2 = after (exprType p context) f es := by
  induction es generalizing f with
  | nil => rfl
  | cons e es ih => exact ih _

theorem lastType_state (es : List Expr) (last : Ty) (f : Findings) :
    (lastType p context last es f).2 = after (exprType p context) f es := by
  induction es generalizing f last with
  | nil => rfl
  | cons e es ih => exact ih _ _

theorem operandsType_state (form : String) (es : List Expr) (f : Findings) :
    (operandsType p context form es f).2 = after (operandType p context form) f es := by
  induction es generalizing f with
  | nil => rfl
  | cons e es ih =>
      rw [operandsType_cons]
      exact ih _

variable {p context}

theorem testResult_judges (ty : Ty) : Judges (testResult p context ty) := by
  unfold testResult
  split
  · exact .pure ()
  · exact .report rfl

theorem operandResult_judges (form : String) (ty : Ty) :
    Judges (operandResult p context form ty) := by
  unfold operandResult
  split
  · exact .pure ()
  · exact .report rfl

theorem setResult_adds (name : String) (ty : Option Ty) (inferred : Ty) {Q : String → Prop}
    (f : Findings) : Adds Q f (setResult p context name ty inferred f).2 := by
  cases ty with
  | some declared => exact .bind (demand_judges "set" inferred declared).adds (.of_same rfl)
  | none => exact .of_same rfl

theorem setResult_grows (name : String) (ty : Option Ty) (inferred : Ty) :
    Grows (setResult p context name ty inferred) := by
  cases ty with
  | some declared =>
      exact .bind (demand_judges "set" inferred declared).grows fun _ =>
        .bind (declare_grows name declared) fun _ => .pure _
  | none => exact .bind (declare_grows name inferred) fun _ => .pure _

theorem blockResult_judges (cast : Option Ty) (last : Ty) :
    Judges (blockResult p context cast last) := by
  cases cast with
  | some target => exact .bind (demand_judges "do" last target) fun _ => .pure _
  | none => exact .pure _

theorem lambdaResult_judges (params : List Pattern) (ret : Option Ty) (found : Ty) :
    Judges (lambdaResult p context params ret found) := by
  refine .bind (demandResult_judges "lambda" found ret) fun _ => ?_
  cases Pattern.types? params with
  | some types => exact .pure _
  | none => exact .pure _

theorem contains_setScope {name other : String} {value : Expr} {scope : Dict Ty}
    (h : scope.contains other = true) : (setScope name value scope).contains other = true := by
  unfold setScope
  split
  · exact contains_insertNew.mpr (.inr h)
  · exact h

variable (p context)

mutual

/-- **Checking an expression keeps all names in scope**, and all diagnostics. -/
theorem exprType_grows : ∀ e : Expr, Grows (exprType p context e)
  | .lit _ => .pure _
  | .var name => .of_adds (nameType_adds name)
  | .cond test yes no => by
      rw [exprType_cond]
      exact .bind (testType_grows test) fun _ => .bind (exprType_grows yes) fun _ =>
        .bind (exprType_grows no) fun _ => .pure _
  | .block body cast => by
      rw [exprType_block]
      exact .bind .get fun f => .bind (.inScope (lastType_grows body _)) fun last =>
        (blockResult_judges cast last).grows
  | .set name ty value claims => by
      rw [exprType_set]
      exact .bind ⟨fun _ _ h => contains_setScope h, .refl⟩ fun _ =>
        .bind (exprType_grows value) fun inferred => setResult_grows name ty inferred
  | .lambda params ret body => by
      rw [exprType_lambda]
      exact .bind .get fun f => .bind (.inScope (exprType_grows body)) fun found =>
        (lambdaResult_judges params ret found).grows
  | .conj operands => operandsType_grows "and" operands
  | .disj operands => operandsType_grows "or" operands
  | .call callee args => by
      by_cases hName : ∃ name, callee = .var name
      · obtain ⟨name, rfl⟩ := hName
        rw [exprType_call_named]
        exact .bind (exprTypes_grows args) fun arguments =>
          .of_adds (calleeType_adds name arguments)
      · rw [exprType_call p context (not_exists.mp hName)]
        exact .bind (exprTypes_grows args) fun arguments => .bind (exprType_grows callee) fun ty =>
          (valueCallType_judges "lambda" ty arguments).grows

theorem testType_grows : ∀ e : Expr, Grows (testType p context e)
  | e => .bind (exprType_grows e) fun ty => (testResult_judges ty).grows

theorem operandType_grows (form : String) : ∀ e : Expr, Grows (operandType p context form e)
  | e => .bind (exprType_grows e) fun ty => (operandResult_judges form ty).grows

theorem exprTypes_grows : ∀ es : List Expr, Grows (exprTypes p context es)
  | [] => .pure _
  | e :: es => .bind (exprType_grows e) fun _ => .bind (exprTypes_grows es) fun _ => .pure _

theorem operandsType_grows (form : String) :
    ∀ es : List Expr, Grows (operandsType p context form es)
  | [] => .pure _
  | e :: es => by
      rw [operandsType_cons]
      exact .bind (operandType_grows form e) fun _ => operandsType_grows form es

theorem lastType_grows : ∀ (es : List Expr) (last : Ty), Grows (lastType p context last es)
  | [], _ => .pure _
  | e :: es, _ => .bind (exprType_grows e) fun ty => lastType_grows es ty

end

variable {p}

/-- What is added for operands is added for one of them. -/
theorem operandsType_adds {context : Option Context} (form : String) {es : List Expr}
    {f : Findings} {Q : String → Prop}
    (h : ∀ before e rest, es = before ++ e :: rest →
      Adds Q (after (operandType p context form) f before)
        (exprType p context e (after (operandType p context form) f before)).2) :
    Adds Q f (operandsType p context form es f).2 := by
  rw [operandsType_state]
  exact adds_after fun before e rest hOperands =>
    .bind (h before e rest hOperands) (operandResult_judges form _).adds

/-- What has been found in an operand is still there after all of them. -/
theorem suffix_operands (context : Option Context) (form : String) (before : List Expr)
    (e : Expr) (rest : List Expr) (f : Findings) :
    (exprType p context e (after (operandType p context form) f before)).2.diagnostics <:+
      (operandsType p context form (before ++ e :: rest) f).2.diagnostics := by
  rw [operandsType_state]
  refine .trans ?_ (suffix_after (operandType_grows p context form) before e rest f)
  exact suffix_bind (exprType p context e) (fun ty => (operandResult_judges form ty).grows) _

/-- What has been found in the arguments of a call is still there after the call. -/
theorem suffix_call (context : Option Context) (callee : Expr) (args : List Expr) (f : Findings) :
    (exprTypes p context args f).2.diagnostics <:+
      (exprType p context (.call callee args) f).2.diagnostics := by
  by_cases hName : ∃ name, callee = .var name
  · obtain ⟨name, rfl⟩ := hName
    rw [exprType_call_named]
    exact suffix_bind (exprTypes p context args)
      (fun arguments => .of_adds (calleeType_adds name arguments)) f
  · rw [exprType_call p context (not_exists.mp hName)]
    exact suffix_bind (exprTypes p context args) (fun arguments =>
      .bind (exprType_grows p context callee) fun ty =>
        (valueCallType_judges "lambda" ty arguments).grows) f

theorem visitClause_grows (globals : Dict Ty) (function : String) (c : Clause) :
    Grows (visitClause p globals function c) :=
  .bind (.inScope (exprType_grows p _ c.body)) fun found =>
    (demandResult_judges function found c.ret).grows

theorem visitClauses_state (globals : Dict Ty) (items : List (String × Clause)) (f : Findings) :
    (visitClauses p globals items f).2 =
      after (fun item => visitClause p globals item.1 item.2) f items := by
  induction items generalizing f with
  | nil => rfl
  | cons item items ih => exact ih _

end

end Check

end ClauseLisp
