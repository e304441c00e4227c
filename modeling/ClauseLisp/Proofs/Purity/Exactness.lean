import ClauseLisp.Proofs.Purity.FreeCalls
import Mathlib.Data.List.Perm.Basic

/-!
# What the checker says about purity

The checker looks for calls that break purity while it works out types, so that every such
call has to be met on its way, and met once, whatever else is wrong with the types around
it.  It tells names that are bound from names of functions by its scope, which it builds up
as it walks.

The scope turns out to have exactly the names in it that bind around an expression, since
a `set` stands only where its name is known from the start.  Each step then finds exactly
the faults that can be read off the code that it looks at, and says whatever else it likes.

## Main results

* `Check.exprType_finds` — what is found in an expression.
* `purity_diagnostics_perm` — what is found in a loaded program.
-/

namespace ClauseLisp

namespace Check

/-! ## The names in scope -/

/-- The names in scope are these, and no others. -/
def Knows (names : List String) (scope : Dict Ty) : Prop :=
  ∀ name, scope.contains name = true ↔ name ∈ names

namespace Knows

variable {names : List String} {scope : Dict Ty}

theorem insert (h : Knows names scope) {name : String} (hMem : name ∈ names) (ty : Ty) :
    Knows names (scope.insert name ty) := by
  intro other
  rw [contains_insert, h other, or_iff_right_iff_imp]
  rintro rfl
  exact hMem

theorem insertNew (h : Knows names scope) {name : String} (hMem : name ∈ names) (ty : Ty) :
    Knows names (scope.insertNew name ty) := by
  intro other
  rw [contains_insertNew, h other, or_iff_right_iff_imp]
  rintro rfl
  exact hMem

theorem withSetNames (h : Knows names scope) (es : List Expr) :
    Knows (es.filterMap Expr.setName? ++ names) (Check.withSetNames scope es) := by
  intro name
  rw [contains_withSetNames, h name, List.mem_append]

theorem withParams (h : Knows names scope) (params : List Pattern) :
    Knows (params.filterMap Pattern.name? ++ names) (Check.withParams scope params) := by
  intro name
  rw [contains_withParams, h name, List.mem_append]

end Knows

/-- An expression that stands where these names are in scope: if it is a `set`, its name is
one of them, and every other `set` in it stands directly inside a block. -/
structure Stands (names : List String) (e : Expr) : Prop where
  placed : e.isPlaced true = true
  binds : ∀ name, e.setName? = some name → name ∈ names

namespace Stands

variable {names : List String}

theorem of_placed {e : Expr} (h : e.isPlaced false = true) : Stands names e := by
  refine ⟨Expr.isPlaced_of_false true h, fun name hName => ?_⟩
  cases e with
  | set other ty value claims => cases h
  | _ => cases hName

theorem part {e part : Expr} (h : Stands names e) (hMem : part ∈ e.parts) : Stands names part :=
  of_placed (Construct.isPlaced_of_mem_parts h.placed hMem)

/-- Expressions that stand one after the other where what they set is known. -/
theorem of_arePlaced {es : List Expr} (h : Expr.arePlaced true es = true) :
    ∀ e ∈ es, Stands (es.filterMap Expr.setName? ++ names) e := by
  intro e hMem
  refine ⟨(Expr.arePlaced_iff true es).mp h e hMem, fun name hName => ?_⟩
  exact List.mem_append_left _ (List.mem_filterMap.mpr ⟨e, hMem, hName⟩)

end Stands

/-! ## Finding faults -/

/-- The faults of purity that there are to find in calls of these names. -/
def faultsIn (p : Program) (context : Option Context) (callees : List String) : List Error :=
  match context with
  | some c =>
    if c.pure then
      (callees.filter p.isImpure).map fun callee => .inCall c.function (.purity c.function callee)
    else []
  | none => []

section

variable (p : Program) (context : Option Context)

theorem faultsIn_nil : faultsIn p context [] = [] := by
  cases context with
  | none => rfl
  | some c => simp [faultsIn]

theorem faultsIn_append (callees others : List String) :
    faultsIn p context (callees ++ others) =
      faultsIn p context callees ++ faultsIn p context others := by
  cases context with
  | none => rfl
  | some c =>
      obtain ⟨function, pure⟩ := c
      cases pure with
      | true => simp [faultsIn]
      | false => rfl

theorem faultsIn_flatMap {α : Type} (items : List α) (callees : α → List String) :
    faultsIn p context (items.flatMap callees) =
      items.flatMap fun item => faultsIn p context (callees item) := by
  induction items with
  | nil => exact faultsIn_nil p context
  | cons item items ih => rw [List.flatMap_cons, faultsIn_append, ih, List.flatMap_cons]

end

variable {α β : Type}

/-- A step that, where these names are in scope, finds these faults of purity.  It may add
other diagnostics, and leaves the same names in scope. -/
structure Finds (names : List String) (faults : List Error) (x : Checking α) : Prop where
  scope : ∀ f : Findings, Knows names f.scope → Knows names (x f).2.scope
  purity : ∀ f : Findings, Knows names f.scope →
    ((x f).2.diagnostics.filter Error.isPurity).Perm
      (faults ++ f.diagnostics.filter Error.isPurity)

namespace Finds

variable {names : List String} {faults others : List Error}

theorem pure (a : α) : Finds names [] (Pure.pure a : Checking α) :=
  ⟨fun _ h => h, fun _ _ => .refl _⟩

/-- One step after the other. -/
theorem bind {x : Checking α} {y : α → Checking β} (hx : Finds names faults x)
    (hy : ∀ a, Finds names others (y a)) : Finds names (faults ++ others) (x >>= y) where
  scope f h := (hy _).scope _ (hx.scope f h)
  purity f h := by
    have hFirst := hx.purity f h
    have hSecond := (hy (x f).1).purity (x f).2 (hx.scope f h)
    refine hSecond.trans ((hFirst.append_left others).trans ?_)
    rw [← List.append_assoc]
    exact List.perm_append_comm.append_right _

/-- A second step that finds nothing. -/
theorem followed {x : Checking α} {y : α → Checking β} (hx : Finds names faults x)
    (hy : ∀ a, Finds names [] (y a)) : Finds names faults (x >>= y) := by
  have hBoth := hx.bind hy
  rwa [List.append_nil] at hBoth

/-- A step that depends on what is in scope. -/
theorem get_bind {x : Findings → Checking α}
    (h : ∀ f : Findings, Knows names f.scope → Finds names faults (x f)) :
    Finds names faults (MonadState.get >>= x : Checking α) where
  scope f hKnows := (h f hKnows).scope f hKnows
  purity f hKnows := (h f hKnows).purity f hKnows

/-- What is found in another scope is found. -/
theorem inScope {inner : List String} {scope : Dict Ty} {x : Checking α}
    (hScope : Knows inner scope) (hx : Finds inner faults x) :
    Finds names faults (Check.inScope scope x) where
  scope _ h := h
  purity f _ := hx.purity { f with scope } hScope

theorem report {context : Option Context} {error : Error} (h : error.isPurity = false) :
    Finds names [] (Check.report context error) where
  scope _ h := h
  purity f _ := by
    have hAdded : ∀ added : Error, added.isPurity = false →
        (added :: f.diagnostics).filter Error.isPurity = f.diagnostics.filter Error.isPurity :=
      fun added hAdded => List.filter_cons_of_neg (by simp [hAdded])
    cases context with
    | none => exact .of_eq (hAdded error h)
    | some c => exact .of_eq (hAdded (.inCall c.function error) h)

/-- A step that is about types finds nothing. -/
theorem of_judges {x : Checking α} (h : Judges x) : Finds names [] x where
  scope f hKnows := by
    rw [(h f).1]
    exact hKnows
  purity f _ := by
    obtain ⟨-, added, hAdded, hTypes⟩ := h f
    have hNone : added.filter Error.isPurity = [] :=
      List.filter_eq_nil_iff.mpr fun d hd => by simp [d.isPurity_eq_false (hTypes d hd)]
    rw [hAdded, List.filter_append, hNone]

theorem declare {name : String} (h : name ∈ names) (ty : Ty) :
    Finds names [] (Check.declare name ty) :=
  ⟨fun _ hKnows => hKnows.insert h ty, fun _ _ => .refl _⟩

/-- What counts is what has been found in the end. -/
theorem of_state {x : Checking α} {y : Checking β} (hx : Finds names faults x)
    (h : ∀ f, (y f).2 = (x f).2) : Finds names faults y where
  scope f hKnows := h f ▸ hx.scope f hKnows
  purity f hKnows := h f ▸ hx.purity f hKnows

/-- A step for each of several items. -/
theorem after {x : α → Checking β} {faults : α → List Error} :
    ∀ {items : List α}, (∀ item ∈ items, Finds names (faults item) (x item)) →
      Finds names (items.flatMap faults) fun f => ((), Check.after x f items) := by
  intro items
  induction items with
  | nil => exact fun _ => .pure ()
  | cons item items ih =>
      intro h
      obtain ⟨hItem, hItems⟩ := List.forall_mem_cons.mp h
      exact hItem.bind fun _ => ih hItems

/-- A step for each of several expressions. -/
theorem expressions {p : Program} {context : Option Context} {es : List Expr}
    {x : Expr → Checking α} {y : Checking β} (hState : ∀ f, (y f).2 = Check.after x f es)
    (h : ∀ e ∈ es, Finds names (faultsIn p context (e.freeCalls names)) (x e)) :
    Finds names (faultsIn p context (Expr.freeCallsAll names es)) y := by
  rw [Expr.freeCallsAll_eq, faultsIn_flatMap]
  exact (Finds.after h).of_state hState

end Finds

/-! ## Steps of the checker -/

section

variable {p : Program} {context : Option Context} {names : List String}

/-- **A call of something impure is found**, in a pure clause. -/
theorem demandPure_finds {callee : String} {calleeIsPure : Bool}
    (h : p.isImpure callee = !calleeIsPure) :
    Finds names (faultsIn p context [callee]) (demandPure context callee calleeIsPure) := by
  cases context with
  | none => exact .pure ()
  | some c =>
      obtain ⟨function, pure⟩ := c
      cases pure with
      | false => exact .pure ()
      | true =>
          cases calleeIsPure with
          | true =>
              have hNone : faultsIn p (some ⟨function, true⟩) [callee] = [] := by
                simp [faultsIn, h]
              rw [hNone]
              exact .pure ()
          | false =>
              have hFault : faultsIn p (some ⟨function, true⟩) [callee] =
                  [.inCall function (.purity function callee)] := by
                simp [faultsIn, h]
              rw [hFault]
              exact ⟨fun _ hKnows => hKnows, fun f _ => .refl _⟩

theorem nameType_finds (name : String) : Finds names [] (nameType p context name) := by
  refine .get_bind fun f _ => ?_
  cases f.scope.get? name with
  | some ty => exact .pure ty
  | none =>
      cases p.function? name with
      | some g => exact .pure _
      | none =>
          cases p.types.parent? name with
          | some parent => exact .pure _
          | none =>
              dsimp only
              split
              · exact .pure _
              · exact .bind (.report rfl) fun _ => .pure _

/-- **A call by name is a fault if the name calls something impure**, whatever is wrong with
its arguments. -/
theorem namedCallType_finds (name : String) (arguments : List Ty) :
    Finds names (faultsIn p context [name]) (namedCallType p context name arguments) := by
  -- a call of something that is neither a function nor a builtin is no fault
  have hQuiet : p.isImpure name = false → faultsIn p context [name] = [] := by
    intro hPure
    cases context with
    | none => rfl
    | some c => simp [faultsIn, hPure]
  unfold namedCallType
  cases hFunction : p.function? name with
  | some g =>
      have hImpure : p.isImpure name = !g.isPure := by
        rw [Program.isImpure, hFunction]
        rfl
      refine .followed (demandPure_finds hImpure) fun _ => ?_
      cases chooseStatic? p.types g.clauses arguments with
      | some choice => exact .pure _
      | none => exact .bind (.report rfl) fun _ => .pure _
  | none =>
      cases hType : p.types.parent? name with
      | some parent =>
          rw [hQuiet (by rw [Program.isImpure, hFunction, hType]; rfl)]
          dsimp only
          split
          · exact .bind (.of_judges (demand_judges name _ parent)) fun _ => .pure _
          · exact .bind (.report rfl) fun _ => .pure _
      | none =>
          cases hBuiltin : Builtin.find? name with
          | some b =>
              have hImpure : p.isImpure name = !b.pure := by
                rw [Program.isImpure, hFunction, hType, hBuiltin]
                rfl
              exact .followed (demandPure_finds hImpure) fun _ =>
                .of_judges (builtinCallType_judges b arguments)
          | none =>
              rw [hQuiet (by rw [Program.isImpure, hFunction, hType, hBuiltin]; rfl)]
              exact .bind (.report rfl) fun _ => .pure _

/-- A callee that is bound is called as a value, and is no fault. -/
theorem calleeType_finds (name : String) (arguments : List Ty) :
    Finds names (faultsIn p context (Expr.freeName names (.var name)))
      (calleeType p context name arguments) := by
  refine .get_bind fun f hKnows => ?_
  have hBound : names.contains name = f.scope.contains name := by
    rw [Bool.eq_iff_iff, List.contains_iff_mem]
    exact (hKnows name).symm
  rw [Expr.freeName, hBound]
  cases f.scope.contains name with
  | true =>
      rw [if_pos rfl, if_pos rfl, faultsIn_nil]
      exact .bind (nameType_finds name) fun ty => .of_judges (valueCallType_judges name ty arguments)
  | false =>
      rw [if_neg Bool.false_ne_true, if_neg Bool.false_ne_true]
      exact namedCallType_finds name arguments

theorem setResult_finds {name : String} (h : name ∈ names) (ty : Option Ty) (inferred : Ty) :
    Finds names [] (setResult p context name ty inferred) := by
  cases ty with
  | some declared =>
      exact .bind (.of_judges (demand_judges "set" inferred declared)) fun _ =>
        .bind (.declare h declared) fun _ => .pure _
  | none => exact .bind (.declare h inferred) fun _ => .pure _

/-- A lambda may call itself by a name that is in scope anyway. -/
theorem setScope_finds {name : String} (h : name ∈ names) (value : Expr) :
    Finds names [] (modify (fun f => { f with scope := setScope name value f.scope }) :
      Checking Unit) := by
  refine ⟨fun f hKnows => ?_, fun _ _ => .refl _⟩
  show Knows names (setScope name value f.scope)
  unfold setScope
  split
  · exact hKnows.insertNew h .func
  · exact hKnows

end

/-! ## Expressions -/

section

variable {p : Program} {context : Option Context}

/-- **The checker finds the faults in an expression**, each of them once: those of its free
calls, at any depth. -/
theorem exprType_finds (e : Expr) {names : List String} (h : Stands names e) :
    Finds names (faultsIn p context (e.freeCalls names)) (exprType p context e) := by
  cases e with
  | lit value =>
      rw [Expr.freeCalls, faultsIn_nil, exprType]
      exact .pure _
  | var name =>
      rw [Expr.freeCalls, faultsIn_nil, exprType]
      exact nameType_finds name
  | cond test yes no =>
      rw [exprType_cond, Expr.freeCalls, faultsIn_append, faultsIn_append, List.append_assoc]
      have hTest := exprType_finds test (h.part (by simp [Expr.parts]))
      have hYes := exprType_finds yes (h.part (by simp [Expr.parts]))
      have hNo := exprType_finds no (h.part (by simp [Expr.parts]))
      exact .bind (hTest.followed fun ty => .of_judges (testResult_judges ty)) fun _ => hYes.bind fun _ =>
        hNo.followed fun _ => .pure _
  | block body cast =>
      rw [exprType_block, Expr.freeCalls]
      refine .get_bind fun f hKnows => ?_
      refine .followed (.inScope (hKnows.withSetNames body) ?_) fun last =>
        .of_judges (blockResult_judges cast last)
      have hItems : ∀ e ∈ body, Stands (body.filterMap Expr.setName? ++ names) e :=
        Stands.of_arePlaced h.placed
      exact .expressions (lastType_state p context body _) fun e hMem =>
        exprType_finds e (hItems e hMem)
  | set name ty value claims =>
      rw [exprType_set, Expr.freeCalls]
      have hName := h.binds name rfl
      have hValue := exprType_finds value (h.part (by simp [Expr.parts]))
      exact .bind (setScope_finds hName value) fun _ => hValue.followed (setResult_finds hName ty)
  | lambda params ret body =>
      rw [exprType_lambda, Expr.freeCalls]
      refine .get_bind fun f hKnows => ?_
      refine .followed (.inScope (hKnows.withParams params) ?_) fun found =>
        .of_judges (lambdaResult_judges params ret found)
      exact exprType_finds body (.of_placed h.placed)
  | conj operands =>
      rw [exprType, Expr.freeCalls]
      exact .expressions (operandsType_state p context "and" operands) fun e hMem =>
        (exprType_finds e (h.part hMem)).followed fun ty =>
          .of_judges (operandResult_judges "and" ty)
  | disj operands =>
      rw [exprType, Expr.freeCalls]
      exact .expressions (operandsType_state p context "or" operands) fun e hMem =>
        (exprType_finds e (h.part hMem)).followed fun ty =>
          .of_judges (operandResult_judges "or" ty)
  | call callee args =>
      have hArgs : Finds names (faultsIn p context (Expr.freeCallsAll names args))
          (exprTypes p context args) :=
        .expressions (exprTypes_state p context args) fun e hMem =>
          exprType_finds e (h.part (List.mem_cons_of_mem callee hMem))
      rw [Expr.freeCalls, faultsIn_append, faultsIn_append]
      by_cases hName : ∃ name, callee = .var name
      · obtain ⟨name, rfl⟩ := hName
        rw [exprType_call_named, Expr.freeCalls, faultsIn_nil, List.append_nil]
        exact hArgs.bind (calleeType_finds name)
      · have hCallee := exprType_finds callee (h.part List.mem_cons_self)
        rw [exprType_call p context (not_exists.mp hName),
          Expr.freeName_of_ne (not_exists.mp hName), faultsIn_nil, List.append_nil]
        exact hArgs.bind fun arguments => hCallee.followed fun ty =>
          .of_judges (valueCallType_judges "lambda" ty arguments)
termination_by e

/-- **The checker finds the faults in a clause**, in a scope with the names that are bound at
top level. -/
theorem visitClause_finds {names bound : List String} {globals : Dict Ty}
    (hGlobals : Knows bound globals) (function : String) {c : Clause}
    (h : c.body.isPlaced false = true) :
    Finds names
      (faultsIn p (some { function, pure := c.pure })
        (c.body.freeCalls (c.params.filterMap Pattern.name? ++ bound)))
      (visitClause p globals function c) :=
  .followed (.inScope (hGlobals.withParams c.params) (exprType_finds c.body (.of_placed h)))
    fun found => .of_judges (demandResult_judges function found c.ret)

end

/-! ## Programs -/

section

variable {p : Program}

theorem start_knows (p : Program) :
    Knows (p.statements.filterMap Expr.setName?) (start p).scope := by
  have hNone : Knows [] ({} : Dict Ty) := fun name => by simp [Dict.contains, Dict.get?, Dict.find]
  have hStart := hNone.withSetNames p.statements
  rwa [List.append_nil] at hStart

/-- Nothing at top level is a fault, and what is bound there is what is set there. -/
theorem statements_find (h : p.Placed) :
    Finds (p.statements.filterMap Expr.setName?) [] fun f =>
      ((), after (exprType p none) f p.statements) := by
  have hPlaced := (Expr.arePlaced_iff true p.statements).mpr h.statements
  have hStands : ∀ e ∈ p.statements, Stands (p.statements.filterMap Expr.setName? ++ []) e :=
    Stands.of_arePlaced hPlaced
  rw [List.append_nil] at hStands
  have hFinds : ∀ e ∈ p.statements, Finds (p.statements.filterMap Expr.setName?)
      (faultsIn p none (e.freeCalls (p.statements.filterMap Expr.setName?))) (exprType p none e) :=
    fun e hMem => exprType_finds e (hStands e hMem)
  exact .expressions (fun _ => rfl) hFinds

/-- The faults in one of the clauses that the checker gets to. -/
def faultsOf (p : Program) (item : String × Clause) : List Error :=
  if item.2.pure then
    (p.impureCalls item.2).map fun callee => .inCall item.1 (.purity item.1 callee)
  else []

/-- **The checker finds the faults in the clauses of a program**, and no others. -/
theorem found_purity (h : p.Placed)
    (hClauses : ∀ item ∈ clausesOf p, item.2.body.isPlaced false = true) :
    ((found p).diagnostics.filter Error.isPurity).Perm ((clausesOf p).flatMap (faultsOf p)) := by
  have hTop := statements_find h
  have hGlobals := hTop.scope (start p) (start_knows p)
  have hItems : Finds (p.statements.filterMap Expr.setName?) ((clausesOf p).flatMap (faultsOf p))
      fun f => ((), after (clauseStep p) f (clausesOf p)) :=
    .after fun item hMem => visitClause_finds hGlobals item.1 (hClauses item hMem)
  have hNone : (start p).diagnostics.filter Error.isPurity = [] := rfl
  have hAfter := hTop.purity (start p) (start_knows p)
  rw [hNone, List.append_nil] at hAfter
  have hAll := hItems.purity (afterTop p) hGlobals
  rwa [show (afterTop p).diagnostics.filter Error.isPurity = [] from hAfter.eq_nil,
    List.append_nil] at hAll

end

end Check

open Check

/-! ## Loaded programs -/

namespace Program

variable {p : Program}

/-- Where the checker gets to a clause, a `set` in it stands directly inside a block. -/
theorem Loaded.clauses_placed (h : p.Loaded) :
    ∀ item ∈ clausesOf p, item.2.body.isPlaced false = true := by
  intro item hItem
  obtain ⟨f, hFunction, hClause⟩ := List.mem_flatMap.mp hItem
  obtain ⟨entry, hEntry, rfl⟩ := List.mem_map.mp hFunction
  obtain ⟨c, hMem, rfl⟩ := List.mem_map.mp hClause
  have hFound := h.function?_of_mem (List.mem_mergeSort.mp hEntry)
  exact h.placed.functions entry.1 entry.2 hFound c hMem

/-- The faults of a function, clause by clause. -/
theorem faults_of_clauses (p : Program) (name : String) (cs : List Clause) :
    (cs.map fun c => (name, c)).flatMap (faultsOf p) =
      (cs.filter (·.pure)).flatMap fun c =>
        (p.impureCalls c).map fun callee => .inCall name (.purity name callee) := by
  induction cs with
  | nil => rfl
  | cons c cs ih =>
      rw [List.map_cons, List.flatMap_cons, ih, List.filter_cons, faultsOf]
      cases c.pure with
      | true => rfl
      | false => rfl

/-- The checker goes through the functions in the order of their names, which makes no
difference to what there is to find. -/
theorem Loaded.faults_perm (h : p.Loaded) :
    ((clausesOf p).flatMap (faultsOf p)).Perm p.purityFaults := by
  rw [clausesOf, sortedFunctions, List.flatMap_map, List.flatMap_assoc]
  refine .flatMap (List.mergeSort_perm _ _) fun entry hMem => .of_eq ?_
  have hMem : entry ∈ p.functions.entries := List.mem_mergeSort.mp hMem
  rw [h.named entry.1 entry.2 (h.function?_of_mem hMem)]
  exact faults_of_clauses p entry.1 entry.2.clauses

end Program

/-- **What the checker says about purity is complete and exact.**

Whatever else is wrong with a loaded program, its diagnostics about purity are, up to their
order, its faults: one for each call, at any depth in a pure clause, whose callee is a name
that nothing around it binds and that calls something impure. -/
theorem purity_diagnostics_perm {p : Program} (h : p.Loaded) :
    (p.check.filter Error.isPurity).Perm p.purityFaults := by
  have hCheck : p.check = (found p).diagnostics.reverse := by
    rw [← visitAll_state]
    rfl
  have hFound := found_purity h.placed h.clauses_placed
  rw [hCheck, List.filter_reverse]
  exact (List.reverse_perm _).trans (hFound.trans h.faults_perm)

/-- A program in which a pure function breaks purity in three calls, one of them an argument of
another; the last one lacks an argument.  Two calls by the same names are none of these, since
a lambda and the function itself bind them. -/
def chatty : Program :=
  (Program.absorb (Loader.ofTable {}) 5
    "(def log (x) (print x)) (defpure f (x print) (do (set g (lambda (log) (log x)))
      (if (print (log x)) (log missing) (open))))" {}).2

/-- The three calls are reported, and no others. -/
theorem purity_diagnostics_perm_of_chatty :
    chatty.Loaded ∧
      (chatty.check.filter Error.isPurity).Perm
        [.inCall "f" (.purity "f" "log"), .inCall "f" (.purity "f" "log"),
          .inCall "f" (.purity "f" "open")] := by
  have hFaults : chatty.purityFaults =
      [.inCall "f" (.purity "f" "log"), .inCall "f" (.purity "f" "log"),
        .inCall "f" (.purity "f" "open")] := by cbv
  have hLoaded : chatty.Loaded := .more (Loader.ofTable {}) 5 _ .empty
  rw [← hFaults]
  exact ⟨hLoaded, purity_diagnostics_perm hLoaded⟩

end ClauseLisp
