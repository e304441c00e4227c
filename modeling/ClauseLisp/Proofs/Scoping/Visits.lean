import ClauseLisp.Proofs.Scoping.Construct
import ClauseLisp.Proofs.Scoping.Findings

/-!
# Where the checker gets to

The checker walks over a program once.  `Visits` says at which expressions it gets, and
with what it has found by then: in particular with which names in scope.  A callee that
is a name is visited in its own way, since a call by name may be checked against more
than the type of the name.

All names that a construct may bind are in scope wherever the checker visits something
in it, since names that are `set` are known from the start.  The checker gets at
everything that a construct holds, and at every name that it reports as unbound.

## Main results

* `Visits.names` — the names that may be bound are in scope.
* `Construct.InProgram.visited` — the checker gets at whatever a construct holds.
* `ReportedAt.unknown` — what is reported as unbound is unknown there.
* `reported_iff` — names are reported at visits, and nowhere else.
-/

namespace ClauseLisp

namespace Check

/-! ## Visits -/

/-- What the checker starts with. -/
def start (p : Program) : Findings := { scope := withSetNames {} p.statements }

/-- What it has found after what is at top level. -/
def afterTop (p : Program) : Findings := after (exprType p none) (start p) p.statements

/-- The clauses of a program, with the names of their functions, as the checker gets to
them. -/
def clausesOf (p : Program) : List (String × Clause) :=
  p.sortedFunctions.flatMap fun f => f.clauses.map fun c => (f.name, c)

/-- The check of one of them. -/
def clauseStep (p : Program) (item : String × Clause) : Checking Unit :=
  visitClause p (afterTop p).scope item.1 item.2

/-- What it has found in the end. -/
def found (p : Program) : Findings := after (clauseStep p) (afterTop p) (clausesOf p)

/-- Something that the checker looks at: an expression for its type, or a callee that is a
name, with the types of the arguments. -/
inductive Site where
  | value (e : Expr)
  | callee (name : String) (arguments : List Ty)

/-- The expression that is looked at. -/
def Site.expr : Site → Expr
  | value e => e
  | callee name _ => .var name

/-- What the checker does about it. -/
def Site.check (p : Program) (context : Option Context) : Site → Checking Ty
  | value e => exprType p context e
  | callee name arguments => calleeType p context name arguments

end Check

open Check

/-- Where something in a construct is checked. -/
def Construct.context : Construct → Option Context
  | top => none
  | clause function c => some { function, pure := c.pure }
  | block outer _ _ => outer.context
  | lambda outer _ => outer.context

/-- **What the checker gets at**, in which construct, and what it has found by then. -/
inductive Visits (p : Program) : Construct → Site → Findings → Prop where
  /-- An expression at top level, after those before it. -/
  | statement {before rest : List Expr} {e : Expr} : p.statements = before ++ e :: rest →
      Visits p .top (.value e) (after (exprType p none) (start p) before)
  /-- The body of a clause, after the clauses before it. -/
  | clause {before rest : List (String × Clause)} {function : String} {c : Clause} :
      clausesOf p = before ++ (function, c) :: rest →
      Visits p (.clause function c) (.value c.body)
        { after (clauseStep p) (afterTop p) before with
          scope := withParams (afterTop p).scope c.params }
  /-- An expression in a block, after those before it. -/
  | item {K : Construct} {f : Findings} {before rest : List Expr} {e : Expr} {cast : Option Ty} :
      Visits p K (.value (.block (before ++ e :: rest) cast)) f →
      Visits p (.block K (before ++ e :: rest) cast) (.value e)
        (after (exprType p K.context)
          { f with scope := withSetNames f.scope (before ++ e :: rest) } before)
  /-- The body of a lambda. -/
  | body {K : Construct} {f : Findings} {params : List Pattern} {ret : Option Ty} {body : Expr} :
      Visits p K (.value (.lambda params ret body)) f →
      Visits p (.lambda K (Clause.ofLambda params ret body)) (.value body)
        { f with scope := withParams f.scope params }
  | test {K : Construct} {f : Findings} {test yes no : Expr} :
      Visits p K (.value (.cond test yes no)) f → Visits p K (.value test) f
  | yes {K : Construct} {f : Findings} {test yes no : Expr} :
      Visits p K (.value (.cond test yes no)) f →
      Visits p K (.value yes) (testType p K.context test f).2
  | no {K : Construct} {f : Findings} {test yes no : Expr} :
      Visits p K (.value (.cond test yes no)) f →
      Visits p K (.value no) (exprType p K.context yes (testType p K.context test f).2).2
  /-- The value of a `set`. -/
  | set {K : Construct} {f : Findings} {name : String} {ty : Option Ty} {value : Expr}
      {claims : Bool} :
      Visits p K (.value (.set name ty value claims)) f →
      Visits p K (.value value) { f with scope := setScope name value f.scope }
  | conj {K : Construct} {f : Findings} {before rest : List Expr} {e : Expr} :
      Visits p K (.value (.conj (before ++ e :: rest))) f →
      Visits p K (.value e) (after (operandType p K.context "and") f before)
  | disj {K : Construct} {f : Findings} {before rest : List Expr} {e : Expr} :
      Visits p K (.value (.disj (before ++ e :: rest))) f →
      Visits p K (.value e) (after (operandType p K.context "or") f before)
  /-- An argument of a call, after those before it. -/
  | argument {K : Construct} {f : Findings} {callee : Expr} {before rest : List Expr} {e : Expr} :
      Visits p K (.value (.call callee (before ++ e :: rest))) f →
      Visits p K (.value e) (after (exprType p K.context) f before)
  /-- A callee that is a name, after the arguments. -/
  | named {K : Construct} {f : Findings} {name : String} {args : List Expr} :
      Visits p K (.value (.call (.var name) args)) f →
      Visits p K (.callee name (exprTypes p K.context args f).1)
        (after (exprType p K.context) f args)
  /-- Any other callee, after the arguments. -/
  | callee {K : Construct} {f : Findings} {callee : Expr} {args : List Expr} :
      (∀ name, callee ≠ .var name) → Visits p K (.value (.call callee args)) f →
      Visits p K (.value callee) (after (exprType p K.context) f args)

/-! ## Names in scope -/

namespace Check

/-- All names that may be bound are in scope. -/
def Covers (names : List String) (scope : Dict Ty) : Prop :=
  ∀ name ∈ names, scope.contains name = true

theorem Covers.grows {α : Type} {x : Checking α} (hx : Grows x) {names : List String}
    {f : Findings} (h : Covers names f.scope) : Covers names (x f).2.scope :=
  fun name hName => hx.scope f name (h name hName)

theorem Covers.after {α β : Type} {x : α → Checking β} (hx : ∀ a, Grows (x a))
    {names : List String} {f : Findings} (h : Covers names f.scope) (items : List α) :
    Covers names (after x f items).scope :=
  h.grows (.after hx items)

/-- The names that expressions set are in scope beside those that were. -/
theorem contains_withSetNames :
    ∀ (es : List Expr) {scope : Dict Ty} {name : String},
      (withSetNames scope es).contains name = true ↔
        name ∈ es.filterMap Expr.setName? ∨ scope.contains name = true := by
  intro es
  induction es with
  | nil => simp [withSetNames]
  | cons e es ih =>
      intro scope name
      cases e with
      | set other ty value claims =>
          show _ ↔ name ∈ other :: es.filterMap Expr.setName? ∨ _
          rw [withSetNames, ih, contains_insertNew, List.mem_cons]
          exact or_left_comm.trans or_assoc.symm
      | _ => exact ih

/-- The names of parameters are in scope beside those that were. -/
theorem contains_withParams :
    ∀ (ps : List Pattern) {scope : Dict Ty} {name : String},
      (withParams scope ps).contains name = true ↔
        name ∈ ps.filterMap Pattern.name? ∨ scope.contains name = true := by
  intro ps
  induction ps with
  | nil => simp [withParams]
  | cons q ps ih =>
      intro scope name
      have hBinds : ∀ (other : String) (ty : Ty),
          (withParams (scope.insert other ty) ps).contains name = true ↔
            name ∈ other :: ps.filterMap Pattern.name? ∨ scope.contains name = true := by
        intro other ty
        rw [ih, contains_insert, List.mem_cons]
        exact or_left_comm.trans or_assoc.symm
      cases q with
      | lit value => exact ih
      | bind other => exact hBinds other Ty.any
      | typed other ty => exact hBinds other ty.erase

theorem covers_afterTop (p : Program) : Covers (Construct.top.names p) (afterTop p).scope :=
  .after (exprType_grows p none) (fun _ hName => (contains_withSetNames p.statements).mpr (.inl hName)) _

end Check

section

variable {p : Program} {K : Construct} {site : Site} {f : Findings}

/-- **Wherever the checker gets in a construct**, the names that may be bound there are in
scope. -/
theorem Visits.names (h : Visits p K site f) : Covers (K.names p) f.scope := by
  induction h with
  | statement _ =>
      exact .after (exprType_grows p none)
        (fun _ hName => (contains_withSetNames p.statements).mpr (.inl hName)) _
  | clause _ =>
      intro name hName
      exact (contains_withParams _).mpr
        ((List.mem_append.mp hName).imp_right (covers_afterTop p name))
  | item _ ih =>
      refine .after (exprType_grows p _) (fun name hName => ?_) _
      exact (contains_withSetNames _).mpr ((List.mem_append.mp hName).imp_right (ih name))
  | body _ ih =>
      exact fun name hName =>
        (contains_withParams _).mpr ((List.mem_append.mp hName).imp_right (ih name))
  | test _ ih => exact ih
  | yes _ ih => exact ih.grows (testType_grows p _ _)
  | no _ ih => exact (ih.grows (testType_grows p _ _)).grows (exprType_grows p _ _)
  | set _ ih => exact fun name hName => contains_setScope (ih name hName)
  | conj _ ih => exact ih.after (operandType_grows p _ "and") _
  | disj _ ih => exact ih.after (operandType_grows p _ "or") _
  | argument _ ih => exact ih.after (exprType_grows p _) _
  | named _ ih => exact ih.after (exprType_grows p _) _
  | callee _ _ ih => exact ih.after (exprType_grows p _) _

/-! ## What is visited -/

/-- The checker gets at an expression in a construct. -/
def Construct.Visited (p : Program) (K : Construct) (e : Expr) : Prop :=
  ∃ site f, Visits p K site f ∧ site.expr = e

namespace Construct

/-- The checker gets at the parts of an expression. -/
theorem Visited.part {e part : Expr} (h : K.Visited p e) (hMem : part ∈ e.parts) :
    K.Visited p part := by
  obtain ⟨⟨e⟩ | ⟨name, arguments⟩, f, hVisit, rfl⟩ := h
  · cases e with
    | lit value => cases hMem
    | var name => cases hMem
    | block body cast => cases hMem
    | lambda params ret body => cases hMem
    | cond test yes no =>
        simp only [Site.expr, Expr.parts, List.mem_cons, List.not_mem_nil, or_false] at hMem
        obtain rfl | rfl | rfl := hMem
        · exact ⟨_, _, .test hVisit, rfl⟩
        · exact ⟨_, _, .yes hVisit, rfl⟩
        · exact ⟨_, _, .no hVisit, rfl⟩
    | set name ty value claims =>
        obtain rfl := List.mem_singleton.mp hMem
        exact ⟨_, _, .set hVisit, rfl⟩
    | conj operands =>
        obtain ⟨before, rest, rfl⟩ := List.append_of_mem hMem
        exact ⟨_, _, .conj hVisit, rfl⟩
    | disj operands =>
        obtain ⟨before, rest, rfl⟩ := List.append_of_mem hMem
        exact ⟨_, _, .disj hVisit, rfl⟩
    | call callee args =>
        rcases List.mem_cons.mp hMem with rfl | hMem
        · by_cases hName : ∃ name, part = .var name
          · obtain ⟨name, rfl⟩ := hName
            exact ⟨_, _, .named hVisit, rfl⟩
          · exact ⟨_, _, .callee (not_exists.mp hName) hVisit, rfl⟩
        · obtain ⟨before, rest, rfl⟩ := List.append_of_mem hMem
          exact ⟨_, _, .argument hVisit, rfl⟩
  · cases hMem

/-- It gets at everything that a construct holds if it gets at its code. -/
theorem Holds.visited (hCode : ∀ e ∈ K.code p, K.Visited p e) {e : Expr} (h : K.Holds p e) :
    K.Visited p e := by
  induction h with
  | code hMem => exact hCode _ hMem
  | part _ hMem ih => exact ih.part hMem

/-- What is no name is visited for its type. -/
theorem Visited.value {e : Expr} (h : K.Visited p e) (hName : ∀ name, e ≠ .var name) :
    ∃ f, Visits p K (.value e) f := by
  obtain ⟨⟨e⟩ | ⟨name, arguments⟩, f, hVisit, rfl⟩ := h
  · exact ⟨f, hVisit⟩
  · exact absurd rfl (hName name)

end Construct

/-- What a table holds for a name is one of its entries. -/
theorem Dict.mem_of_get? {α : Type} {d : Dict α} {name : String} {value : α}
    (h : d.get? name = some value) : (name, value) ∈ d.entries := by
  obtain ⟨entries⟩ := d
  rw [get?] at h
  induction entries with
  | nil => cases h
  | cons entry entries ih =>
      rw [find] at h
      split at h
      · rename_i hKey
        cases h
        cases hKey
        exact List.mem_cons_self
      · exact List.mem_cons_of_mem _ (ih h)

/-- Functions are found by their own names. -/
def Program.Named (p : Program) : Prop :=
  ∀ name f, p.function? name = some f → f.name = name

theorem Check.mem_clausesOf (hNamed : p.Named) {name : String} {g : Function} {c : Clause}
    (hFound : p.function? name = some g) (hMem : c ∈ g.clauses) : (name, c) ∈ clausesOf p := by
  obtain ⟨entry, hEntry, rfl⟩ : ∃ entry ∈ p.functions.sorted, entry.2 = g := by
    refine ⟨(name, g), ?_, rfl⟩
    exact List.mem_mergeSort.mpr (Dict.mem_of_get? hFound)
  refine List.mem_flatMap.mpr ⟨entry.2, List.mem_map.mpr ⟨entry, hEntry, rfl⟩, ?_⟩
  exact List.mem_map.mpr ⟨c, hMem, congrArg (·, c) (hNamed name entry.2 hFound)⟩

/-- **The checker gets at whatever the constructs of a program hold.** -/
theorem Construct.InProgram.visited (hNamed : p.Named) (h : InProgram p K) :
    ∀ e, K.Holds p e → K.Visited p e := by
  induction h with
  | top =>
      refine fun e => Holds.visited fun e hMem => ?_
      obtain ⟨before, rest, hStatements⟩ := List.append_of_mem hMem
      exact ⟨_, _, .statement hStatements, rfl⟩
  | clause hFound hMem =>
      refine fun e => Holds.visited (List.forall_mem_singleton.mpr ?_)
      obtain ⟨before, rest, hClauses⟩ := List.append_of_mem (mem_clausesOf hNamed hFound hMem)
      exact ⟨_, _, .clause hClauses, rfl⟩
  | block _ hHolds ih =>
      obtain ⟨f, hVisit⟩ := (ih _ hHolds).value nofun
      refine fun e => Holds.visited fun e hMem => ?_
      obtain ⟨before, rest, rfl⟩ := List.append_of_mem hMem
      exact ⟨_, _, .item hVisit, rfl⟩
  | lambda _ hHolds ih =>
      obtain ⟨f, hVisit⟩ := (ih _ hHolds).value nofun
      exact fun e => Holds.visited (List.forall_mem_singleton.mpr ⟨_, _, .body hVisit, rfl⟩)

/-! ## What is reported -/

/-- The checker adds no more where it says that names are unbound than it should. -/
theorem Check.Site.check_adds {name : String} (h : site.expr = .var name)
    (context : Option Context) (f : Findings) :
    Adds (fun x => x = name ∧ Unknown p f name) f (site.check p context f).2 := by
  cases site with
  | value e =>
      obtain rfl : e = .var name := h
      exact (nameType_adds name f).2
  | callee other arguments =>
      obtain rfl : other = name := Expr.var.inj h
      exact (calleeType_adds other arguments f).2

/-- A name is reported as unbound where the checker looks at it. -/
def ReportedAt (p : Program) (K : Construct) (site : Site) (f : Findings) (name : String) : Prop :=
  site.expr = .var name ∧ Visits p K site f ∧ Reports name f (site.check p K.context f).2

/-- **What is reported as unbound is unknown** to the checker. -/
theorem ReportedAt.unknown {name : String} (h : ReportedAt p K site f name) :
    Unknown p f name :=
  ((Site.check_adds h.1 K.context f).of_reports h.2.2).2

/-- A name is reported as unbound somewhere. -/
def Reported (p : Program) (name : String) : Prop := ∃ K site f, ReportedAt p K site f name

theorem adds_site {name : String} (hName : site.expr = .var name) (h : Visits p K site f) :
    Adds (Reported p) f (site.check p K.context f).2 := by
  refine (Site.check_adds hName K.context f).reports.mono fun x hReports => ?_
  obtain ⟨⟨rfl, -⟩, hReports⟩ := hReports
  exact ⟨K, site, f, hName, h, hReports⟩

/-- **What is added while an expression is checked** is reported at a visit, where it says
that a name is unbound. -/
theorem adds_expr (e : Expr) {K : Construct} {f : Findings} (h : Visits p K (.value e) f) :
    Adds (Reported p) f (exprType p K.context e f).2 := by
  cases e with
  | lit value => exact .refl f
  | var name => exact adds_site rfl h
  | cond test yes no =>
      rw [exprType_cond]
      refine .bind (.bind (adds_expr test (.test h)) (testResult_judges _).adds) ?_
      exact .bind (adds_expr yes (.yes h)) (.bind (adds_expr no (.no h)) (.refl _))
  | block body cast =>
      rw [exprType_block]
      refine .bind (.refl f) (.bind (.inScope ?_) (blockResult_judges cast _).adds)
      rw [lastType_state]
      refine adds_after fun before e rest hBody => ?_
      have hMem : e ∈ body := by simp [hBody]
      subst hBody
      exact adds_expr e (K := K.block (before ++ e :: rest) cast) (.item h)
  | set name ty value claims =>
      rw [exprType_set]
      refine .bind (.of_same rfl) (.bind ?_ (setResult_adds name ty _ _))
      exact adds_expr value (.set h)
  | lambda params ret body =>
      rw [exprType_lambda]
      refine .bind (.refl f) (.bind (.inScope ?_) (lambdaResult_judges params ret _).adds)
      exact adds_expr body (K := K.lambda (Clause.ofLambda params ret body)) (.body h)
  | conj operands =>
      refine operandsType_adds "and" fun before e rest hOperands => ?_
      have hMem : e ∈ operands := by simp [hOperands]
      subst hOperands
      exact adds_expr e (.conj h)
  | disj operands =>
      refine operandsType_adds "or" fun before e rest hOperands => ?_
      have hMem : e ∈ operands := by simp [hOperands]
      subst hOperands
      exact adds_expr e (.disj h)
  | call callee args =>
      have hArgs : Adds (Reported p) f (exprTypes p K.context args f).2 := by
        rw [exprTypes_state]
        refine adds_after fun before e rest hArgs => ?_
        have hMem : e ∈ args := by simp [hArgs]
        subst hArgs
        exact adds_expr e (.argument h)
      by_cases hName : ∃ name, callee = .var name
      · obtain ⟨name, rfl⟩ := hName
        rw [exprType_call_named]
        refine .bind hArgs ?_
        rw [exprTypes_state]
        exact adds_site rfl (.named h)
      · rw [exprType_call p K.context (not_exists.mp hName)]
        refine .bind hArgs (.bind ?_ (valueCallType_judges "lambda" _ _).adds)
        rw [exprTypes_state]
        exact adds_expr callee (.callee (not_exists.mp hName) h)
termination_by e

namespace Check

theorem visitAll_state (p : Program) : (visitAll p (start p)).2 = found p := by
  show (visitClauses p (lastType p none Ty.listAny p.statements (start p)).2.scope (clausesOf p)
    (lastType p none Ty.listAny p.statements (start p)).2).2 = found p
  rw [visitClauses_state, lastType_state]
  rfl

theorem clauseStep_grows (p : Program) (item : String × Clause) : Grows (clauseStep p item) :=
  visitClause_grows (afterTop p).scope item.1 item.2

theorem adds_found (p : Program) : Adds (Reported p) (start p) (found p) := by
  refine .trans (adds_after fun before e rest hItems => adds_expr e (.statement hItems))
    (adds_after fun before item rest hItems => ?_)
  obtain ⟨function, c⟩ := item
  refine .bind (.inScope ?_) (demandResult_judges function _ c.ret).adds
  exact adds_expr c.body (K := .clause function c) (.clause hItems)

end Check

/-- What the checker has found at a visit is among what it has found in the end. -/
theorem Visits.suffix_found (h : Visits p K site f) :
    (site.check p K.context f).2.diagnostics <:+ (found p).diagnostics := by
  induction h with
  | @statement before rest e hStatements =>
      refine .trans ?_ ((Grows.after (clauseStep_grows p) _).diagnostics (afterTop p)).suffix
      rw [afterTop, hStatements]
      exact suffix_after (exprType_grows p none) before e rest (start p)
  | @clause before rest function c hClauses =>
      refine .trans ?_ (hClauses ▸ suffix_after (clauseStep_grows p) before (function, c) rest _)
      exact suffix_bind (inScope (withParams (afterTop p).scope c.params) (exprType p _ c.body))
        (fun body => (demandResult_judges function body c.ret).grows) _
  | @item K f before rest e cast _ ih =>
      refine .trans ?_ ih
      rw [Site.check, Site.check, exprType_block]
      refine .trans ?_ (suffix_bind (inScope (withSetNames f.scope (before ++ e :: rest)) _)
        (fun last => (blockResult_judges cast last).grows) f)
      refine .trans (suffix_after (exprType_grows p K.context) before e rest _) ?_
      rw [← lastType_state p K.context _ Ty.listAny]
      exact List.suffix_refl _
  | @body K f params ret body _ ih =>
      refine .trans ?_ ih
      rw [Site.check, Site.check, exprType_lambda]
      exact suffix_bind (inScope (withParams f.scope params) (exprType p K.context body))
        (fun found => (lambdaResult_judges params ret found).grows) f
  | @test K f test yes no _ ih =>
      refine .trans ?_ ih
      rw [Site.check, Site.check, exprType_cond]
      refine .trans ?_ (suffix_bind (testType p K.context test) (fun _ =>
        .bind (exprType_grows p _ yes) fun _ => .bind (exprType_grows p _ no) fun _ => .pure _) f)
      exact suffix_bind (exprType p K.context test) (fun ty => (testResult_judges ty).grows) f
  | @yes K f test yes no _ ih =>
      refine .trans ?_ ih
      rw [Site.check, Site.check, exprType_cond]
      exact suffix_bind (exprType p K.context yes) (fun _ =>
        .bind (exprType_grows p _ no) fun _ => .pure _) _
  | @no K f test yes no _ ih =>
      refine .trans ?_ ih
      rw [Site.check, Site.check, exprType_cond]
      exact List.suffix_refl _
  | @set K f name ty value claims _ ih =>
      refine .trans ?_ ih
      rw [Site.check, Site.check, exprType_set]
      exact suffix_bind (exprType p K.context value) (setResult_grows name ty) _
  | @conj K f before rest e _ ih =>
      refine .trans ?_ ih
      exact suffix_operands K.context "and" before e rest f
  | @disj K f before rest e _ ih =>
      refine .trans ?_ ih
      exact suffix_operands K.context "or" before e rest f
  | @argument K f callee before rest e _ ih =>
      refine .trans ?_ ih
      refine .trans (suffix_after (exprType_grows p K.context) before e rest f) ?_
      rw [← exprTypes_state]
      exact suffix_call K.context callee _ f
  | @named K f name args _ ih =>
      refine .trans ?_ ih
      rw [Site.check, Site.check, exprType_call_named, ← exprTypes_state]
      exact List.suffix_refl _
  | @callee K f callee args hName _ ih =>
      refine .trans ?_ ih
      rw [Site.check, Site.check, exprType_call p K.context hName, ← exprTypes_state]
      exact suffix_bind (exprType p K.context callee) (fun ty =>
        (valueCallType_judges "lambda" ty (exprTypes p K.context args f).1).grows) _

/-- **A name is reported as unbound at some visit if and only if a diagnostic of the
program says so.** -/
theorem reported_iff (p : Program) (name : String) :
    Reported p name ↔ ∃ d ∈ p.check, d.SaysUnbound name := by
  obtain ⟨added, hAdded, hNames⟩ := adds_found p
  have hCheck : p.check = (found p).diagnostics.reverse := by
    rw [← visitAll_state]
    rfl
  rw [hCheck]
  simp only [List.mem_reverse]
  constructor
  · rintro ⟨K, site, f, -, hVisit, reported, hReported, d, hd, hSays⟩
    refine ⟨d, hVisit.suffix_found.subset ?_, hSays⟩
    rw [hReported]
    exact List.mem_append_left _ hd
  · rintro ⟨d, hd, hSays⟩
    rw [hAdded] at hd
    exact hNames d (by simpa [start] using hd) name hSays

end

end ClauseLisp
