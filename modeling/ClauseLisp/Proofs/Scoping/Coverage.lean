import ClauseLisp.Proofs.Resources.Session
import ClauseLisp.Proofs.Scoping.Visits
import ClauseLisp.Proofs.Watch.Session

/-!
# The scopes of the checker cover those of a run

The checker copies its scope for every construct that has one, and extends the copy as it
walks on.  A run shares scopes: a closure refers to the scope that it was made in, and
sees what is bound there later.  What makes the two agree is the code itself: every scope
of a run is made for a construct of the program, inside the scope of the construct around
it, and only names that can be read off the construct are bound there.

So the record of a run is the list of the constructs that its scopes were made for.  The
checker knows all names of a construct wherever it gets in it, and hence what it does not
know is not bound in a run either.

## Main results

* `Layout.names_of_mem_chain` — names that are bound, seen from a scope, are names of its
  construct.
* `Guide.covering` — what makes every step of a run find its names covered.
* `Session.static_scopes_cover` — the scopes of the checker cover those of a run.
-/

namespace ClauseLisp

open Check (Covers Unknown Site)

/-! ## Programs and their memo tables -/

/-- Programs that differ at most in the results that functions keep. -/
structure Program.SameCode (p p' : Program) : Prop where
  types : p'.types = p.types
  statements : p'.statements = p.statements
  clauses : ∀ name,
    (p'.function? name).map Function.clauses = (p.function? name).map Function.clauses

namespace Program.SameCode

variable {p p' : Program}

theorem refl (p : Program) : p.SameCode p := ⟨rfl, rfl, fun _ => rfl⟩

theorem remember (h : p.SameCode p') (function key : String) (value : Value) :
    p.SameCode (p'.remember function key value) := by
  refine ⟨h.types, h.statements, fun name => ?_⟩
  rw [function?_remember, ← h.clauses name]
  split
  · rw [Option.map_map]
    rfl
  · rfl

theorem rememberAll (value : Value) :
    ∀ (slots : List Awaited) {p' : Program}, p.SameCode p' →
      p.SameCode (slots.foldl (fun p slot => p.remember slot.function slot.key value) p') := by
  intro slots
  induction slots with
  | nil => exact id
  | cons slot slots ih => exact fun h => ih (h.remember slot.function slot.key value)

/-- The clauses of a function are those that it was loaded with. -/
theorem function? (h : p.SameCode p') {name : String} {f : Function}
    (hFound : p'.function? name = some f) :
    ∃ g, p.function? name = some g ∧ g.clauses = f.clauses := by
  have hClauses := h.clauses name
  rw [hFound] at hClauses
  exact Option.map_eq_some_iff.mp hClauses.symm

end Program.SameCode

/-! ## What is seen of scopes -/

namespace Scopes

theorem size_seen (ss : Scopes Nat) : ss.seen.size = ss.table.size := Array.size_map

theorem size_seen_put (ss : Scopes Nat) (scope : Nat) (name : String) (value : Value) :
    (ss.put scope name value).seen.size = ss.seen.size := by
  rw [size_seen, size_seen, put, Array.size_modify]

/-- What is seen after a name has been bound. -/
theorem seen_put (ss : Scopes Nat) (scope : Nat) (name : String) (value : Value) (n : Nat) :
    (ss.put scope name value).seen[n]? =
      if scope = n then ss.seen[n]?.map fun own => (own.1.insert name value, own.2)
      else ss.seen[n]? := by
  rw [seen, seen, Array.getElem?_map, Array.getElem?_map, put, Array.getElem?_modify]
  split
  · rw [Option.map_map, Option.map_map]
    rfl
  · rfl

theorem seen_entered (s : State) (parent : Nat) (vars : Dict Value) :
    (s.entered parent vars).scopes.seen = s.scopes.seen.push (vars, some parent) := by
  rw [seen, State.entered, Array.map_push]
  rfl

end Scopes

/-! ## Layouts -/

/-- The constructs that the scopes of a state were made for. -/
abbrev Layout := List Construct

/-- The construct that a scope is made for. -/
def Maker.construct? (layout : Layout) : Maker → Option Construct
  | .block scope body cast => layout[scope]?.map fun outer => .block outer body cast
  | .closure called => layout[called.scope]?.map fun outer => .lambda outer called.clause
  | .clause function chosen => some (.clause function chosen)

namespace Layout

variable {p : Program} {r r' : Layout}

/-- There are more scopes. -/
def le (r r' : Layout) : Prop := ∀ (n : Nat) (K : Construct), r[n]? = some K → r'[n]? = some K

theorem le_append (r : Layout) (K : Construct) : r.le (r ++ [K]) := by
  intro n L hL
  obtain ⟨hBound, -⟩ := List.getElem?_eq_some_iff.mp hL
  rw [List.getElem?_append_left hBound, hL]

/-- An expression that belongs to the construct of a scope, which is one of the program. -/
def Home (p : Program) (r : Layout) (e : Expr) (scope : Nat) : Prop :=
  ∃ K : Construct, r[scope]? = some K ∧ K.InProgram p ∧ K.Holds p e

/-- A name that may be bound in the construct of a scope. -/
def Binds (p : Program) (r : Layout) (scope : Nat) (name : String) : Prop :=
  ∃ K : Construct, r[scope]? = some K ∧ name ∈ K.ownNames p

/-- A scope for this is one for a construct of the program, inside the scope of the construct
around it. -/
def Makes (p : Program) (r : Layout) (maker : Maker) : Prop :=
  ∃ K outer, maker.construct? r = some K ∧ K.InProgram p ∧ K.outer? = some outer ∧
    r[maker.parent]? = some outer

/-- One scope and its construct: only names of the construct are bound, and the scope around
it is that of the construct around it. -/
structure Fits (p : Program) (r : Layout) (K : Construct) (vars : Dict Value)
    (parent : Option Nat) : Prop where
  names : ∀ name, vars.contains name = true → name ∈ K.ownNames p
  parent : ∀ n, parent = some n → ∃ outer, K.outer? = some outer ∧ r[n]? = some outer

/-- A state whose scopes were made for these constructs, and whose lambdas are in them. -/
structure Valid (p : Program) (r : Layout) (s : State) : Prop where
  program : p.SameCode s.program
  hosts : s.hosts = {}
  size : s.scopes.seen.size = r.length
  top : r[Scopes.globals]? = some .top
  scopes : ∀ (n : Nat) vars parent, s.scopes.seen[n]? = some (vars, parent) →
    ∃ K, r[n]? = some K ∧ Fits p r K vars parent
  closures : ∀ (id : Nat) (closure : Closure), s.closures[id]? = some closure → ∃ params ret body,
    closure.clause = Clause.ofLambda params ret body ∧
      Home p r (.lambda params ret body) closure.scope

theorem Home.mono {e : Expr} {scope : Nat} (h : Home p r e scope) (hLe : r.le r') :
    Home p r' e scope := by
  obtain ⟨K, hK, hHolds⟩ := h
  exact ⟨K, hLe scope K hK, hHolds⟩

theorem Home.part {e part : Expr} {scope : Nat} (h : Home p r e scope) (hMem : part ∈ e.parts) :
    Home p r part scope := by
  obtain ⟨K, hK, hProgram, hHolds⟩ := h
  exact ⟨K, hK, hProgram, hHolds.part hMem⟩

theorem Home.binds {name : String} {ty : Option Ty} {value : Expr} {claims : Bool} {scope : Nat}
    (hPlaced : p.Placed) (h : Home p r (.set name ty value claims) scope) :
    Binds p r scope name := by
  obtain ⟨K, hK, hProgram, hHolds⟩ := h
  exact ⟨K, hK, hProgram.set_mem hPlaced hHolds⟩

theorem Home.makes {body : List Expr} {cast : Option Ty} {scope : Nat}
    (h : Home p r (.block body cast) scope) : Makes p r (.block scope body cast) := by
  obtain ⟨K, hK, hProgram, hHolds⟩ := h
  exact ⟨.block K body cast, K, Option.map_eq_some_iff.mpr ⟨K, hK, rfl⟩,
    .block hProgram hHolds, rfl, hK⟩

theorem Binds.mono {name : String} {scope : Nat} (h : Binds p r scope name) (hLe : r.le r') :
    Binds p r' scope name := by
  obtain ⟨K, hK, hName⟩ := h
  exact ⟨K, hLe scope K hK, hName⟩

theorem construct?_mono {maker : Maker} {K : Construct} (hLe : r.le r')
    (h : maker.construct? r = some K) : maker.construct? r' = some K := by
  cases maker with
  | block scope body cast =>
      obtain ⟨outer, hOuter, rfl⟩ := Option.map_eq_some_iff.mp h
      exact Option.map_eq_some_iff.mpr ⟨outer, hLe scope outer hOuter, rfl⟩
  | closure called =>
      obtain ⟨outer, hOuter, rfl⟩ := Option.map_eq_some_iff.mp h
      exact Option.map_eq_some_iff.mpr ⟨outer, hLe called.scope outer hOuter, rfl⟩
  | clause function chosen => exact h

theorem Makes.mono {maker : Maker} (h : Makes p r maker) (hLe : r.le r') : Makes p r' maker := by
  obtain ⟨K, outer, hK, hProgram, hOuter, hParent⟩ := h
  exact ⟨K, outer, construct?_mono hLe hK, hProgram, hOuter, hLe maker.parent outer hParent⟩

theorem Fits.mono {K : Construct} {vars : Dict Value} {parent : Option Nat}
    (h : Fits p r K vars parent) (hLe : r.le r') : Fits p r' K vars parent := by
  refine ⟨h.names, fun n hn => ?_⟩
  obtain ⟨outer, hOuter, hParent⟩ := h.parent n hn
  exact ⟨outer, hOuter, hLe n outer hParent⟩

/-! ## What scopes are made for -/

/-- The parameters that are bound first are names of the construct. -/
theorem mem_ownNames_of_param {maker : Maker} {K : Construct} (h : maker.construct? r = some K)
    {q : Pattern} (hMem : q ∈ maker.params) {name : String} (hName : q.name? = some name) :
    name ∈ K.ownNames p := by
  cases maker with
  | block scope body cast => cases hMem
  | closure called =>
      obtain ⟨outer, hOuter, rfl⟩ := Option.map_eq_some_iff.mp h
      exact List.mem_filterMap.mpr ⟨q, hMem, hName⟩
  | clause function chosen =>
      cases h
      exact List.mem_filterMap.mpr ⟨q, hMem, hName⟩

/-- What is evaluated in a scope is the code of its construct. -/
theorem holds_of_body {maker : Maker} {K : Construct} (h : maker.construct? r = some K)
    {e : Expr} (hMem : e ∈ maker.body) : K.Holds p e := by
  cases maker with
  | block scope body cast =>
      obtain ⟨outer, hOuter, rfl⟩ := Option.map_eq_some_iff.mp h
      exact .code hMem
  | closure called =>
      obtain ⟨outer, hOuter, rfl⟩ := Option.map_eq_some_iff.mp h
      exact .code hMem
  | clause function chosen =>
      cases h
      exact .code hMem

namespace Valid

variable {s s' : State} (h : Valid p r s)

include h

theorem makes_closure {id : Nat} {closure : Closure} (hClosure : s.closures[id]? = some closure) :
    Makes p r (.closure closure) := by
  obtain ⟨params, ret, body, hClause, K, hK, hProgram, hHolds⟩ := h.closures id closure hClosure
  refine ⟨.lambda K closure.clause, K, Option.map_eq_some_iff.mpr ⟨K, hK, rfl⟩, ?_, rfl, hK⟩
  rw [hClause]
  exact .lambda hProgram hHolds

theorem makes_clause {name : String} {f : Function} {clause : Clause}
    (hFound : s.program.function? name = some f) (hMem : clause ∈ f.clauses) :
    Makes p r (.clause name clause) := by
  obtain ⟨g, hFound, hClauses⟩ := h.program.function? hFound
  exact ⟨.clause name clause, .top, rfl, .clause hFound (hClauses ▸ hMem), rfl, h.top⟩

/-! ## Moves -/

theorem quiet (hQuiet : s.Quiet s') : Valid p r s' where
  program := hQuiet.program ▸ h.program
  hosts := hQuiet.hosts.trans h.hosts
  size := hQuiet.scopes ▸ h.size
  top := h.top
  scopes := hQuiet.scopes ▸ h.scopes
  closures := hQuiet.closures ▸ h.closures

theorem kept (value : Value) (slots : List Awaited) :
    Valid p r { s with
      program := slots.foldl (fun p slot => p.remember slot.function slot.key value) s.program } :=
  { h with program := h.program.rememberAll value slots }

theorem closed {params : List Pattern} {ret : Option Ty} {body : Expr} {scope : Nat}
    (hHome : Home p r (.lambda params ret body) scope) :
    Valid p r { s with closures := s.closures.push ⟨Clause.ofLambda params ret body, scope⟩ } := by
  refine { h with closures := fun id closure hClosure => ?_ }
  rw [Array.getElem?_push] at hClosure
  split at hClosure
  · cases hClosure
    exact ⟨params, ret, body, rfl, hHome⟩
  · exact h.closures id closure hClosure

theorem bound {scope : Nat} {name : String} (value : Value) (hBinds : Binds p r scope name) :
    Valid p r { s with scopes := s.scopes.put scope name value } := by
  refine { h with size := ?_, scopes := fun n vars parent hSeen => ?_ }
  · rw [← h.size, Scopes.size_seen_put]
  · rw [Scopes.seen_put] at hSeen
    split at hSeen
    · rename_i hScope
      subst hScope
      obtain ⟨⟨vars, parent⟩, hBefore, hAfter⟩ := Option.map_eq_some_iff.mp hSeen
      cases hAfter
      obtain ⟨K, hK, hNames, hParent⟩ := h.scopes scope vars parent hBefore
      obtain ⟨L, hL, hName⟩ := hBinds
      obtain rfl : K = L := Option.some.inj (hK.symm.trans hL)
      refine ⟨K, hK, fun other hOther => ?_, hParent⟩
      rw [Dict.contains, Dict.get?_insert] at hOther
      split at hOther
      · rename_i hSame
        exact hSame ▸ hName
      · exact hNames other hOther
    · exact h.scopes n vars parent hSeen

theorem entered {maker : Maker} {K outer : Construct} (hOuter : K.outer? = some outer)
    (hParent : r[maker.parent]? = some outer) :
    Valid p (r ++ [K]) (s.entered maker.parent {}) := by
  have hLe := r.le_append K
  constructor
  · exact h.program
  · exact h.hosts
  · rw [Scopes.seen_entered, Array.size_push, h.size, List.length_append]
    rfl
  · exact hLe _ _ h.top
  · intro n vars parent hSeen
    rw [Scopes.seen_entered, Array.getElem?_push] at hSeen
    split at hSeen
    · rename_i hSize
      cases hSeen
      refine ⟨K, ?_, fun _ hName => absurd hName Bool.false_ne_true, ?_⟩
      · rw [hSize, h.size]
        exact List.getElem?_concat_length
      · rintro _ ⟨⟩
        exact ⟨outer, hOuter, hLe _ _ hParent⟩
    · obtain ⟨L, hL, hFits⟩ := h.scopes n vars parent hSeen
      exact ⟨L, hLe n L hL, hFits.mono hLe⟩
  · intro id closure hClosure
    obtain ⟨params, ret, body, hClause, hHome⟩ := h.closures id closure hClosure
    exact ⟨params, ret, body, hClause, hHome.mono hLe⟩

end Valid

/-- **Names that are bound, seen from a scope, are names of its construct.** -/
theorem names_of_mem_chain {s : State} (h : Valid p r s) {n : Nat} {K : Construct}
    (hK : r[n]? = some K) {scope : Scope Nat} (hMem : scope ∈ s.scopes.chain n) {name : String}
    (hName : scope.vars.contains name = true) : name ∈ K.names p := by
  have hWithin : ∀ (steps n : Nat) (K : Construct), r[n]? = some K →
      scope ∈ s.scopes.chainWithin steps n → name ∈ K.names p := by
    intro steps
    induction steps with
    | zero => exact fun _ _ _ hMem => nomatch hMem
    | succ steps ih =>
        intro n K hK hMem
        rw [Scopes.chainWithin] at hMem
        split at hMem
        · cases hMem
        · rename_i found hFound
          have hSeen : s.scopes.seen[n]? = some (found.vars, found.parent) := by
            rw [Scopes.seen, Array.getElem?_map, hFound]
            rfl
          obtain ⟨L, hL, hNames, hParent⟩ := h.scopes n _ _ hSeen
          obtain rfl : K = L := Option.some.inj (hK.symm.trans hL)
          split at hMem
          · obtain rfl := List.mem_singleton.mp hMem
            exact K.ownNames_subset_names p (hNames name hName)
          · rename_i parent hSome
            rcases List.mem_cons.mp hMem with rfl | hMem
            · exact K.ownNames_subset_names p (hNames name hName)
            · obtain ⟨outer, hOuter, hOuterAt⟩ := hParent parent hSome
              exact Construct.names_outer_subset p hOuter (ih parent outer hOuterAt hMem)
  exact hWithin (n + 1) n K hK hMem

end Layout

/-! ## Watching scopes -/

/-- What is known where a run evaluates an expression in a scope of a construct: it belongs
to the construct, and the checker has got at it; wherever it has, all names that are bound,
seen from the scope, are in the scope of the checker; and a name that has been reported as
unbound there is not found. -/
structure Covered (p : Program) (K : Construct) (task : Task) (s : State) : Prop where
  inProgram : K.InProgram p
  holds : K.Holds p task.expr
  visited : K.Visited p task.expr
  names : ∀ (site : Site) (f : Check.Findings), Visits p K site f → site.expr = task.expr →
    ∀ scope ∈ s.scopes.chain task.scope, ∀ name, scope.vars.contains name = true →
      f.scope.contains name = true
  unbound : ∀ (site : Site) (f : Check.Findings) (name : String),
    ReportedAt p K site f name → site.expr = task.expr →
      ∀ eval call fuel, step eval call fuel task s = (.error (.error (.unbound name)), s)

/-- A watch that expressions are covered wherever they are evaluated, and that scopes are
made for their constructs. -/
def Watch.covering (alarm : Stop) (p : Program) (layout : Layout) : Watch where
  alarm := alarm
  step task s := ∃ K, layout[task.scope]? = some K ∧ Covered p K task s
  lookup _ _ _ := True
  enter maker s := ∃ K, maker.construct? layout = some K ∧
    layout[s.scopes.table.size]? = some K

namespace Layout

variable {p : Program} {r : Layout} {s : State}

/-- What is unknown to the checker and not bound is not found. -/
theorem Valid.resolve_unbound (h : Valid p r s) {n : Nat} {name : String} {f : Check.Findings}
    (hUnknown : Unknown p f name)
    (hNames : ∀ scope ∈ s.scopes.chain n, ∀ name, scope.vars.contains name = true →
      f.scope.contains name = true) :
    resolve name n s = (.error (.error (.unbound name)), s) := by
  have hNone : s.scopes.get? n name = none := by
    refine List.findSome?_eq_none_iff.mpr fun scope hScope => ?_
    refine Option.not_isSome_iff_eq_none.mp fun hSome => ?_
    exact nomatch hUnknown.scope.symm.trans (hNames scope hScope name hSome)
  have hFunction : s.program.functions.contains name = false := by
    have hClauses := h.program.clauses name
    rw [hUnknown.function, Option.map_none, Option.map_eq_none_iff] at hClauses
    exact congrArg Option.isSome hClauses
  have hType : s.program.types.isDeclared name = false := by
    rw [h.program.types]
    exact congrArg Option.isSome hUnknown.type
  have hCallable : s.isCallable name = false := by
    rw [State.isCallable, hFunction, hType, h.hosts, hUnknown.builtin]
    rfl
  simp only [resolve, Run.get_bind_apply, hNone, hCallable]
  rfl

/-- **Every step of a run finds its names covered.** -/
theorem Valid.covered (hNamed : p.Named) (h : Valid p r s) {task : Task}
    (hHome : Home p r task.expr task.scope) :
    ∃ K, r[task.scope]? = some K ∧ Covered p K task s := by
  obtain ⟨K, hK, hProgram, hHolds⟩ := hHome
  have hNames : ∀ (site : Site) (f : Check.Findings), Visits p K site f →
      ∀ scope ∈ s.scopes.chain task.scope, ∀ name, scope.vars.contains name = true →
        f.scope.contains name = true := fun site f hVisit scope hScope name hName =>
    hVisit.names name (names_of_mem_chain h hK hScope hName)
  refine ⟨K, hK, hProgram, hHolds, hProgram.visited hNamed _ hHolds,
    fun site f hVisit _ => hNames site f hVisit,
    fun site f name hReported hExpr eval call fuel => ?_⟩
  have hResolve := h.resolve_unbound hReported.unknown (hNames site f hReported.2.1)
  obtain ⟨e, scope, function, pending⟩ := task
  obtain rfl : e = .var name := hExpr.symm.trans hReported.1
  show (resolve name scope >>= fun value => pure (Progress.done value)) s = _
  rw [Run.bind_apply, hResolve]

end Layout

/-- What makes every step of a run find its names covered. -/
def Guide.covering (p : Program) (hPlaced : p.Placed) (hNamed : p.Named) : Guide where
  Record := Layout
  le := Layout.le
  le_refl _ _ _ h := h
  le_trans h h' n K hK := h' n K (h n K hK)
  Valid := Layout.Valid p
  Sees r w := ∃ alarm layout, w = .covering alarm p layout ∧ r.le layout
  Home := Layout.Home p
  Binds := Layout.Binds p
  Awaits _ _ := True
  Makes := Layout.Makes p
  sees_mono hLe h := by
    obtain ⟨alarm, layout, rfl, hLayout⟩ := h
    exact ⟨alarm, layout, rfl, fun n K hK => hLayout n K (hLe n K hK)⟩
  home_mono hLe h := h.mono hLe
  binds_mono hLe h := h.mono hLe
  awaits_mono _ h := h
  makes_mono hLe h := h.mono hLe
  home_part h := h.part
  binds_set h := h.binds hPlaced
  makes_block h := h.makes
  makes_closure h := h.makes_closure
  makes_clause h := h.makes_clause
  awaits_lookup _ _ := trivial
  quiet h := h.quiet
  bound value h := h.bound value
  closed h := h.closed
  kept value h _ := h.kept value _
  entered {r s maker} h hMakes := by
    obtain ⟨K, outer, hK, hProgram, hOuter, hParent⟩ := hMakes
    have hNew : (r ++ [K])[s.scopes.table.size]? = some K := by
      rw [← Scopes.size_seen, h.size]
      exact List.getElem?_concat_length
    refine ⟨r ++ [K], r.le_append K, h.entered hOuter hParent, ?_, ?_, ?_⟩
    · rintro w ⟨alarm, layout, rfl, hLe⟩
      have hGrown := Layout.construct?_mono (r.le_append K) hK
      exact ⟨K, Layout.construct?_mono hLe hGrown, hLe _ K hNew⟩
    · exact fun q hq name hName => ⟨K, hNew, Layout.mem_ownNames_of_param hK hq hName⟩
    · exact fun e he => ⟨K, hNew, hProgram, Layout.holds_of_body hK he⟩
  step h hHome _ hSees := by
    obtain ⟨alarm, layout, rfl, hLe⟩ := hSees
    obtain ⟨K, hK, hCovered⟩ := h.covered hNamed hHome
    exact ⟨K, hLe _ K hK, hCovered⟩
  lookup _ hSees := by
    obtain ⟨alarm, layout, rfl, -⟩ := hSees
    trivial

/-! ## Runs -/

theorem Program.Loaded.named {p : Program} (h : p.Loaded) : p.Named := by
  induction h with
  | empty => exact nofun
  | @more p load fuel source _ ih =>
      intro name f hFound
      rcases (absorb_adds load fuel source p).grows.functions name f hFound with hBefore | hNew
      · exact ih name f hBefore
      · exact hNew.1

namespace Session

/-- When a run begins there is one scope, and nothing is bound in it. -/
theorem start_valid (p : Program) (files : Files) :
    Layout.Valid p [.top] { start p with files } where
  program := .refl p
  hosts := rfl
  size := Scopes.size_seen _
  top := rfl
  scopes n vars parent hSeen := by
    have hRoot : (Scopes.root : Scopes Nat).seen = #[({}, none)] := by
      rw [Scopes.seen, Scopes.root, List.map_toArray]
      rfl
    have hSeen : (Scopes.root : Scopes Nat).seen[n]? = some (vars, parent) := hSeen
    rw [hRoot] at hSeen
    cases n with
    | zero =>
        cases hSeen
        refine ⟨.top, rfl, fun _ hName => absurd hName Bool.false_ne_true, fun _ hParent => ?_⟩
        cases hParent
    | succ n => cases hSeen
  closures id closure hClosure := by cases hClosure

/-- **The scopes of the checker cover those of a run.**

For every program that has been loaded, and every run of it without operations of a host,
there is a layout of its scopes: each is made for a construct of the program, inside the
scope of the construct around it.  At every step of the run the expression is one that the
checker has got at in the construct of the scope, and whatever is bound, seen from there,
was in the scope of the checker; a name that was reported as unbound there is not found.

Names are reported as unbound at visits only, and whatever is reported is a diagnostic of
the program. -/
theorem static_scopes_cover {p : Program} (h : p.Loaded) (files : Files) (fuel : Nat) :
    (∃ layout : Layout, layout[Scopes.globals]? = some .top ∧
      ∀ alarm, (Watch.covering alarm p layout).run fuel { start p with files } =
        run fuel { start p with files }) ∧
    ∀ name, (∃ d ∈ p.check, d.SaysUnbound name) ↔ Reported p name := by
  refine ⟨?_, fun name => (reported_iff p name).symm⟩
  let γ : Guide := .covering p h.placed h.named
  have hFollows : γ.Follows [.top] (run fuel) fun w => w.run fuel := by
    refine γ.run_follows fuel fun s hValid e he => ?_
    rw [hValid.program.statements] at he
    exact ⟨.top, rfl, .top, .code he⟩
  obtain ⟨layout, hLe, -, hSame⟩ := hFollows _ (start_valid p files)
  exact ⟨layout, hLe _ _ rfl, fun alarm => hSame _ ⟨alarm, layout, rfl, fun _ _ => id⟩⟩

/-- A program in which a lambda is made before a name that it uses is set, and uses another
one that nothing sets. -/
def haunted : Program :=
  (Program.absorb (Loader.ofTable {}) 5
    "(set f (lambda (x) (list later x ghost))) (set later 1) (f 2)" {}).2

/-- The checker reports the one name and not the other, and the run stops where it evaluates
it. -/
theorem static_scopes_cover_of_haunted :
    haunted.check = [.unbound "ghost"] ∧ Reported haunted "ghost" ∧
      ¬ Reported haunted "later" ∧
      (run 40 (start haunted)).1 = .error (.error (.inCall "lambda" (.unbound "ghost"))) ∧
      ∃ layout : Layout, layout[Scopes.globals]? = some .top ∧
        ∀ alarm, (Watch.covering alarm haunted layout).run 40 (start haunted) =
          run 40 (start haunted) := by
  have hCheck : haunted.check = [.unbound "ghost"] := by cbv
  have hRun : (run 40 (start haunted)).1 =
      .error (.error (.inCall "lambda" (.unbound "ghost"))) := by cbv
  have hLoaded : haunted.Loaded := .more (Loader.ofTable {}) 5 _ .empty
  generalize haunted = p at *
  obtain ⟨hCover, hReports⟩ := static_scopes_cover hLoaded default 40
  have hGhost : Error.unbound "ghost" ∈ p.check := hCheck ▸ List.mem_singleton_self _
  refine ⟨hCheck, (hReports "ghost").mp ⟨_, hGhost, rfl⟩, fun hLater => ?_, hRun, hCover⟩
  obtain ⟨d, hd, hSays⟩ := (hReports "later").mpr hLater
  obtain rfl : d = .unbound "ghost" := List.mem_singleton.mp (hCheck ▸ hd)
  exact absurd (show "ghost" = "later" from hSays) (by decide)

end Session

end ClauseLisp
