import ClauseLisp.Proofs.Loading.Failure
import ClauseLisp.Proofs.Resources.Session
import ClauseLisp.Proofs.Types.Stability

/-!
# Programs are well formed

A program comes about by loads, of which any may fail midway.  Whatever was added
before the fault stays, and is evaluated and checked with the types of later loads.
So what lowering guarantees has to be true of every part by itself, and to outlast
declarations: types in code are resolved, and stay so since a name that is taken
keeps its meaning.

## Main results

* `Form.Lowered.wellFormed` — what forms are lowered to is well formed.
* `Expr.WellFormed.declares` — it stays well formed when more is declared.
* `Program.Loaded.wellFormed_throughout` — every program is well formed.
-/

namespace ClauseLisp

open Ty (Registry)

/-- A type that resolves to itself: its names are known, and its variables are marked
as such. -/
def Ty.Registry.Fixes (r : Registry) (t : Ty) : Prop := r.resolve t = .ok t

/-- The parameters and the result of a clause or lambda: declared types are resolved,
and no name is bound twice. -/
structure Clause.WellHeaded (r : Registry) (params : List Pattern) (ret : Option Ty) : Prop where
  types : ∀ p ∈ params, ∀ t, p.type? = some t → r.Fixes t
  result : ∀ t, ret = some t → r.Fixes t
  names : (params.filterMap Pattern.name?).Nodup

/-- Expressions all parts of which are well formed; `allowSet` says whether the
expression stands directly inside a block or at top level. -/
inductive Expr.WellFormed (r : Registry) : Bool → Expr → Prop
  | lit {allowSet : Bool} (value : Value) : WellFormed r allowSet (.lit value)
  | var {allowSet : Bool} (name : String) : WellFormed r allowSet (.var name)
  | cond {allowSet : Bool} {test yes no : Expr} :
      WellFormed r false test → WellFormed r false yes → WellFormed r false no →
      WellFormed r allowSet (.cond test yes no)
  | block {allowSet : Bool} {body : List Expr} {cast : Option Ty} :
      (∀ t, cast = some t → r.Fixes t) → body ≠ [] → (∀ e ∈ body, WellFormed r true e) →
      WellFormed r allowSet (.block body cast)
  | set (name : String) {ty : Option Ty} {value : Expr} (claims : Bool) :
      (∀ t, ty = some t → r.Fixes t) → WellFormed r false value →
      WellFormed r true (.set name ty value claims)
  | lambda {allowSet : Bool} {params : List Pattern} {ret : Option Ty} {body : Expr} :
      Clause.WellHeaded r params ret → WellFormed r false body →
      (Clause.ofLambda params ret body).memoize = false →
      (Clause.ofLambda params ret body).pure = false →
      WellFormed r allowSet (.lambda params ret body)
  | call {allowSet : Bool} {callee : Expr} {args : List Expr} :
      WellFormed r false callee → (∀ e ∈ args, WellFormed r false e) →
      WellFormed r allowSet (.call callee args)
  | conj {allowSet : Bool} {operands : List Expr} :
      operands ≠ [] → (∀ e ∈ operands, WellFormed r false e) →
      WellFormed r allowSet (.conj operands)
  | disj {allowSet : Bool} {operands : List Expr} :
      operands ≠ [] → (∀ e ∈ operands, WellFormed r false e) →
      WellFormed r allowSet (.disj operands)

/-- A clause all parts of which are well formed. -/
structure Clause.WellFormed (r : Registry) (c : Clause) : Prop where
  head : Clause.WellHeaded r c.params c.ret
  body : Expr.WellFormed r false c.body
  pure : c.memoize = true → c.pure = true

/-- A program all parts of which are well formed with the types that it has now. -/
structure Program.WellFormed (p : Program) : Prop where
  apart : ∀ name, p.functions.contains name = true → p.types.isDeclared name = false
  functions : ∀ name f, p.functions.get? name = some f →
    f.clauses ≠ [] ∧ ∀ c ∈ f.clauses, Clause.WellFormed p.types c
  statements : ∀ e ∈ p.statements, Expr.WellFormed p.types true e

/-! ## Lowering -/

namespace Form

variable {r : Registry}

theorem fixes_of_resolve {written t : Ty} (h : r.resolve written = .ok t) : r.Fixes t :=
  Registry.resolve_resolved h

theorem fixes_of_resolves {ty : Option Ty} (h : r.Resolves ty) : ∀ t, ty = some t → r.Fixes t := by
  obtain ⟨written, hWritten⟩ := h
  rintro t rfl
  cases written with
  | none => cases hWritten
  | some written =>
      rw [Registry.resolve?] at hWritten
      split at hWritten
      · rename_i hResolve
        cases hWritten
        exact fixes_of_resolve hResolve
      · cases hWritten

theorem fixes_of_pattern {keyword : String} {form param : Form} {p : Pattern}
    (h : pattern r keyword form param = .ok p) : ∀ t, p.type? = some t → r.Fixes t := by
  intro t hType
  unfold pattern at h
  split at h
  · cases h
    cases hType
  · cases h
    cases hType
  · cases h
    cases hType
  · cases h
    cases hType
  · cases h
    cases hType
  · split at h
    · rename_i hResolve
      cases h
      cases hType
      exact fixes_of_resolve hResolve
    · cases h
  · cases h

/-- A parameter list declares resolved types only, and binds no name twice. -/
theorem wellHeaded_patternsAfter {keyword : String} {form : Form} :
    ∀ {params : List Form} {done patterns : List Pattern},
      patternsAfter r keyword form done params = .ok patterns →
      Clause.WellHeaded r done none → Clause.WellHeaded r patterns none := by
  intro params
  induction params with
  | nil =>
      intro done patterns h hDone
      cases h
      exact hDone
  | cons param params ih =>
      intro done patterns h hDone
      rw [patternsAfter] at h
      split at h
      · cases h
      · rename_i p hPattern
        have hTypes : ∀ q ∈ done ++ [p], ∀ t, q.type? = some t → r.Fixes t :=
          List.forall_mem_append.mpr
            ⟨hDone.types, List.forall_mem_singleton.mpr (fixes_of_pattern hPattern)⟩
        split at h
        · rename_i hName
          refine ih h ⟨hTypes, nofun, ?_⟩
          rw [List.filterMap_append, List.filterMap_cons_none hName, List.filterMap_nil,
            List.append_nil]
          exact hDone.names
        · rename_i name hName
          split at h
          · cases h
          · rename_i hFresh
            refine ih h ⟨hTypes, nofun, ?_⟩
            have hNew : name ∉ done.filterMap Pattern.name? := by
              intro hMem
              obtain ⟨q, hq, hSame⟩ := List.mem_filterMap.mp hMem
              exact hFresh (List.any_eq_true.mpr ⟨q, hq, decide_eq_true hSame⟩)
            rw [List.filterMap_append, List.filterMap_cons_some hName, List.filterMap_nil]
            exact List.nodup_append_comm.mp (List.nodup_cons.mpr ⟨hNew, hDone.names⟩)

theorem wellHeaded_clauseHead {keyword : String} {form params : Form} {rest : List Form}
    {patterns : List Pattern} {ret : Option Ty}
    (h : clauseHead r keyword form params rest = .ok (patterns, ret)) :
    Clause.WellHeaded r patterns ret := by
  have hNothing : Clause.WellHeaded r [] none := ⟨nofun, nofun, List.nodup_nil⟩
  unfold clauseHead at h
  split at h
  · split at h
    · cases h
    · rename_i hPatterns
      have hHead := wellHeaded_patternsAfter hPatterns hNothing
      split at h
      · cases h
      · split at h
        · cases h
        · rename_i hResolve
          split at h
          · cases h
          · cases h
            refine ⟨hHead.types, fun t ht => ?_, hHead.names⟩
            cases ht
            exact fixes_of_resolve hResolve
      · cases h
        exact hHead
  · cases h

/-- **What forms are lowered to is well formed.** -/
theorem Lowered.wellFormed {allowSet : Bool} {e : Expr} (h : Lowered r allowSet e) :
    Expr.WellFormed r allowSet e := by
  induction h with
  | lit form => exact .lit _
  | var name => exact .var name
  | cond _ _ _ hTest hYes hNo => exact .cond hTest hYes hNo
  | block hCast hBody _ ih => exact .block (fixes_of_resolves hCast) hBody ih
  | set name claims hTy _ ih => exact .set name claims (fixes_of_resolves hTy) ih
  | lambda hHead _ ih => exact .lambda (wellHeaded_clauseHead hHead) ih rfl rfl
  | call _ _ hCallee hArgs => exact .call hCallee hArgs
  | conj hOperands _ ih => exact .conj hOperands ih
  | disj hOperands _ ih => exact .disj hOperands ih

end Form

theorem Clause.FromForm.wellFormed {r : Registry} {c : Clause} (h : c.FromForm r) :
    Clause.WellFormed r c := by
  obtain ⟨_, _, _, _, hHead⟩ := h.head
  exact ⟨Form.wellHeaded_clauseHead hHead, h.body.wellFormed, h.pure⟩

/-! ## Declarations -/

section

variable {r r' : Registry} (hMore : r.Declares r')

include hMore

theorem Ty.Registry.Fixes.declares {t : Ty} (h : r.Fixes t) : r'.Fixes t := hMore.resolve h

theorem Clause.WellHeaded.declares {params : List Pattern} {ret : Option Ty}
    (h : Clause.WellHeaded r params ret) : Clause.WellHeaded r' params ret where
  types := fun p hp t ht => (h.types p hp t ht).declares hMore
  result := fun t ht => (h.result t ht).declares hMore
  names := h.names

/-- **Code stays well formed when more is declared.** -/
theorem Expr.WellFormed.declares {allowSet : Bool} {e : Expr} (h : Expr.WellFormed r allowSet e) :
    Expr.WellFormed r' allowSet e := by
  induction h with
  | lit value => exact .lit value
  | var name => exact .var name
  | cond _ _ _ hTest hYes hNo => exact .cond hTest hYes hNo
  | block hCast hBody _ ih => exact .block (fun t ht => (hCast t ht).declares hMore) hBody ih
  | set name claims hTy _ ih => exact .set name claims (fun t ht => (hTy t ht).declares hMore) ih
  | lambda hHead _ hMemoize hPure ih => exact .lambda (hHead.declares hMore) ih hMemoize hPure
  | call _ _ hCallee hArgs => exact .call hCallee hArgs
  | conj hOperands _ ih => exact .conj hOperands ih
  | disj hOperands _ ih => exact .disj hOperands ih

theorem Clause.WellFormed.declares {c : Clause} (h : Clause.WellFormed r c) :
    Clause.WellFormed r' c :=
  ⟨h.head.declares hMore, h.body.declares hMore, h.pure⟩

end

namespace Program

/-! ## Programs -/

/-- A load keeps a program well formed. -/
theorem WellFormed.grows {p p' : Program} (h : p.WellFormed) (hGrows : p.GrowsTo p') :
    p'.WellFormed := by
  constructor
  · intro name hName
    obtain ⟨f, hGet⟩ := Option.isSome_iff_exists.mp hName
    rcases hGrows.functions name f hGet with hBefore | ⟨rfl, hNew⟩
    · have hContains : p.functions.contains name = true := Option.isSome_iff_exists.mpr ⟨f, hBefore⟩
      exact (hGrows.apart name hContains).trans (h.apart name hContains)
    · exact hNew.apart
  · intro name f hGet
    rcases hGrows.functions name f hGet with hBefore | ⟨-, hNew⟩
    · obtain ⟨hSome, hClauses⟩ := h.functions name f hBefore
      exact ⟨hSome, fun c hc => (hClauses c hc).declares hGrows.types⟩
    · exact ⟨hNew.nonempty, fun c hc => (hNew.clauses c hc).wellFormed⟩
  · intro e he
    rcases hGrows.statements e he with hBefore | hNew
    · exact (h.statements e hBefore).declares hGrows.types
    · exact hNew.wellFormed

/-- **Every program is well formed**, after any loads, also such as have failed midway:
no name is that of a function and of a type; all types in code are resolved with the
types declared by now; a `set` only stands at top level or directly inside a block;
blocks, operands and functions are not empty; no clause binds a name twice; and
memoized clauses are pure, while lambdas are neither. -/
theorem Loaded.wellFormed_throughout {p : Program} (h : p.Loaded) : p.WellFormed := by
  induction h with
  | empty => exact ⟨nofun, nofun, nofun⟩
  | more load fuel source _ ih => exact ih.grows (absorb_adds load fuel source _).grows

/-- A text that declares a type and a function with it. -/
def measuring : String :=
  "(deftype metre int) (def' twice (x:metre) :int (do (set y:metre x) (+ y y)))"

/-- A text whose first definition is made before its second form is refused. -/
def failing : String := "(deftype mile metre) (def f (x:mile) 1) (if)"

/-- The second load fails, and its type stays; what was loaded before is well formed with
it. -/
theorem wellFormed_throughout_of_failing :
    (loadAlone failing (loadAlone measuring {}).2).1 = .error (.error (.arity 3 0 (some "(if)"))) ∧
      (loadAlone failing (loadAlone measuring {}).2).2.types.isDeclared "mile" = true ∧
      (loadAlone failing (loadAlone measuring {}).2).2.functions.contains "twice" = true ∧
      (loadAlone failing (loadAlone measuring {}).2).2.types.isDeclared "twice" = false ∧
      (loadAlone failing (loadAlone measuring {}).2).2.WellFormed := by
  have hLoaded : (loadAlone failing (loadAlone measuring {}).2).2.Loaded :=
    .more _ _ _ (.more _ _ _ .empty)
  have hName : (loadAlone failing (loadAlone measuring {}).2).2.functions.contains "twice" =
      true := by cbv
  refine ⟨by cbv, by cbv, hName, ?_, hLoaded.wellFormed_throughout⟩
  exact (Loaded.wellFormed_throughout hLoaded).apart "twice" hName

end Program

end ClauseLisp
