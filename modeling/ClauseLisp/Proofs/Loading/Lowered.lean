import ClauseLisp.Proofs.Loading.Steps

/-!
# What forms are lowered to

Not every expression is the expression of a form.  `Form.Lowered` describes those
that are, by one rule for each kind of expression: which of their parts may be a
`set`, that blocks and operands are not empty, and that types have been resolved.
What holds of every loaded program can then be proved by induction on the rules,
without following the text of the lowering again.

## Main results

* `Form.lowered_expr` — the expression of a form is lowered.
-/

namespace ClauseLisp

open Ty (Registry)

/-- A declared type as lowering leaves it, if there is one: some type that was
written, resolved. -/
def Ty.Registry.Resolves (r : Registry) (ty : Option Ty) : Prop :=
  ∃ written, r.resolve? written = .ok ty

namespace Form

/-- **The expressions that forms are lowered to**; `allowSet` says whether a form stands
directly inside a block or at top level. -/
inductive Lowered (r : Registry) : Bool → Expr → Prop
  | lit {allowSet : Bool} (form : Form) : Lowered r allowSet (.lit (datum r form))
  | var {allowSet : Bool} (name : String) : Lowered r allowSet (.var name)
  | cond {allowSet : Bool} {test yes no : Expr} :
      Lowered r false test → Lowered r false yes → Lowered r false no →
      Lowered r allowSet (.cond test yes no)
  | block {allowSet : Bool} {body : List Expr} {cast : Option Ty} :
      r.Resolves cast → body ≠ [] → (∀ e ∈ body, Lowered r true e) →
      Lowered r allowSet (.block body cast)
  | set (name : String) {ty : Option Ty} {value : Expr} (claims : Bool) :
      r.Resolves ty → Lowered r false value → Lowered r true (.set name ty value claims)
  | lambda {allowSet : Bool} {keyword : String} {form params : Form} {rest : List Form}
      {patterns : List Pattern} {ret : Option Ty} {body : Expr} :
      clauseHead r keyword form params rest = .ok (patterns, ret) → Lowered r false body →
      Lowered r allowSet (.lambda patterns ret body)
  | call {allowSet : Bool} {callee : Expr} {args : List Expr} :
      Lowered r false callee → (∀ e ∈ args, Lowered r false e) →
      Lowered r allowSet (.call callee args)
  | conj {allowSet : Bool} {operands : List Expr} :
      operands ≠ [] → (∀ e ∈ operands, Lowered r false e) → Lowered r allowSet (.conj operands)
  | disj {allowSet : Bool} {operands : List Expr} :
      operands ≠ [] → (∀ e ∈ operands, Lowered r false e) → Lowered r allowSet (.disj operands)

theorem resolves_blockCast {r : Registry} {items : List Form} {cast : Option Ty}
    (h : blockCast r items = .ok cast) : r.Resolves cast := by
  unfold blockCast at h
  split at h
  · exact ⟨_, h⟩
  · cases h
    exact ⟨none, rfl⟩

theorem exprs_ne_nil {r : Registry} {allowSet : Bool} {forms : List Form} {es : List Expr}
    (h : exprs r allowSet forms = .ok es) (hForms : forms ≠ []) : es ≠ [] := by
  cases forms with
  | nil => exact absurd rfl hForms
  | cons form forms =>
      rw [exprs] at h
      obtain ⟨e, -, h⟩ := except_bind_ok h
      obtain ⟨others, -, h⟩ := except_bind_ok h
      cases h
      exact List.cons_ne_nil e others

theorem blockItems_ne_nil {r : Registry} {forms : List Form} {es : List Expr}
    (h : blockItems r forms = .ok es) (hForms : isEmptyBlock forms = false) : es ≠ [] := by
  unfold blockItems at h
  split at h
  · cases hForms
  · cases hForms
  · obtain ⟨e, -, h⟩ := except_bind_ok h
    obtain ⟨others, -, h⟩ := except_bind_ok h
    cases h
    exact List.cons_ne_nil e others

theorem isEmptyBlock_of_clauseHead {r : Registry} {keyword : String} {form params : Form}
    {rest : List Form} {head : List Pattern × Option Ty}
    (h : clauseHead r keyword form params rest = .ok head) : isEmptyBlock rest = false := by
  unfold clauseHead at h
  split at h
  · split at h
    · cases h
    · split at h
      · cases h
      · split at h
        · cases h
        · split at h
          · cases h
          · rename_i hBody
            unfold isEmptyBlock
            split
            · rename_i hRest
              cases hRest
            · rename_i hRest
              cases hRest
              exact absurd rfl hBody
            · rfl
      · rename_i hNil hMark
        unfold isEmptyBlock
        split
        · exact absurd rfl hNil
        · exact (hMark _ _ rfl).elim
        · rfl
  · cases h

mutual

/-- **The expression of a form is lowered.** -/
theorem lowered_expr (r : Registry) {allowSet : Bool} {e : Expr} :
    (form : Form) → expr r allowSet form = .ok e → Lowered r allowSet e
  | .int n, h => by
    cases h
    exact .lit (.int n)
  | .bool b, h => by
    cases h
    exact .lit (.bool b)
  | .str s, h => by
    cases h
    exact .lit (.str s)
  | .quote inner, h => by
    rw [← Except.ok.inj h]
    exact .lit inner
  | .sym name none, h => by
    cases h
    exact .var name
  | .sym name (some ty), h => nomatch h
  | .mark ty, h => nomatch h
  | .list [], h => nomatch h
  | .list (head :: args), h => by
    unfold expr at h
    split at h
    · split at h
      · rename_i test yes no
        obtain ⟨test', hTest, h⟩ := except_bind_ok h
        obtain ⟨yes', hYes, h⟩ := except_bind_ok h
        obtain ⟨no', hNo, h⟩ := except_bind_ok h
        cases h
        exact .cond (lowered_expr r test hTest) (lowered_expr r yes hYes) (lowered_expr r no hNo)
      · cases h
    · obtain ⟨cast, hCast, h⟩ := except_bind_ok h
      split at h
      · cases h
      · rename_i hEmpty
        obtain ⟨body, hBody, h⟩ := except_bind_ok h
        cases h
        exact .block (resolves_blockCast hCast)
          (blockItems_ne_nil hBody (Bool.not_eq_true _ ▸ hEmpty)) (lowered_blockItems r args hBody)
    · split at h
      · rename_i hAllow
        subst hAllow
        split at h
        · rename_i name ty value
          obtain ⟨ty', hTy, h⟩ := except_bind_ok h
          obtain ⟨value', hValue, h⟩ := except_bind_ok h
          cases h
          exact .set name false ⟨ty, hTy⟩ (lowered_expr r value hValue)
        · cases h
        · cases h
      · cases h
    · split at h
      · rename_i hAllow
        subst hAllow
        split at h
        · rename_i name ty value
          obtain ⟨ty', hTy, h⟩ := except_bind_ok h
          obtain ⟨value', hValue, h⟩ := except_bind_ok h
          cases h
          exact .set name true ⟨ty, hTy⟩ (lowered_expr r value hValue)
        · cases h
        · cases h
      · cases h
    · split at h
      · cases h
      · rename_i params rest
        obtain ⟨head', hHead, h⟩ := except_bind_ok h
        obtain ⟨body', hBody, h⟩ := except_bind_ok h
        cases h
        exact .lambda hHead (lowered_body r rest (isEmptyBlock_of_clauseHead hHead) hBody)
    · split at h
      · cases h
      · rename_i hArgs
        obtain ⟨operands, hOperands, h⟩ := except_bind_ok h
        cases h
        exact .conj (exprs_ne_nil hOperands fun hNil => hArgs (List.isEmpty_iff.mpr hNil))
          (lowered_exprs r args hOperands)
    · split at h
      · cases h
      · rename_i hArgs
        obtain ⟨operands, hOperands, h⟩ := except_bind_ok h
        cases h
        exact .disj (exprs_ne_nil hOperands fun hNil => hArgs (List.isEmpty_iff.mpr hNil))
          (lowered_exprs r args hOperands)
    · split at h
      · cases h
      · obtain ⟨callee, hCallee, h⟩ := except_bind_ok h
        obtain ⟨args', hArgs, h⟩ := except_bind_ok h
        cases h
        exact .call (lowered_expr r head hCallee) (lowered_exprs r args hArgs)
termination_by form => sizeOf form
decreasing_by all_goals (subst_vars; simp_wf; omega)

theorem lowered_exprs (r : Registry) {allowSet : Bool} {es : List Expr} :
    (forms : List Form) → exprs r allowSet forms = .ok es → ∀ e ∈ es, Lowered r allowSet e
  | [], h => by
    cases h
    exact nofun
  | form :: forms, h => by
    rw [exprs] at h
    obtain ⟨e, hFirst, h⟩ := except_bind_ok h
    obtain ⟨others, hOthers, h⟩ := except_bind_ok h
    cases h
    exact List.forall_mem_cons.mpr ⟨lowered_expr r form hFirst, lowered_exprs r forms hOthers⟩
termination_by forms => sizeOf forms
decreasing_by all_goals (subst_vars; simp_wf <;> omega)

theorem lowered_blockItems (r : Registry) {es : List Expr} :
    (forms : List Form) → blockItems r forms = .ok es → ∀ e ∈ es, Lowered r true e
  | [], h => by
    cases h
    exact nofun
  | form :: forms, h => by
    unfold blockItems at h
    split at h
    · cases h
      exact nofun
    · cases h
      exact nofun
    · rename_i hForms
      cases hForms
      obtain ⟨e, hFirst, h⟩ := except_bind_ok h
      obtain ⟨others, hOthers, h⟩ := except_bind_ok h
      cases h
      exact List.forall_mem_cons.mpr
        ⟨lowered_expr r form hFirst, lowered_blockItems r forms hOthers⟩
termination_by forms => sizeOf forms
decreasing_by all_goals (subst_vars; simp_wf <;> omega)

theorem lowered_body (r : Registry) {e : Expr} :
    (forms : List Form) → isEmptyBlock forms = false → body r forms = .ok e → Lowered r false e
  | [], hForms, _ => nomatch hForms
  | form :: forms, hForms, h => by
    unfold body at h
    split at h
    · cases h
    · rename_i single hSingle
      cases hSingle
      exact lowered_expr r single h
    · rename_i ty others hMore hMark
      cases hMark
      obtain ⟨es, hExprs, h⟩ := except_bind_ok h
      cases h
      refine .block ⟨none, rfl⟩ (exprs_ne_nil hExprs fun hNil => ?_) (lowered_exprs r forms hExprs)
      rw [hNil] at hForms
      cases hForms
    · rename_i single hNotMark hSingle
      cases hSingle
      exact lowered_expr r form h
    · rename_i first others hNone hMark hMore hCons
      cases hCons
      obtain ⟨first', hFirst, h⟩ := except_bind_ok h
      obtain ⟨others', hOthers, h⟩ := except_bind_ok h
      cases h
      exact .block ⟨none, rfl⟩ (List.cons_ne_nil first' others')
        (List.forall_mem_cons.mpr ⟨lowered_expr r form hFirst, lowered_exprs r forms hOthers⟩)
termination_by forms => sizeOf forms
decreasing_by all_goals (subst_vars; simp_wf <;> omega)

end

end Form

end ClauseLisp
