import ClauseLisp.Proofs.Scoping.Coverage
import ClauseLisp.Proofs.Types.Walks

/-!
# Calls by names that nothing binds

A call by a name reaches a function or a builtin only where the name is not bound: by a
parameter of the clause or of a lambda around the call, by a `set` directly inside a block
around it, or by one at top level.  Which calls these are can be read off the code, one
after the other and at any depth, and so can the calls in a program that break purity.

## Main results

* `Expr.freeCalls` — the names that an expression calls without binding them.
* `Program.purityFaults` — the calls of impure things in the pure clauses of a program.
* `Program.Loaded.function?_of_mem` — the functions of a loaded program have names of
  their own.
-/

namespace ClauseLisp

/-! ## Free calls -/

/-- The name that an expression is, unless it is bound. -/
def Expr.freeName (bound : List String) : Expr → List String
  | .var name => if bound.contains name then [] else [name]
  | _ => []

mutual

/-- The names that the calls in an expression, at any depth, have as callees while nothing
binds them; once for each call. -/
def Expr.freeCalls (bound : List String) : Expr → List String
  | .lit _ => []
  | .var _ => []
  | .cond test yes no => freeCalls bound test ++ freeCalls bound yes ++ freeCalls bound no
  | .block body _ => freeCallsAll (body.filterMap Expr.setName? ++ bound) body
  | .set _ _ value _ => freeCalls bound value
  | .lambda params _ body => freeCalls (params.filterMap Pattern.name? ++ bound) body
  | .call callee args =>
    freeCallsAll bound args ++ freeCalls bound callee ++ freeName bound callee
  | .conj operands => freeCallsAll bound operands
  | .disj operands => freeCallsAll bound operands

/-- `freeCalls` of several expressions. -/
def Expr.freeCallsAll (bound : List String) : List Expr → List String
  | [] => []
  | e :: es => freeCalls bound e ++ freeCallsAll bound es

end

theorem Expr.freeName_of_ne {bound : List String} {e : Expr} (h : ∀ name, e ≠ .var name) :
    e.freeName bound = [] := by
  cases e with
  | var name => exact absurd rfl (h name)
  | _ => rfl

theorem Expr.freeCallsAll_eq (bound : List String) (es : List Expr) :
    Expr.freeCallsAll bound es = es.flatMap (Expr.freeCalls bound) := by
  induction es with
  | nil => rfl
  | cons e es ih => rw [Expr.freeCallsAll, ih, List.flatMap_cons]

/-! ## Faults -/

namespace Program

/-- Whether a name that nothing binds calls something impure: a function without a pure
clause or, if the name is no function and no type, a builtin that is registered as impure. -/
def isImpure (p : Program) (name : String) : Bool :=
  match p.function? name with
  | some f => !f.clauses.any (·.pure)
  | none => (p.types.parent? name).isNone && (Builtin.find? name).any fun b => !b.pure

/-- The calls in a clause, at any depth, of something impure. -/
def impureCalls (p : Program) (c : Clause) : List String :=
  (c.body.freeCalls
    (c.params.filterMap Pattern.name? ++ p.statements.filterMap Expr.setName?)).filter p.isImpure

/-- What there is to say about purity: one fault for each call of something impure in a pure
clause, told in the function that the clause belongs to. -/
def purityFaults (p : Program) : List Error :=
  p.functions.entries.flatMap fun (name, f) =>
    (f.clauses.filter (·.pure)).flatMap fun c =>
      (p.impureCalls c).map fun callee => .inCall name (.purity name callee)

end Program

/-- Whether an error says that something pure calls something impure, wherever it was found. -/
def Error.isPurity (error : Error) : Bool :=
  match error.root with
  | .purity _ _ => true
  | _ => false

theorem Error.isPurity_eq_false {error : Error} (h : error.isAboutTypes = true) :
    error.isPurity = false := by
  unfold isAboutTypes at h
  unfold isPurity
  cases hRoot : error.root with
  | purity function callee =>
      rw [hRoot] at h
      cases h
  | _ => rfl

/-! ## The functions of a loaded program -/

theorem Dict.nodup_keys_insert {α : Type} {d : Dict α} (h : d.keys.Nodup) (name : String)
    (value : α) : (d.insert name value).keys.Nodup := by
  obtain ⟨entries⟩ := d
  show ((put name value entries).map (·.1)).Nodup
  replace h : (entries.map (·.1)).Nodup := h
  induction entries with
  | nil => exact List.nodup_singleton name
  | cons entry entries ih =>
      obtain ⟨key, old⟩ := entry
      obtain ⟨hKey, hRest⟩ := List.nodup_cons.mp h
      rw [put]
      split
      · rename_i hSame
        subst hSame
        exact h
      · rename_i hOther
        refine List.nodup_cons.mpr ⟨fun hMem => ?_, ih hRest⟩
        have hFound : ((⟨entries⟩ : Dict α).insert name value).contains key = true :=
          (Dict.mem_keys_iff _ _).mp hMem
        rw [contains, get?_insert, if_neg (Ne.symm hOther)] at hFound
        exact hKey ((Dict.mem_keys_iff ⟨entries⟩ key).mpr hFound)

/-- In a table with different keys, every entry is found. -/
theorem Dict.get?_of_mem {α : Type} {d : Dict α} (h : d.keys.Nodup) {name : String} {value : α}
    (hMem : (name, value) ∈ d.entries) : d.get? name = some value := by
  obtain ⟨entries⟩ := d
  show find entries name = some value
  replace h : (entries.map (·.1)).Nodup := h
  induction entries with
  | nil => cases hMem
  | cons entry entries ih =>
      obtain ⟨hKey, hRest⟩ := List.nodup_cons.mp h
      rw [find]
      rcases List.mem_cons.mp hMem with rfl | hMem
      · rw [if_pos rfl]
      · have hOther : entry.1 ≠ name := by
          rintro rfl
          exact hKey (List.mem_map.mpr ⟨_, hMem, rfl⟩)
        rw [if_neg hOther]
        exact ih hMem hRest

namespace Program

theorem nodup_define :
    ∀ (functions : List Function) {p : Program}, p.functions.keys.Nodup →
      (p.define functions).functions.keys.Nodup := by
  intro functions
  induction functions with
  | nil => exact fun h => h
  | cons f functions ih =>
      intro p h
      exact ih (p := { p with functions := p.functions.insert f.name f })
        (Dict.nodup_keys_insert h f.name f)

theorem Loaded.nodup {p : Program} (h : p.Loaded) : p.functions.keys.Nodup := by
  induction h with
  | empty => exact List.nodup_nil
  | more load fuel source _ ih =>
      obtain ⟨functions, hDefines⟩ := absorb_defines load fuel source _
      rw [hDefines]
      exact nodup_define functions ih

/-- **The functions of a loaded program have names of their own**: each is found by the name
that it is kept under. -/
theorem Loaded.function?_of_mem {p : Program} (h : p.Loaded) {name : String} {f : Function}
    (hMem : (name, f) ∈ p.functions.entries) : p.function? name = some f :=
  Dict.get?_of_mem h.nodup hMem

end Program

end ClauseLisp
