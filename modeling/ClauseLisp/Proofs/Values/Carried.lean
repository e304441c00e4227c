import ClauseLisp.Proofs.Frame.Loop
import ClauseLisp.Proofs.Values.Hereditary

/-!
# Values that evaluation makes

A machine keeps values in many places: variables, lazy nodes, memo tables, and the
literals of its code.  If all of them have a hereditary property, so has every value
that evaluation makes of them, wherever it comes from, and so have all values that
are kept afterwards, however the evaluation ends.

`State.Carries` is the invariant, and `Run.Yields` says of a computation that it keeps
the invariant and what its result is like.  Which property it is does not matter for
following the machine, so this is done once, for all of them.

## Main results

* `State.Carries` — all values that a machine keeps have a property.
* `State.Carries.contains` — so have those that they are made of.
* `Run.Yields.bind` — one computation after the other.
-/

namespace ClauseLisp

open Ty (Registry)

/-! ## Literals -/

/-- The value that a pattern is compared with. -/
def Pattern.literals : Pattern → List Value
  | .lit value => [value]
  | _ => []

mutual

/-- The values that are written in an expression. -/
def Expr.literals : Expr → List Value
  | .lit value => [value]
  | .var _ => []
  | .cond test yes no => literals test ++ literals yes ++ literals no
  | .block body _ => literalsOf body
  | .set _ _ value _ => literals value
  | .lambda params _ body => params.flatMap Pattern.literals ++ literals body
  | .call callee args => literals callee ++ literalsOf args
  | .conj operands => literalsOf operands
  | .disj operands => literalsOf operands

/-- The values that are written in several expressions. -/
def Expr.literalsOf : List Expr → List Value
  | [] => []
  | e :: es => literals e ++ literalsOf es

end

/-- The values that are written in a clause. -/
def Clause.literals (c : Clause) : List Value :=
  c.params.flatMap Pattern.literals ++ c.body.literals

/-- An expression the values of which have a property. -/
abbrev Expr.Carries (P : Value → Prop) (e : Expr) : Prop := AllHave P e.literals

/-- A clause the values of which have a property. -/
abbrev Clause.Carries (P : Value → Prop) (c : Clause) : Prop := AllHave P c.literals

theorem Expr.allHave_literalsOf {P : Value → Prop} {es : List Expr} :
    AllHave P (Expr.literalsOf es) ↔ ∀ e ∈ es, e.Carries P := by
  induction es with
  | nil => exact ⟨fun _ => List.forall_mem_nil _, fun _ => List.forall_mem_nil _⟩
  | cons e es ih =>
      rw [Expr.literalsOf, List.forall_mem_cons, ← ih]
      exact List.forall_mem_append

theorem Clause.Carries.body {P : Value → Prop} {c : Clause} (h : c.Carries P) :
    c.body.Carries P :=
  (List.forall_mem_append.mp h).2

/-! ## States -/

/-- The outcome of a node, with values that have a property. -/
def LazyOutcome.Carries (P : Value → Prop) : LazyOutcome → Prop
  | .ended => True
  | .item head next => P head ∧ P next

/-- A lazy node with values that have a property. -/
structure LazyNode.Carries (P : Value → Prop) (n : LazyNode) : Prop where
  iterator : P n.iterator
  state : P n.state
  outcome : ∀ forced, n.outcome = some forced → forced.Carries P

/-- A function with values that have a property. -/
structure Function.Carries (P : Value → Prop) (f : Function) : Prop where
  clauses : ∀ c ∈ f.clauses, c.Carries P
  memo : ∀ key v, f.memo.get? key = some v → P v

/-- A program with given types, all values in which have a property. -/
structure Program.Carries (r : Registry) (P : Value → Prop) (p : Program) : Prop where
  types : p.types = r
  functions : ∀ name f, p.functions.get? name = some f → f.Carries P
  statements : ∀ e ∈ p.statements, e.Carries P

/-- All variables have a property. -/
def Scopes.Carries {ρ : Type} (P : Value → Prop) (ss : Scopes ρ) : Prop :=
  ∀ (i : Nat) (scope : Scope ρ), ss.table[i]? = some scope →
    ∀ name v, scope.vars.get? name = some v → P v

/-- A machine without operations of a host, all values in which have a property. -/
structure State.Carries (r : Registry) (P : Value → Prop) (s : State) : Prop where
  program : s.program.Carries r P
  scopes : s.scopes.Carries P
  nodes : ∀ (node : Nat) (n : LazyNode), s.nodes[node]? = some n → n.Carries P
  closures : ∀ (id : Nat) (closure : Closure), s.closures[id]? = some closure →
    closure.clause.Carries P
  hosts : s.hosts = {}

namespace Scopes.Carries

variable {ρ : Type} {P : Value → Prop} {ss : Scopes ρ}

/-- A new scope without variables. -/
theorem push (h : ss.Carries P) {scope : Scope ρ} (hNew : scope.vars = {}) :
    Scopes.Carries P ⟨ss.table.push scope⟩ := by
  intro i found hFound name v hGet
  rw [Array.getElem?_push] at hFound
  split at hFound
  · cases hFound
    rw [hNew] at hGet
    cases hGet
  · exact h i found hFound name v hGet

/-- A change of one scope that writes to no variable. -/
theorem modify (h : ss.Carries P) {i : Nat} {f : Scope ρ → Scope ρ}
    (hf : ∀ scope, (f scope).vars = scope.vars) : Scopes.Carries P ⟨ss.table.modify i f⟩ := by
  intro j found hFound name v hGet
  rw [Array.getElem?_modify] at hFound
  split at hFound
  · obtain ⟨scope, hScope, rfl⟩ := Option.map_eq_some_iff.mp hFound
    rw [hf] at hGet
    exact h j scope hScope name v hGet
  · exact h j found hFound name v hGet

theorem put (h : ss.Carries P) (i : Nat) (written : String) {value : Value} (hValue : P value) :
    (ss.put i written value).Carries P := by
  intro j found hFound name v hGet
  rw [Scopes.put, Array.getElem?_modify] at hFound
  split at hFound
  · obtain ⟨scope, hScope, rfl⟩ := Option.map_eq_some_iff.mp hFound
    rw [Dict.get?_insert] at hGet
    split at hGet
    · cases hGet
      exact hValue
    · exact h j scope hScope name v hGet
  · exact h j found hFound name v hGet

theorem acquireAll (i : Nat) (resources : List ρ) (h : ss.Carries P) :
    Scopes.Carries P (resources.foldr (fun resource ss => ss.acquire i resource) ss) := by
  induction resources with
  | nil => exact h
  | cons resource resources ih => exact ih.modify fun _ => rfl

/-- What a name is bound to has the property. -/
theorem get? (h : ss.Carries P) {i : Nat} {name : String} {v : Value}
    (hGet : ss.get? i name = some v) : P v := by
  have hChain : ∀ (steps i : Nat), ∀ scope ∈ ss.chainWithin steps i,
      ∃ j : Nat, ss.table[j]? = some scope := by
    intro steps
    induction steps with
    | zero => exact nofun
    | succ steps ih =>
        intro i scope hMem
        rw [Scopes.chainWithin] at hMem
        split at hMem
        · cases hMem
        · rename_i first hFirst
          split at hMem
          · rw [List.mem_singleton.mp hMem]
            exact ⟨i, hFirst⟩
          · rcases List.mem_cons.mp hMem with rfl | hMem
            · exact ⟨i, hFirst⟩
            · exact ih _ scope hMem
  obtain ⟨scope, hMem, hVar⟩ := List.exists_of_findSome?_eq_some hGet
  obtain ⟨j, hScope⟩ := hChain (i + 1) i scope hMem
  exact h j scope hScope name v hVar

end Scopes.Carries

namespace State.Carries

variable {r : Registry} {P : Value → Prop} {s : State}

/-- Nodes have been changed, or added. -/
theorem withNodes (h : s.Carries r P) {nodes : LazyNodes}
    (hNodes : ∀ (node : Nat) (n : LazyNode), nodes[node]? = some n → n.Carries P) :
    State.Carries r P { s with nodes } :=
  ⟨h.program, h.scopes, hNodes, h.closures, h.hosts⟩

theorem withScopes (h : s.Carries r P) {scopes : Scopes Nat} (hScopes : scopes.Carries P) :
    State.Carries r P { s with scopes } :=
  ⟨h.program, hScopes, h.nodes, h.closures, h.hosts⟩

theorem outcome (h : s.Carries r P) {node : Nat} {forced : LazyOutcome}
    (hOutcome : s.nodes.outcome? node = some forced) : forced.Carries P := by
  unfold LazyNodes.outcome? at hOutcome
  split at hOutcome
  · rename_i n hNode
    exact (h.nodes node n hNode).outcome forced hOutcome
  · cases hOutcome

end State.Carries

/-- The values that a value is made of directly. -/
def Value.parts : Value → List Value
  | .cell head tail _ => [head, tail]
  | .tagged _ value => [value]
  | _ => []

/-- The values that a machine keeps, and those that they are made of. -/
inductive State.Contains (s : State) : Value → Prop
  | bound {i : Nat} {scope : Scope Nat} {name : String} {v : Value} :
      s.scopes.table[i]? = some scope → scope.vars.get? name = some v → Contains s v
  | iterator {node : Nat} {n : LazyNode} : s.nodes[node]? = some n → Contains s n.iterator
  | state {node : Nat} {n : LazyNode} : s.nodes[node]? = some n → Contains s n.state
  | head {node : Nat} {n : LazyNode} {head next : Value} :
      s.nodes[node]? = some n → n.outcome = some (.item head next) → Contains s head
  | next {node : Nat} {n : LazyNode} {head next : Value} :
      s.nodes[node]? = some n → n.outcome = some (.item head next) → Contains s next
  | memo {name key : String} {f : Function} {v : Value} :
      s.program.functions.get? name = some f → f.memo.get? key = some v → Contains s v
  | clause {name : String} {f : Function} {c : Clause} {v : Value} :
      s.program.functions.get? name = some f → c ∈ f.clauses → v ∈ c.literals → Contains s v
  | statement {e : Expr} {v : Value} :
      e ∈ s.program.statements → v ∈ e.literals → Contains s v
  | closure {id : Nat} {closure : Closure} {v : Value} :
      s.closures[id]? = some closure → v ∈ closure.clause.literals → Contains s v
  | part {v part : Value} : Contains s v → part ∈ v.parts → Contains s part

/-- **All values that a machine contains have the property.** -/
theorem State.Carries.contains {r : Registry} {P : Value → Prop} (h : Value.Hereditary r P)
    {s : State} (hs : s.Carries r P) {v : Value} (hv : s.Contains v) : P v := by
  induction hv with
  | bound hScope hGet => exact hs.scopes _ _ hScope _ _ hGet
  | iterator hNode => exact (hs.nodes _ _ hNode).iterator
  | state hNode => exact (hs.nodes _ _ hNode).state
  | head hNode hOutcome => exact ((hs.nodes _ _ hNode).outcome _ hOutcome).1
  | next hNode hOutcome => exact ((hs.nodes _ _ hNode).outcome _ hOutcome).2
  | memo hFunction hMemo => exact (hs.program.functions _ _ hFunction).memo _ _ hMemo
  | clause hFunction hClause hMem =>
      exact (hs.program.functions _ _ hFunction).clauses _ hClause _ hMem
  | statement hStatement hMem => exact hs.program.statements _ hStatement _ hMem
  | closure hClosure hMem => exact hs.closures _ _ hClosure _ hMem
  | @part v part _ hMem hWhole =>
      cases v with
      | cell head tail elem =>
          rcases List.mem_cons.mp hMem with rfl | hMem
          · exact h.head hWhole
          · rw [List.mem_singleton.mp hMem]
            exact h.tail hWhole
      | tagged name value =>
          rw [List.mem_singleton.mp hMem]
          exact h.untagged hWhole
      | _ => cases hMem

/-! ## Computations -/

/-- A computation that keeps all values as they should be, whatever its outcome is, and
the results of which are as they should be. -/
def Run.Yields (r : Registry) (P : Value → Prop) {α : Type} (Q : α → Prop) (x : Run α) : Prop :=
  ∀ s : State, s.Carries r P → (x s).2.Carries r P ∧ ∀ a, (x s).1 = .ok a → Q a

/-- Nothing is said of the results. -/
abbrev Run.Preserves (r : Registry) (P : Value → Prop) {α : Type} (x : Run α) : Prop :=
  Run.Yields r P (fun _ => True) x

namespace Run.Yields

variable {r : Registry} {P : Value → Prop} {α β : Type} {Q : α → Prop} {Q' : β → Prop}

theorem pure {a : α} (h : Q a) : Yields r P Q (Pure.pure a : Run α) := by
  intro s hs
  refine ⟨hs, fun b hSame => ?_⟩
  cases hSame
  exact h

theorem throw (stop : Stop) : Yields r P Q (MonadExcept.throw stop : Run α) :=
  fun _ hs => ⟨hs, nofun⟩

theorem fail (error : Error) : Yields r P Q (ClauseLisp.fail error : Run α) := throw _

theorem get : Yields r P (State.Carries r P) (MonadState.get : Run State) := by
  intro s hs
  refine ⟨hs, fun s' hSame => ?_⟩
  cases hSame
  exact hs

theorem ofExcept {x : Except Error α} (h : ∀ a, x = .ok a → Q a) :
    Yields r P Q (Run.ofExcept x) := by
  cases x with
  | ok a => exact .pure (h a rfl)
  | error error => exact .fail error

/-- **One computation after the other.** -/
theorem bind {x : Run α} {f : α → Run β} (hx : Yields r P Q x)
    (hf : ∀ a, Q a → Yields r P Q' (f a)) : Yields r P Q' (x >>= f) := by
  intro s hs
  obtain ⟨hFirst, hResult⟩ := hx s hs
  rw [Run.bind_apply]
  rcases hRun : x s with ⟨stop | a, s'⟩ <;> rw [hRun] at hFirst hResult
  · exact ⟨hFirst, nofun⟩
  · exact hf a (hResult a rfl) s' hFirst

/-- What is known of the results of a computation from whatever state. -/
theorem of_gives {x : Run α} (hx : Run.Preserves r P x) (h : Gives Q x) : Yields r P Q x :=
  fun s hs => ⟨(hx s hs).1, h s⟩

theorem mapError {x : Run α} {f : Error → Error} (hx : Yields r P Q x) :
    Yields r P Q (Run.mapError f x) := by
  intro s hs
  have hRun := hx s hs
  unfold Run.mapError
  rcases hFirst : x s with ⟨(error | _ | _) | a, s'⟩ <;> rw [hFirst] at hRun
  · exact ⟨hRun.1, nofun⟩
  · exact hRun
  · exact hRun
  · exact hRun

theorem outcome {x : Run α} (hx : Yields r P Q x) :
    Yields r P (fun outcome => ∀ a, outcome = .ok a → Q a) x.outcome := by
  intro s hs
  refine ⟨(hx s hs).1, fun outcome hSame => ?_⟩
  cases hSame
  exact (hx s hs).2

theorem modify {f : State → State} (h : ∀ s : State, s.Carries r P → (f s).Carries r P) :
    Run.Preserves r P (modify f : Run Unit) :=
  fun s hs => ⟨h s hs, fun _ _ => trivial⟩

/-- Asking for types changes no value. -/
theorem typing {x : Typing α} (h : ∀ asked, Q (x asked).1) : Yields r P Q (Run.typing x) := by
  intro s hs
  refine ⟨⟨hs.program, hs.scopes, hs.nodes, hs.closures, hs.hosts⟩, fun a hSame => ?_⟩
  cases hSame
  exact h s.asked

end Run.Yields

end ClauseLisp
