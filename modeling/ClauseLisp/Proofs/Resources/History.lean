import Mathlib
import ClauseLisp.Proofs.Frame.Loop

/-!
# Histories of scopes

Scopes are made, bound in, given resources and left, in any order and any number of
times.  Such a sequence is a history, and a history says by itself what has become of
each scope: no tables are needed to read off which resources a scope still holds, what
its names are bound to, and whether anything can be bound in it.

`Scopes.Follows` says that a tree of scopes is what its history says.  Every operation
keeps it (`Scopes.Follows.perform`), hence every history leads to what it says
(`Scopes.Follows.play`).

## Main results

* `releaseAll_eq_mapM` — all resources are released, whatever fails on the way.
* `Scopes.Follows.get?_eq` — a name is looked up in the scope itself, and then around it.
* `Scopes.exit_releases_once` — what leaving, binding and looking up do after any history.
-/

namespace ClauseLisp

/-- An operation on a tree of scopes. -/
inductive ScopeOp (ρ ε α : Type) where
  | child (scope : Nat)
  | bind (scope : Nat) (name : String) (value : Value)
  | acquire (scope : Nat) (resource : ρ)
  | exit (scope : Nat) (outcome : Except ε α)

namespace ScopeOp

variable {ρ σ ε α : Type}

/-- The scope that an operation works on. -/
def scope : ScopeOp ρ ε α → Nat
  | child scope | bind scope _ _ | acquire scope _ | exit scope _ => scope

/-- What an operation does to scopes, and to the world that resources are released in.
Binding may fail, and then does nothing. -/
def perform (release : ρ → σ → Option Error × σ) (fail : Error → ε) :
    ScopeOp ρ ε α → Scopes ρ × σ → Scopes ρ × σ
  | child scope, (ss, world) => ((ss.child scope).2, world)
  | bind scope name value, (ss, world) =>
    match ss.bind scope name value with
    | .ok ss => (ss, world)
    | .error _ => (ss, world)
  | acquire scope resource, (ss, world) => (ss.acquire scope resource, world)
  | exit scope outcome, (ss, world) => (ss.exit release fail scope outcome world).2

/-- What a history leads to, from the outermost scope alone. -/
def play (release : ρ → σ → Option Error × σ) (fail : Error → ε) (world : σ)
    (ops : List (ScopeOp ρ ε α)) : Scopes ρ × σ :=
  ops.foldl (fun tree op => op.perform release fail tree) (Scopes.root, world)

/-! ## What a history says -/

/-- Whether an operation leaves this scope. -/
def exits (s : Nat) : ScopeOp ρ ε α → Bool
  | exit scope _ => scope = s
  | _ => false

/-- The scope that a new one is made in. -/
def madeIn? : ScopeOp ρ ε α → Option (Option Nat)
  | child scope => some (some scope)
  | _ => none

/-- What an operation binds this name to in this scope. -/
def binding? (s : Nat) (name : String) : ScopeOp ρ ε α → Option Value
  | bind scope other value => if scope = s ∧ other = name then some value else none
  | _ => none

/-- What an operation gives to this scope. -/
def acquired? (s : Nat) : ScopeOp ρ ε α → Option ρ
  | acquire scope resource => if scope = s then some resource else none
  | _ => none

/-- The scopes that there are, each with the one around it. -/
def parents (ops : List (ScopeOp ρ ε α)) : List (Option Nat) := none :: ops.filterMap madeIn?

/-- The scope around this one. -/
def parentIn (ops : List (ScopeOp ρ ε α)) (s : Nat) : Option Nat := (parents ops)[s]?.join

/-- Whether this scope has been left. -/
def hasExited (ops : List (ScopeOp ρ ε α)) (s : Nat) : Bool := ops.any (exits s)

/-- What a name was bound to last in this scope before the scope was first left. -/
def boundIn (ops : List (ScopeOp ρ ε α)) (s : Nat) (name : String) : Option Value :=
  (ops.takeWhile fun op => !op.exits s).reverse.findSome? (binding? s name)

/-- At this position of a history the scope has acquired the resource, and it has not been
left since. -/
def Pending (ops : List (ScopeOp ρ ε α)) (s i : Nat) (resource : ρ) : Prop :=
  ops[i]? = some (acquire s resource) ∧
    ∀ k outcome, i < k → ops[k]? ≠ some (exit s outcome)

/-- Whether each operation works on a scope that exists by then, if so many do at first. -/
def allExist : Nat → List (ScopeOp ρ ε α) → Bool
  | _, [] => true
  | count, op :: ops =>
    decide (op.scope < count) && allExist (count + (op.madeIn?.toList).length) ops

section

variable (ops : List (ScopeOp ρ ε α)) (op : ScopeOp ρ ε α)

theorem play_snoc (release : ρ → σ → Option Error × σ) (fail : Error → ε) (world : σ) :
    play release fail world (ops ++ [op]) =
      op.perform release fail (play release fail world ops) := by
  rw [play, List.foldl_append]
  rfl

theorem parents_snoc : parents (ops ++ [op]) = parents ops ++ op.madeIn?.toList := by
  rw [parents, parents, List.filterMap_append, List.cons_append]
  cases op <;> rfl

/-- A scope stays where it is. -/
theorem parentIn_snoc {s : Nat} (hScope : s < (parents ops).length) :
    parentIn (ops ++ [op]) s = parentIn ops s := by
  rw [parentIn, parents_snoc, List.getElem?_append_left hScope, parentIn]

theorem eq_acquire {op : ScopeOp ρ ε α} {s : Nat} {resource : ρ}
    (h : op.acquired? s = some resource) : op = acquire s resource := by
  cases op with
  | acquire scope other =>
      rw [acquired?, Option.ite_none_right_eq_some] at h
      obtain ⟨rfl, hSame⟩ := h
      rw [Option.some.inj hSame]
  | _ => cases h

theorem hasExited_snoc (s : Nat) :
    hasExited (ops ++ [op]) s = (hasExited ops s || op.exits s) := by
  simp [hasExited]

/-- An operation that is new binds a name unless the scope has been left. -/
theorem boundIn_snoc (s : Nat) (name : String) :
    boundIn (ops ++ [op]) s name =
      if hasExited ops s then boundIn ops s name
      else (op.binding? s name).or (boundIn ops s name) := by
  cases hExited : hasExited ops s with
  | true =>
      obtain ⟨other, hMem, hExits⟩ := List.any_eq_true.mp hExited
      rw [boundIn, boundIn, List.takeWhile_append, if_neg, if_pos rfl]
      intro hLength
      have hAll := List.takeWhile_eq_self_iff.mp (List.takeWhile_prefix _ |>.eq_of_length hLength)
      simpa [hExits] using hAll other hMem
  | false =>
      have hAll : ∀ other ∈ ops, (!other.exits s) = true := by
        intro other hMem
        rw [hasExited, List.any_eq_false] at hExited
        simpa using hExited other hMem
      have hSelf : ops.takeWhile (fun op => !op.exits s) = ops := List.takeWhile_eq_self_iff.mpr hAll
      rw [boundIn, boundIn, List.takeWhile_append, hSelf, if_pos rfl, List.reverse_append,
        List.findSome?_append]
      cases op with
      | exit scope outcome => by_cases hScope : scope = s <;> simp [exits, binding?, hScope]
      | _ => simp [exits]

/-- What stands in a history that is longer by one operation. -/
theorem getElem?_snoc {ops : List (ScopeOp ρ ε α)} {op other : ScopeOp ρ ε α} {k : Nat} :
    (ops ++ [op])[k]? = some other ↔ ops[k]? = some other ∨ k = ops.length ∧ op = other := by
  rcases Nat.lt_trichotomy k ops.length with hLt | rfl | hGt
  · rw [List.getElem?_append_left hLt, or_iff_left]
    exact fun hEnd => Nat.ne_of_lt hLt hEnd.1
  · rw [List.getElem?_concat_length, List.getElem?_eq_none (Nat.le_refl _)]
    simp
  · have hNone : (ops ++ [op])[k]? = none :=
      List.getElem?_eq_none (by rw [List.length_append]; exact hGt)
    rw [hNone, List.getElem?_eq_none (Nat.le_of_lt hGt)]
    simp [Nat.ne_of_gt hGt]

/-- What is pending after one more operation has just been acquired, or it was pending
before and the scope is not left now. -/
theorem pending_snoc (s i : Nat) (resource : ρ) :
    Pending (ops ++ [op]) s i resource ↔
      Pending ops s i resource ∧ op.exits s = false ∨
        i = ops.length ∧ op = acquire s resource := by
  constructor
  · rintro ⟨hGet, hLater⟩
    refine (getElem?_snoc.mp hGet).imp (fun hOld => ⟨⟨hOld, fun k outcome hk hExit => ?_⟩, ?_⟩) id
    · exact hLater k outcome hk (getElem?_snoc.mpr (.inl hExit))
    · have hBefore : i < ops.length := (List.getElem?_eq_some_iff.mp hOld).1
      cases op with
      | exit scope outcome =>
          refine decide_eq_false fun hScope => ?_
          subst hScope
          exact hLater ops.length outcome hBefore (getElem?_snoc.mpr (.inr ⟨rfl, rfl⟩))
      | _ => rfl
  · rintro (⟨⟨hGet, hLater⟩, hExits⟩ | ⟨rfl, rfl⟩)
    · refine ⟨getElem?_snoc.mpr (.inl hGet), fun k outcome hk hExit => ?_⟩
      rcases getElem?_snoc.mp hExit with hOld | ⟨-, rfl⟩
      · exact hLater k outcome hk hOld
      · simp [exits] at hExits
    · refine ⟨getElem?_snoc.mpr (.inr ⟨rfl, rfl⟩), fun k outcome hk hExit => ?_⟩
      rcases getElem?_snoc.mp hExit with hOld | ⟨rfl, -⟩
      · exact Nat.lt_asymm hk (List.getElem?_eq_some_iff.mp hOld).1
      · exact Nat.lt_irrefl _ hk

/-- A history without operations on a scope says nothing of it. -/
theorem nothing_said {s : Nat} (h : ∀ op ∈ ops, op.scope ≠ s) :
    hasExited ops s = false ∧ (∀ name, boundIn ops s name = none) ∧
      ∀ i resource, ¬ Pending ops s i resource := by
  refine ⟨List.any_eq_false.mpr fun op hMem => ?_, fun name => ?_, fun i resource hPending => ?_⟩
  · cases op with
    | exit scope outcome => simpa [exits, ScopeOp.scope] using h _ hMem
    | _ => exact Bool.false_ne_true
  · refine List.findSome?_eq_none_iff.mpr fun op hOp => ?_
    have hMem := (List.takeWhile_prefix _).subset (List.mem_reverse.mp hOp)
    cases op with
    | bind scope other value => exact if_neg fun hSame => h _ hMem hSame.1
    | _ => rfl
  · exact h _ (List.mem_of_getElem? hPending.1) rfl

theorem allExist_snoc : ∀ (ops : List (ScopeOp ρ ε α)) (op : ScopeOp ρ ε α) (count : Nat),
    allExist count (ops ++ [op]) = true ↔
      allExist count ops = true ∧ op.scope < count + (ops.filterMap madeIn?).length := by
  intro ops op
  induction ops with
  | nil => simp [allExist]
  | cons first ops ih =>
      intro count
      rw [List.cons_append, allExist, allExist, Bool.and_eq_true, Bool.and_eq_true, ih, and_assoc]
      have hCount : count + first.madeIn?.toList.length + (ops.filterMap madeIn?).length =
          count + ((first :: ops).filterMap madeIn?).length := by
        cases first <;> simp +arith [madeIn?, List.filterMap_cons]
      rw [hCount]

end

end ScopeOp

/-! ## Releasing -/

/-- **All resources are released**, whatever fails on the way, and the first failure is
the one that counts. -/
theorem releaseAll_eq_mapM {ρ σ : Type} (release : ρ → StateM σ (Option Error)) :
    ∀ (resources : List ρ) (world : σ),
      releaseAll release resources world =
        ((resources.mapM release world).1.findSome? id, (resources.mapM release world).2) := by
  intro resources
  induction resources with
  | nil => exact fun _ => rfl
  | cons resource resources ih =>
      intro world
      have hAll : (resource :: resources).mapM release world =
          ((release resource world).1 :: (resources.mapM release (release resource world).2).1,
            (resources.mapM release (release resource world).2).2) := by
        rw [List.mapM_cons]
        rfl
      rw [hAll, List.findSome?_cons]
      show ((release resource world).1.or (releaseAll release resources _).1,
        (releaseAll release resources _).2) = _
      rw [ih (release resource world).2]
      cases (release resource world).1 <;> rfl

/-- A body that has failed keeps its error; otherwise a failed release counts. -/
theorem outcomeAfter_eq_bind {ε α : Type} (fail : Error → ε) (outcome : Except ε α)
    (failure : Option Error) :
    outcomeAfter fail outcome failure = outcome.bind fun value =>
      failure.elim (.ok value) fun error => .error (fail (.resource error.message)) := by
  cases outcome <;> cases failure <;> rfl

/-! ## Following a history -/

/-- A scope is what a history says of it. -/
structure Scope.Follows {ρ ε α : Type} (ops : List (ScopeOp ρ ε α)) (s : Nat) (scope : Scope ρ) :
    Prop where
  parent : scope.parent = ScopeOp.parentIn ops s
  vars : ∀ name, scope.vars.get? name = ScopeOp.boundIn ops s name
  frozen : scope.frozen = ScopeOp.hasExited ops s
  resources : ∃ held : List (Nat × ρ), held.Pairwise (fun later earlier => earlier.1 < later.1) ∧
    (∀ i resource, (i, resource) ∈ held ↔ ScopeOp.Pending ops s i resource) ∧
    scope.resources = held.map Prod.snd

/-- A scope before and after an operation somewhere in the tree. -/
structure Scope.Performs {ρ ε α : Type} (op : ScopeOp ρ ε α) (s : Nat) (before after : Scope ρ) :
    Prop where
  parent : after.parent = before.parent
  vars : ∀ name, after.vars.get? name =
    if before.frozen then before.vars.get? name
    else (op.binding? s name).or (before.vars.get? name)
  frozen : after.frozen = (before.frozen || op.exits s)
  resources : after.resources =
    if op.exits s then [] else (op.acquired? s).toList ++ before.resources

/-- An operation on another scope. -/
theorem Scope.Performs.other {ρ ε α : Type} {op : ScopeOp ρ ε α} {s : Nat} {scope : Scope ρ}
    (h : op.scope ≠ s) : scope.Performs op s scope := by
  have hExits : op.exits s = false := by
    cases op with
    | exit other outcome => exact decide_eq_false h
    | _ => rfl
  have hAcquired : op.acquired? s = none := by
    cases op with
    | acquire other resource => exact if_neg h
    | _ => rfl
  refine ⟨rfl, fun name => ?_, ?_, ?_⟩
  · have hBinding : op.binding? s name = none := by
      cases op with
      | bind other name' value => exact if_neg fun hSame => h hSame.1
      | _ => rfl
    rw [hBinding, Option.none_or, ite_self]
  · rw [hExits, Bool.or_false]
  · rw [hExits, hAcquired]
    rfl

/-- **What an operation makes of a scope is what the longer history says.** -/
theorem Scope.Follows.snoc {ρ ε α : Type} {ops : List (ScopeOp ρ ε α)} {s : Nat}
    {before after : Scope ρ} (h : before.Follows ops s) (hScope : s < (ScopeOp.parents ops).length)
    {op : ScopeOp ρ ε α} (hOp : before.Performs op s after) : after.Follows (ops ++ [op]) s := by
  obtain ⟨held, hOrder, hHeld, hResources⟩ := h.resources
  refine ⟨?_, fun name => ?_, ?_, ?_⟩
  · rw [ScopeOp.parentIn_snoc ops op hScope, hOp.parent, h.parent]
  · rw [ScopeOp.boundIn_snoc, hOp.vars, h.frozen, h.vars]
  · rw [ScopeOp.hasExited_snoc, hOp.frozen, h.frozen]
  · cases hExits : op.exits s with
    | true =>
        refine ⟨[], .nil, fun i resource => ?_, by rw [hOp.resources, if_pos hExits]; rfl⟩
        rw [ScopeOp.pending_snoc, hExits]
        refine iff_of_false (List.not_mem_nil) ?_
        rintro (⟨-, hFalse⟩ | ⟨-, rfl⟩)
        · cases hFalse
        · cases hExits
    | false =>
        have hRest := hOp.resources
        rw [hExits, if_neg Bool.false_ne_true, hResources] at hRest
        cases hAcquired : op.acquired? s with
        | none =>
            refine ⟨held, hOrder, fun i resource => ?_, by rw [hRest, hAcquired]; rfl⟩
            rw [ScopeOp.pending_snoc, hHeld, and_iff_left hExits, or_iff_left]
            rintro ⟨-, rfl⟩
            simp [ScopeOp.acquired?] at hAcquired
        | some acquired =>
            obtain rfl : op = .acquire s acquired := ScopeOp.eq_acquire hAcquired
            refine ⟨(ops.length, acquired) :: held, ?_, fun i resource => ?_, ?_⟩
            · refine List.pairwise_cons.mpr ⟨fun entry hMem => ?_, hOrder⟩
              have hGet := ((hHeld entry.1 entry.2).mp hMem).1
              exact (List.getElem?_eq_some_iff.mp hGet).1
            · rw [ScopeOp.pending_snoc, List.mem_cons, hHeld, and_iff_left hExits, or_comm]
              simp [eq_comm]
            · rw [hRest, hAcquired]
              rfl

theorem Scopes.isFrozen_eq {ρ : Type} {ss : Scopes ρ} {s : Nat} {scope : Scope ρ}
    (h : ss.table[s]? = some scope) : ss.isFrozen s = scope.frozen := by
  rw [Scopes.isFrozen, h]

/-- A tree of scopes is what a history says of it. -/
structure Scopes.Follows {ρ ε α : Type} (ops : List (ScopeOp ρ ε α)) (ss : Scopes ρ) : Prop where
  size : ss.table.size = (ScopeOp.parents ops).length
  scope : ∀ (s : Nat) (scope : Scope ρ), ss.table[s]? = some scope → scope.Follows ops s
  /-- A scope comes after the one around it. -/
  order : ∀ s parent, ScopeOp.parentIn ops s = some parent → parent < s
  within : ∀ op ∈ ops, op.scope < ss.table.size

namespace Scopes.Follows

variable {ρ σ ε α : Type} {ops : List (ScopeOp ρ ε α)} {ss : Scopes ρ}

theorem root : Follows ([] : List (ScopeOp ρ ε α)) (Scopes.root : Scopes ρ) where
  size := rfl
  scope s scope hScope := by
    match s with
    | 0 =>
        cases hScope
        exact ⟨rfl, fun _ => rfl, rfl, [], .nil, fun i resource => by simp [ScopeOp.Pending], rfl⟩
    | s + 1 => cases hScope
  order s parent hParent := by
    match s with
    | 0 => cases hParent
    | s + 1 => cases hParent
  within := List.forall_mem_nil _

/-- The scopes that there are keep their places. -/
theorem order_snoc (h : Follows ops ss) {op : ScopeOp ρ ε α} (hExists : op.scope < ss.table.size) :
    ∀ s parent, ScopeOp.parentIn (ops ++ [op]) s = some parent → parent < s := by
  intro s parent hParent
  rcases Nat.lt_or_ge s (ScopeOp.parents ops).length with hLt | hGe
  · rw [ScopeOp.parentIn_snoc ops op hLt] at hParent
    exact h.order s parent hParent
  · rw [ScopeOp.parentIn, ScopeOp.parents_snoc, List.getElem?_append_right hGe] at hParent
    cases op with
    | child scope =>
        have hSame : scope = parent := by
          cases hIndex : s - (ScopeOp.parents ops).length with
          | zero => simpa [hIndex, ScopeOp.madeIn?] using hParent
          | succ n => simp [hIndex, ScopeOp.madeIn?] at hParent
        exact hSame ▸ Nat.lt_of_lt_of_le hExists (h.size ▸ hGe)
    | _ => cases hParent

/-- An operation that makes no scope. -/
theorem snoc (h : Follows ops ss) {op : ScopeOp ρ ε α} (hExists : op.scope < ss.table.size)
    (hMade : op.madeIn? = none) {ss' : Scopes ρ} (hSize : ss'.table.size = ss.table.size)
    (hScopes : ∀ (s : Nat) (after : Scope ρ), ss'.table[s]? = some after →
      ∃ before, ss.table[s]? = some before ∧ before.Performs op s after) :
    Follows (ops ++ [op]) ss' where
  size := by
    rw [ScopeOp.parents_snoc, hMade, hSize, h.size]
    exact (congrArg List.length (List.append_nil _)).symm
  scope s after hAfter := by
    obtain ⟨before, hBefore, hPerforms⟩ := hScopes s after hAfter
    have hLt : s < ss.table.size := (Array.getElem?_eq_some_iff.mp hBefore).1
    exact (h.scope s before hBefore).snoc (h.size ▸ hLt) hPerforms
  order := h.order_snoc hExists
  within := by
    rw [hSize]
    exact List.forall_mem_append.mpr ⟨h.within, List.forall_mem_singleton.mpr hExists⟩

/-- An operation that changes its own scope only. -/
theorem modify (h : Follows ops ss) {op : ScopeOp ρ ε α} (hExists : op.scope < ss.table.size)
    (hMade : op.madeIn? = none) {f : Scope ρ → Scope ρ}
    (hChanged : ∀ scope, ss.table[op.scope]? = some scope → scope.Performs op op.scope (f scope)) :
    Follows (ops ++ [op]) ⟨ss.table.modify op.scope f⟩ := by
  refine h.snoc hExists hMade Array.size_modify fun s after hAfter => ?_
  rw [Array.getElem?_modify] at hAfter
  split at hAfter
  · rename_i hSame
    subst hSame
    obtain ⟨before, hBefore, rfl⟩ := Option.map_eq_some_iff.mp hAfter
    exact ⟨before, hBefore, hChanged before hBefore⟩
  · rename_i hOther
    exact ⟨after, hAfter, .other hOther⟩

theorem child (h : Follows ops ss) {parent : Nat} (hExists : parent < ss.table.size) :
    Follows (ops ++ [.child parent]) (ss.child parent).2 where
  size := by
    rw [ScopeOp.parents_snoc, List.length_append, ← h.size]
    exact Array.size_push _
  scope s after hAfter := by
    replace hAfter : (ss.table.push { parent := some parent })[s]? = some after := hAfter
    rw [Array.getElem?_push] at hAfter
    split at hAfter
    · rename_i hNew
      cases hAfter
      obtain ⟨hExited, hBound, hPending⟩ := ScopeOp.nothing_said ops fun op hMem =>
        Nat.ne_of_lt (hNew ▸ h.within op hMem)
      refine ⟨?_, fun name => ?_, ?_, [], .nil, fun i resource => ?_, rfl⟩
      · have hLast : (ScopeOp.parents ops ++ [some parent])[s]? = some (some parent) := by
          rw [hNew, h.size, List.getElem?_concat_length]
        rw [ScopeOp.parentIn, ScopeOp.parents_snoc]
        exact (congrArg Option.join hLast).symm
      · rw [ScopeOp.boundIn_snoc, hBound]
        exact (ite_self none).symm
      · rw [ScopeOp.hasExited_snoc, hExited]
        rfl
      · rw [ScopeOp.pending_snoc]
        simp [hPending]
    · have hLt : s < ss.table.size := (Array.getElem?_eq_some_iff.mp hAfter).1
      refine (h.scope s after hAfter).snoc (h.size ▸ hLt) ⟨rfl, fun name => ?_, ?_, rfl⟩
      · exact (ite_self _).symm
      · exact (Bool.or_false _).symm
  order := h.order_snoc hExists
  within := by
    have hSize : (ss.child parent).2.table.size = ss.table.size + 1 := Array.size_push _
    rw [hSize]
    refine List.forall_mem_append.mpr ⟨fun op hMem => ?_, List.forall_mem_singleton.mpr ?_⟩
    · exact Nat.lt_succ_of_lt (h.within op hMem)
    · exact Nat.lt_succ_of_lt hExists

/-- **What an operation leads to is what the longer history says.** -/
theorem perform (h : Follows ops ss) {op : ScopeOp ρ ε α} (hExists : op.scope < ss.table.size)
    (release : ρ → σ → Option Error × σ) (fail : Error → ε) (world : σ) :
    Follows (ops ++ [op]) (op.perform release fail (ss, world)).1 := by
  cases op with
  | child parent => exact h.child hExists
  | bind scope name value =>
      rw [ScopeOp.perform, Scopes.bind]
      cases hFrozen : ss.isFrozen scope with
      | true =>
          refine h.snoc hExists rfl rfl fun s before hBefore => ⟨before, hBefore, ?_⟩
          by_cases hScope : scope = s
          · subst hScope
            have hLeft : before.frozen = true := (Scopes.isFrozen_eq hBefore).symm.trans hFrozen
            exact ⟨rfl, fun _ => (if_pos hLeft).symm, (Bool.or_false _).symm, rfl⟩
          · exact .other hScope
      | false =>
          refine h.modify hExists rfl fun before hBefore => ⟨rfl, fun other => ?_, ?_, rfl⟩
          · have hOpen : before.frozen = false := by
              simpa [Scopes.isFrozen, show ss.table[scope]? = some before from hBefore] using hFrozen
            rw [hOpen, if_neg Bool.false_ne_true, Dict.get?_insert]
            by_cases hName : name = other <;> simp [ScopeOp.binding?, ScopeOp.scope, hName]
          · exact (Bool.or_false _).symm
  | acquire scope resource =>
      refine h.modify hExists rfl fun before _ => ⟨rfl, fun name => ?_, ?_, ?_⟩
      · exact (ite_self _).symm
      · exact (Bool.or_false _).symm
      · simp [ScopeOp.exits, ScopeOp.acquired?, ScopeOp.scope]
  | exit scope outcome =>
      refine h.modify hExists rfl fun before _ => ⟨rfl, fun name => ?_, ?_, ?_⟩
      · exact (ite_self _).symm
      · simp [ScopeOp.exits, ScopeOp.scope]
      · simp [ScopeOp.exits, ScopeOp.scope]

/-- **Every history leads to what it says.** -/
theorem play (release : ρ → σ → Option Error × σ) (fail : Error → ε) (world : σ) :
    ∀ {ops : List (ScopeOp ρ ε α)}, ScopeOp.allExist 1 ops = true →
      Follows ops (ScopeOp.play release fail world ops).1 := by
  intro ops
  induction ops using List.reverseRecOn with
  | nil => exact fun _ => root
  | append_singleton ops op ih =>
      intro hExist
      obtain ⟨hBefore, hExists⟩ := (ScopeOp.allExist_snoc ops op 1).mp hExist
      have hFollows := ih hBefore
      rw [ScopeOp.play_snoc]
      refine hFollows.perform ?_ release fail _
      rw [hFollows.size, ScopeOp.parents, List.length_cons, Nat.add_comm]
      exact hExists

/-! ## Looking up -/

/-- The scopes around one come before it, so that there are enough steps. -/
theorem chainWithin_eq (h : Follows ops ss) :
    ∀ (s steps : Nat), s < steps → ss.chainWithin steps s = ss.chain s := by
  intro s
  induction s using Nat.strong_induction_on with
  | _ s ih =>
      intro steps hSteps
      obtain ⟨steps, rfl⟩ : ∃ n, steps = n + 1 := ⟨steps - 1, by omega⟩
      rw [Scopes.chain, Scopes.chainWithin, Scopes.chainWithin]
      cases hScope : ss.table[s]? with
      | none => rfl
      | some scope =>
          simp only
          cases hParent : scope.parent with
          | none => rfl
          | some parent =>
              have hLt : parent < s := h.order s parent ((h.scope s scope hScope).parent ▸ hParent)
              simp only [ih parent hLt steps (by omega), ih parent hLt s hLt]

/-- **A name is looked up in a scope itself, and then in the scope around it.** -/
theorem get?_eq (h : Follows ops ss) {s : Nat} (hScope : s < ss.table.size) (name : String) :
    ss.get? s name = (ScopeOp.boundIn ops s name).or
      ((ScopeOp.parentIn ops s).bind fun parent => ss.get? parent name) := by
  have hGet : ss.table[s]? = some ss.table[s] := Array.getElem?_eq_getElem hScope
  have hFollows := h.scope s _ hGet
  rw [← hFollows.vars name, ← hFollows.parent, Scopes.get?, Scopes.chain, Scopes.chainWithin, hGet]
  simp only
  cases hParent : ss.table[s].parent with
  | none => simp only [List.findSome?_cons, List.findSome?_nil, Option.bind_none, Option.or_none]
            cases ss.table[s].vars.get? name <;> rfl
  | some parent =>
      have hLt : parent < s := h.order s parent (hFollows.parent ▸ hParent)
      simp only [h.chainWithin_eq parent s hLt, List.findSome?_cons, Option.bind_some, Scopes.get?]
      cases ss.table[s].vars.get? name <;> rfl

end Scopes.Follows

/-! ## Positions in a history -/

namespace ScopeOp

variable {ρ σ ε α : Type}

theorem allExist_take {ops : List (ScopeOp ρ ε α)} (j : Nat) :
    ∀ {count : Nat}, allExist count ops = true → allExist count (ops.take j) = true := by
  induction ops generalizing j with
  | nil => exact fun h => (congrArg (allExist _) List.take_nil).trans h
  | cons op ops ih =>
      intro count h
      cases j with
      | zero => rfl
      | succ j =>
          rw [allExist, Bool.and_eq_true] at h
          rw [List.take_succ_cons, allExist, Bool.and_eq_true]
          exact ⟨h.1, ih j h.2⟩

theorem take_succ_of_getElem? {ops : List (ScopeOp ρ ε α)} {j : Nat} {op : ScopeOp ρ ε α}
    (h : ops[j]? = some op) : ops.take (j + 1) = ops.take j ++ [op] := by
  rw [List.take_add_one, h]
  rfl

/-- An operation works on a scope that exists by then. -/
theorem exists_of_getElem? {ops : List (ScopeOp ρ ε α)} (h : allExist 1 ops = true) {j : Nat}
    {op : ScopeOp ρ ε α} (hOp : ops[j]? = some op) :
    op.scope < (parents (ops.take j)).length := by
  have hTake : allExist 1 (ops.take (j + 1)) = true := allExist_take (j + 1) h
  rw [take_succ_of_getElem? hOp, allExist_snoc] at hTake
  rw [parents, List.length_cons, Nat.add_comm]
  exact hTake.2

theorem pending_take {ops : List (ScopeOp ρ ε α)} {j s i : Nat} {resource : ρ} :
    Pending (ops.take j) s i resource ↔
      i < j ∧ ops[i]? = some (acquire s resource) ∧
        ∀ k outcome, i < k → k < j → ops[k]? ≠ some (exit s outcome) := by
  simp only [Pending, List.getElem?_take]
  grind

end ScopeOp

/-! ## Leaving scopes -/

namespace Scopes

/-- **Leaving a scope releases once, in reverse, whatever comes of it.**  Take any history of
operations on scopes that exist by then, and any moment of it.

If a scope is left then, the resources released are those that it has acquired since it was last
left, the last one first; all of them are, whatever fails; and the answer is the error of the
body, or else the first failure, or else the value.  If a name is bound then, nothing is
changed in a scope that has been left before, and the answer is an error; in any other scope
the name is bound.  And a name that is looked up is what it was bound to last in that scope
before the scope was first left, and otherwise what is found around it. -/
theorem exit_releases_once {ρ σ ε α : Type} (release : ρ → StateM σ (Option Error))
    (fail : Error → ε) (world : σ) {ops : List (ScopeOp ρ ε α)}
    (h : ScopeOp.allExist 1 ops = true) (j : Nat) {ss : Scopes ρ} {now : σ}
    (hPlay : ScopeOp.play release fail world (ops.take j) = (ss, now)) :
    (∀ s outcome, ops[j]? = some (.exit s outcome) →
      ∃ (held : List (Nat × ρ)) (failures : List (Option Error)) (later : σ),
        held.Pairwise (fun later earlier => earlier.1 < later.1) ∧
        (∀ i resource, (i, resource) ∈ held ↔
          i < j ∧ ops[i]? = some (.acquire s resource) ∧
            ∀ k outcome, i < k → k < j → ops[k]? ≠ some (.exit s outcome)) ∧
        (held.map Prod.snd).mapM release now = (failures, later) ∧
        ss.exit release fail s outcome now =
          (outcome.bind fun value => (failures.findSome? id).elim (.ok value)
              fun error => .error (fail (.resource error.message)), ss.freeze s, later) ∧
        ScopeOp.play release fail world (ops.take (j + 1)) = (ss.freeze s, later)) ∧
      (∀ s name value, ops[j]? = some (.bind s name value) →
        if ScopeOp.hasExited (ops.take j) s then
          ss.bind s name value = .error (.eval (.frozenScope name)) ∧
            ScopeOp.play release fail world (ops.take (j + 1)) = (ss, now)
        else
          ss.bind s name value = .ok (ss.put s name value) ∧
            ScopeOp.play release fail world (ops.take (j + 1)) = (ss.put s name value, now)) ∧
      ∀ s, s < (ScopeOp.parents (ops.take j)).length → ∀ name,
        ss.get? s name = (ScopeOp.boundIn (ops.take j) s name).or
          ((ScopeOp.parentIn (ops.take j) s).bind fun parent => ss.get? parent name) := by
  have hFollows : Follows (ops.take j) ss := by
    have hPlayed := Follows.play release fail world (ScopeOp.allExist_take j h)
    rwa [hPlay] at hPlayed
  have hNext : ∀ {op : ScopeOp ρ ε α}, ops[j]? = some op →
      ScopeOp.play release fail world (ops.take (j + 1)) = op.perform release fail (ss, now) := by
    intro op hOp
    rw [ScopeOp.take_succ_of_getElem? hOp, ScopeOp.play_snoc, hPlay]
  have hScopeAt : ∀ {op : ScopeOp ρ ε α}, ops[j]? = some op →
      ∃ scope, ss.table[op.scope]? = some scope ∧ scope.Follows (ops.take j) op.scope := by
    intro op hOp
    have hLt : op.scope < ss.table.size := hFollows.size ▸ ScopeOp.exists_of_getElem? h hOp
    exact ⟨_, Array.getElem?_eq_getElem hLt, hFollows.scope _ _ (Array.getElem?_eq_getElem hLt)⟩
  refine ⟨fun s outcome hExit => ?_, fun s name value hBind => ?_, fun s hScope name => ?_⟩
  · obtain ⟨scope, hGet, hScope⟩ := hScopeAt hExit
    obtain ⟨held, hOrder, hHeld, hResources⟩ := hScope.resources
    have hAll : ss.exit release fail s outcome now =
        (outcome.bind fun value =>
          (((held.map Prod.snd).mapM release now).1.findSome? id).elim (.ok value)
            fun error => .error (fail (.resource error.message)), ss.freeze s,
          ((held.map Prod.snd).mapM release now).2) := by
      rw [Scopes.exit, Scopes.resources, show ss.table[s]? = some scope from hGet]
      simp only [hResources, releaseAll_eq_mapM, outcomeAfter_eq_bind]
    refine ⟨held, _, _, hOrder, fun i resource => ?_, rfl, hAll, ?_⟩
    · rw [hHeld, ScopeOp.pending_take]
      rfl
    · rw [hNext hExit, ScopeOp.perform, hAll]
      rfl
  · obtain ⟨scope, hGet, hScope⟩ := hScopeAt hBind
    have hFrozen : ss.isFrozen s = ScopeOp.hasExited (ops.take j) s :=
      (isFrozen_eq hGet).trans hScope.frozen
    rw [hNext hBind, ScopeOp.perform, Scopes.bind, hFrozen]
    split
    · exact ⟨rfl, rfl⟩
    · exact ⟨rfl, rfl⟩
  · exact hFollows.get?_eq (hFollows.size ▸ hScope) name

/-- Two resources of an inner scope are released, the last one first and although it fails; then
nothing can be bound there, and a third resource is released when the scope is left again. -/
theorem exit_releases_once_of_reacquiring :
    let release : String → StateM (List String) (Option Error) := fun name log =>
      (if name = "b" then some (.eval (.frozenScope name)) else none, log ++ [name])
    let ops : List (ScopeOp String Error Nat) :=
      [.child 0, .bind 1 "x" (.int 1), .acquire 1 "a", .acquire 1 "b", .exit 1 (.ok 7),
        .bind 1 "x" (.int 2), .acquire 1 "c", .exit 1 (.ok 8)]
    let left := (ScopeOp.play release id [] (ops.take 5)).1
    ScopeOp.allExist 1 ops = true ∧
      ((ScopeOp.play release id [] (ops.take 4)).1.exit release id 1 (.ok 7) []).1 =
        .error (.resource (Error.eval (.frozenScope "b")).message) ∧
      left.bind 1 "x" (.int 2) = .error (.eval (.frozenScope "x")) ∧
      left.get? 1 "x" = some (.int 1) ∧
      (ScopeOp.play release id [] ops).2 = ["b", "a", "c"] := by
  intro release ops left
  have hExist : ScopeOp.allExist 1 ops = true := by decide
  have hPlay : ScopeOp.play release id [] (ops.take 5) = (left, ["b", "a"]) := rfl
  obtain ⟨-, hBind, hLookup⟩ := exit_releases_once release id [] hExist 5 hPlay
  have hRefused := hBind 1 "x" (.int 2) rfl
  rw [if_pos (by decide)] at hRefused
  exact ⟨hExist, rfl, hRefused.1, (hLookup 1 (by decide) "x").trans rfl, rfl⟩

end Scopes

end ClauseLisp
