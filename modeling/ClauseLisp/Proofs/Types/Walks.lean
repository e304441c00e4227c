import ClauseLisp.Proofs.Types.Growth
import ClauseLisp.Proofs.Types.Resolving
import ClauseLisp.Proofs.Types.Unification

/-!
# Walks through parents

Comparing, joining and matching types walk up: from a list to its elements and
from a declared name to its parent.  A declaration is only accepted for a name
that means nothing yet, and its parent may only mention names that do, so no walk
comes back to a name that it has left.  Walks end by themselves; the number of
steps that they are given decides nothing once it exceeds the height of the type
at which they start.

## Main results

* `Registry.Reached.takenNames_nodup` — each name has one meaning.
* `Registry.Reached.parent_earlier` — a parent only mentions types that were declared
  before its child.
* `Registry.Reached.acyclic` — the relation between parents and children is well-founded.
* `Registry.unifyWithin_of_high`, `Registry.joinWithin_of_high` — walks end.
-/

namespace ClauseLisp

namespace Dict

variable {α : Type}

theorem mem_keys_iff (d : Dict α) (name : String) : name ∈ d.keys ↔ d.contains name = true := by
  obtain ⟨entries⟩ := d
  simp only [keys, contains, get?]
  induction entries with
  | nil => simp [find]
  | cons entry entries ih =>
      obtain ⟨key, value⟩ := entry
      rw [find, List.map_cons, List.mem_cons, ih]
      by_cases hKey : key = name
      · simp [hKey]
      · simp [hKey, Ne.symm hKey]

theorem keys_insert_of_new {d : Dict α} {name : String} (value : α)
    (hNew : d.contains name = false) : (d.insert name value).keys = d.keys ++ [name] := by
  have hNone : find d.entries name = none := by
    rw [contains, Option.isSome_eq_false_iff, Option.isNone_iff_eq_none] at hNew
    exact hNew
  rw [keys, insert, put_eq_append value hNone, List.map_append]
  rfl

end Dict

namespace Ty.Registry

variable {r : Registry}

/-! ## One meaning for each name -/

/-- All names that mean something: the built-in types, the variables that need no
declaration, the declared types and the declared variables. -/
def takenNames (r : Registry) : List String :=
  builtinNames ++ variableNames ++ r.parents.keys ++ r.bounds.keys

theorem mem_takenNames_iff (name : String) : name ∈ r.takenNames ↔ r.isTaken name = true := by
  simp only [takenNames, isTaken, List.mem_append, Dict.mem_keys_iff, Bool.or_eq_true,
    List.contains_iff_mem]

theorem contains_of_isTaken_eq_false {name : String} (h : r.isTaken name = false) :
    r.parents.contains name = false ∧ r.bounds.contains name = false := by
  simp only [isTaken, Bool.or_eq_false_iff] at h
  exact ⟨h.1.2, h.2⟩

/-- **Each name has one meaning**: it is built in, a variable, a declared type or a
declared variable, and is declared once. -/
theorem Reached.takenNames_nodup (hr : r.Reached) : r.takenNames.Nodup := by
  have hFresh : ∀ {r : Registry} {name : String} {names : List String}, r.takenNames.Nodup →
      r.isTaken name = false → names.Perm (name :: r.takenNames) → names.Nodup := by
    intro r name names hNodup hFree hPerm
    rw [hPerm.nodup_iff, List.nodup_cons, mem_takenNames_iff, hFree]
    exact ⟨Bool.false_ne_true, hNodup⟩
  induction hr with
  | empty => decide
  | @declare r _ name _ _ hDeclare ih =>
      obtain ⟨hFree, resolved, -, -, rfl⟩ := declare_ok hDeclare
      refine hFresh ih hFree ?_
      have hPerm : (builtinNames ++ variableNames ++ r.parents.keys ++ name :: r.bounds.keys).Perm
          (name :: r.takenNames) := List.perm_middle
      rw [takenNames, Dict.keys_insert_of_new resolved (contains_of_isTaken_eq_false hFree).1]
      simpa only [List.append_assoc, List.singleton_append] using hPerm
  | @declareVariable r _ name _ _ hDeclare ih =>
      obtain ⟨hFree, resolved, -, rfl⟩ := declareVariable_ok hDeclare
      refine hFresh ih hFree ?_
      rw [takenNames, Dict.keys_insert_of_new resolved (contains_of_isTaken_eq_false hFree).2,
        ← List.append_assoc]
      exact List.perm_append_singleton name r.takenNames

/-! ## Parents -/

/-- What is true of the parent of a declared name when it is declared: it has no
variables, has been resolved, and mentions built-in names and declared types only. -/
structure EarlierParent (r : Registry) (parent : Ty) : Prop where
  closed : parent.hasVars = false
  resolved : r.resolve parent = .ok parent
  declared : ∀ name ∈ parent.names, builtinNames.contains name = true ∨ r.isDeclared name = true

mutual

/-- The names in a resolved type without variables are those of types. -/
theorem declared_of_resolved : ∀ {t : Ty}, t.hasVars = false → r.resolve t = .ok t →
    ∀ name ∈ t.names, builtinNames.contains name = true ∨ r.isDeclared name = true
  | .named _, _, h, _, hName => by
    cases List.mem_singleton.mp hName
    exact known_of_resolve h
  | .func, _, _, _, hName => nomatch hName
  | .list elem, hVars, h, _, hName => by
    obtain ⟨_, hElem, hSame⟩ := resolve_list_ok h
    cases hSame
    exact declared_of_resolved (t := elem) hVars hElem _ hName
  | .arrow params ret, hVars, h, name, hName => by
    obtain ⟨_, _, hParams, hRet, hSame⟩ := resolve_arrow_ok h
    cases hSame
    rw [hasVars, Bool.or_eq_false_iff] at hVars
    rw [names, List.mem_append] at hName
    rcases hName with hName | hName
    · exact declared_of_resolvedAll hVars.1 hParams name hName
    · exact declared_of_resolved hVars.2 hRet name hName

theorem declared_of_resolvedAll : ∀ {ts : List Ty}, anyVars ts = false → r.resolveAll ts = .ok ts →
    ∀ name ∈ namesOfAll ts, builtinNames.contains name = true ∨ r.isDeclared name = true
  | [], _, _, _, hName => nomatch hName
  | t :: ts, hVars, h, name, hName => by
    obtain ⟨_, _, hFirst, hOthers, hSame⟩ := resolveAll_cons_ok h
    cases hSame
    rw [anyVars, Bool.or_eq_false_iff] at hVars
    rw [namesOfAll, List.mem_append] at hName
    rcases hName with hName | hName
    · exact declared_of_resolved hVars.1 hFirst name hName
    · exact declared_of_resolvedAll hVars.2 hOthers name hName

end

/-- **A parent only mentions what was declared before its child.** -/
theorem Reached.parent_earlier (hr : r.Reached) {name : String} {parent : Ty}
    (h : r.parent? name = some parent) :
    ∃ r₀ : Registry, r₀.Reached ∧ r₀.Declares r ∧ r₀.isTaken name = false ∧
      r₀.EarlierParent parent := by
  induction hr with
  | empty => cases h
  | @declare r₀ _ child _ hBefore hDeclare ih =>
      have hStep : r₀.Declares _ := .declare .refl hDeclare
      obtain ⟨hFree, resolved, hResolved, hClosed, rfl⟩ := declare_ok hDeclare
      replace h : (r₀.parents.insert child resolved).get? name = some parent := h
      rw [Dict.get?_insert] at h
      split at h
      · rename_i hName
        cases h
        subst hName
        have hFixed := resolve_resolved hResolved
        exact ⟨r₀, hBefore, hStep, hFree, hClosed, hFixed, declared_of_resolved hClosed hFixed⟩
      · obtain ⟨first, hReached, hLater, hRest⟩ := ih h
        exact ⟨first, hReached, hLater.trans hStep, hRest⟩
  | @declareVariable r₀ _ _ _ _ hDeclare ih =>
      rw [parent?_declareVariable hDeclare name] at h
      obtain ⟨first, hReached, hLater, hRest⟩ := ih h
      exact ⟨first, hReached, hLater.trans (.declareVariable .refl hDeclare), hRest⟩

/-- Whether a name occurs in the parent of another. -/
def OccursAbove (r : Registry) (above name : String) : Prop :=
  ∃ parent, r.parent? name = some parent ∧ above ∈ parent.names

mutual

/-- No name in a type without variables is higher than the type. -/
theorem fullHeight_named_le (r : Registry) :
    ∀ {t : Ty}, t.hasVars = false → ∀ name ∈ t.names, r.fullHeight (.named name) ≤ r.fullHeight t
  | .named _, _, _, hName => by
    cases List.mem_singleton.mp hName
    exact Nat.le_refl _
  | .func, _, _, hName => nomatch hName
  | .list elem, hVars, name, hName => by
    have hElem := fullHeight_named_le r (t := elem) hVars name hName
    rw [fullHeight_list]
    omega
  | .arrow params ret, hVars, name, hName => by
    rw [hasVars, Bool.or_eq_false_iff] at hVars
    rw [names, List.mem_append] at hName
    rcases hName with hName | hName
    · obtain ⟨t, ht, hLe⟩ := exists_fullHeight_named_le r hVars.1 name hName
      have hLt := fullHeight_lt_of_mem r ht ret
      omega
    · have hRet := fullHeight_named_le r hVars.2 name hName
      have hLt := fullHeight_ret_lt r params ret
      omega

theorem exists_fullHeight_named_le (r : Registry) :
    ∀ {ts : List Ty}, anyVars ts = false → ∀ name ∈ namesOfAll ts,
      ∃ t ∈ ts, r.fullHeight (.named name) ≤ r.fullHeight t
  | [], _, _, hName => nomatch hName
  | t :: ts, hVars, name, hName => by
    rw [anyVars, Bool.or_eq_false_iff] at hVars
    rw [namesOfAll, List.mem_append] at hName
    rcases hName with hName | hName
    · exact ⟨t, List.mem_cons_self, fullHeight_named_le r hVars.1 name hName⟩
    · obtain ⟨u, hu, hLe⟩ := exists_fullHeight_named_le r hVars.2 name hName
      exact ⟨u, List.mem_cons_of_mem t hu, hLe⟩

end

/-- **Parents form no cycle**: each step to a name in the parent goes down. -/
theorem Reached.acyclic (hr : r.Reached) : WellFounded r.OccursAbove := by
  refine Subrelation.wf (r := InvImage (· < ·) fun name => r.fullHeight (.named name)) ?_
    (InvImage.wf _ Nat.lt_wfRel.wf)
  rintro above name ⟨parent, hParent, hName⟩
  have hLe := fullHeight_named_le r (hr.hasVars_parent hParent) above hName
  have hUp := hr.fullHeight_named hParent
  show r.fullHeight (.named above) < r.fullHeight (.named name)
  omega

/-! ## The ends of walks -/

/-- The order followed with more steps than a type is high is the order without a
limit. -/
theorem leWithin_iff_below (hr : r.Reached) {a b : Ty} {steps : Nat} (h : r.height a < steps) :
    r.leWithin steps a b = true ↔ Below r a b :=
  ⟨below_of_leWithin, fun hBelow => leWithin_of_below hr hBelow h⟩

theorem unifyEach_congr {match₁ match₂ : Ty → Ty → Bindings → Bool × Bindings} :
    ∀ {ds as : List Ty} (b : Bindings),
      (∀ d, ∀ a ∈ as, ∀ b, match₁ d a b = match₂ d a b) →
      unifyEach match₁ ds as b = unifyEach match₂ ds as b
  | [], [], _, _ => rfl
  | [], _ :: _, _, _ => rfl
  | _ :: _, [], _, _ => rfl
  | d :: ds, a :: as, b, h => by
    rw [unifyEach, unifyEach, h d a List.mem_cons_self b]
    split
    · exact unifyEach_congr _ fun d a ha => h d a (List.mem_cons_of_mem _ ha)
    · rfl

theorem unifySignature_congr {match₁ match₂ : Ty → Ty → Bindings → Bool × Bindings} {qs : List Ty}
    {u : Ty}
    (h : ∀ d a b, r.fullHeight a < r.fullHeight (.arrow qs u) → match₁ d a b = match₂ d a b)
    (ps : List Ty) (t : Ty) (b : Bindings) :
    unifySignature match₁ ps t qs u b = unifySignature match₂ ps t qs u b := by
  have hParams : unifyEach match₁ ps qs b = unifyEach match₂ ps qs b :=
    unifyEach_congr b fun d a ha b => h d a b (fullHeight_lt_of_mem r ha u)
  rw [unifySignature, unifySignature, hParams]
  split
  · split
    · exact h t u _ (fullHeight_ret_lt r qs u)
    · rfl
  · rfl

/-- The exact match ends, whatever the number of steps, if it exceeds the height. -/
theorem matchExactlyWithin_of_high (r : Registry) :
    ∀ (m n : Nat) (declared : Ty) {actual : Ty} (b : Bindings),
      r.fullHeight actual < m → r.fullHeight actual < n →
      r.matchExactlyWithin m declared actual b = r.matchExactlyWithin n declared actual b := by
  intro m
  induction m with
  | zero => exact fun _ _ _ _ hm => nomatch hm
  | succ m ih =>
      intro n declared actual b hm hn
      obtain ⟨n, rfl⟩ : ∃ k, n = k + 1 := ⟨n - 1, by omega⟩
      unfold matchExactlyWithin
      split
      · rfl
      · rw [fullHeight_list] at hm hn
        exact ih n _ b (by omega) (by omega)
      · exact unifySignature_congr (r := r)
          (fun d a b ha => ih n d b (by omega) (by omega)) _ _ b
      · rfl

/-- **Matches end**, whatever the number of steps, if it exceeds the height. -/
theorem unifyWithin_of_high (hr : r.Reached) :
    ∀ (m n : Nat) (declared : Ty) {actual : Ty} (b : Bindings),
      r.fullHeight actual < m → r.fullHeight actual < n →
      r.unifyWithin m declared actual b = r.unifyWithin n declared actual b := by
  intro m
  induction m with
  | zero => exact fun _ _ _ _ hm => nomatch hm
  | succ m ih =>
      intro n declared actual b hm hn
      obtain ⟨n, rfl⟩ : ∃ k, n = k + 1 := ⟨n - 1, by omega⟩
      unfold unifyWithin
      split
      · rfl
      · cases actual with
        | named name =>
            cases hParent : r.parent? name with
            | none => cases declared <;> simp only [hParent]
            | some parent =>
                rw [hr.fullHeight_named hParent] at hm hn
                have hUp : r.unifyWithin m declared parent b = r.unifyWithin n declared parent b :=
                  ih n declared b (by omega) (by omega)
                cases declared <;> simp only [hParent, hUp]
        | list elem =>
            rw [fullHeight_list] at hm hn
            cases declared with
            | list d => exact ih n d b (by omega) (by omega)
            | _ => rfl
        | func => cases declared <;> rfl
        | arrow params ret =>
            cases declared with
            | arrow ps t =>
                exact unifySignature_congr (r := r) (fun d a b ha =>
                  matchExactlyWithin_of_high r m n d b (by omega) (by omega)) ps t b
            | _ => rfl
        | var name => cases declared <;> rfl

/-- Joins end, whatever the number of steps, if it exceeds the height. -/
theorem joinWithin_of_high (hr : r.Reached) :
    ∀ (m n : Nat) {a : Ty} (b : Ty), r.height a < m → r.height a < n →
      r.joinWithin m a b = r.joinWithin n a b := by
  intro m
  induction m with
  | zero => exact fun _ _ _ hm => nomatch hm
  | succ m ih =>
      intro n a b hm hn
      obtain ⟨n, rfl⟩ : ∃ k, n = k + 1 := ⟨n - 1, by omega⟩
      unfold joinWithin
      split
      · rfl
      · split
        · rfl
        · cases a with
          | named name =>
              cases hParent : r.parent? name with
              | none => simp only [hParent]
              | some parent =>
                  rw [hr.height_named hParent] at hm hn
                  simp only [hParent]
                  exact ih n b (by omega) (by omega)
          | list x =>
              rw [height_list] at hm hn
              cases b with
              | list y => exact congrArg Ty.list (ih n y (by omega) (by omega))
              | _ => rfl
          | func => cases b <;> rfl
          | arrow params ret => cases b <;> rfl
          | var name => rfl

/-- List layers and what is above the innermost name make up the height. -/
private theorem heightOver_le {h : String → Nat} {most : Nat} (hMost : ∀ name, h name ≤ most) :
    ∀ t : Ty, heightOver false h t ≤ t.layers + most
  | .named name => by
    have hName := hMost name
    rw [heightOver]
    omega
  | .list elem => by
    have hElem := heightOver_le hMost elem
    rw [heightOver, layers]
    omega
  | .func => Nat.zero_le _
  | .arrow _ _ => Nat.zero_le _
  | .var _ => Nat.zero_le _

private theorem foldl_raise_le : ∀ (entries : List (String × Ty)) {h : String → Nat} {most : Nat},
    (∀ name, h name ≤ most) →
    ∀ name, entries.foldl (raise false) h name ≤ declaredLayers entries + most
  | [], _, most, hMost, name => by
    have hName := hMost name
    rw [List.foldl_nil, declaredLayers]
    omega
  | entry :: entries, h, most, hMost, name => by
    have hRaised : ∀ name, raise false h entry name ≤ entry.2.layers + 1 + most := by
      intro name
      have hParent := heightOver_le hMost entry.2
      have hName := hMost name
      rw [raise]
      split <;> omega
    have hOthers := foldl_raise_le entries hRaised name
    rw [List.foldl_cons, declaredLayers]
    omega

/-- The steps that a join is given are more than the type is high. -/
theorem height_lt_steps (r : Registry) (t : Ty) : r.height t < r.steps t := by
  have hNames : ∀ name, nameHeight false r.parents.entries name ≤
      declaredLayers r.parents.entries := by
    have hNone : ∀ name : String, (fun _ => 0 : String → Nat) name ≤ 0 := fun _ => Nat.le_refl 0
    exact foldl_raise_le r.parents.entries hNone
  have hHeight : r.height t ≤ t.layers + declaredLayers r.parents.entries := heightOver_le hNames t
  rw [steps]
  omega

/-- **A join is what it would be with any greater number of steps.** -/
theorem joinWithin_eq_join (hr : r.Reached) {a b : Ty} {n : Nat} (h : r.height a < n) :
    r.joinWithin n a b = r.join a b :=
  joinWithin_of_high hr n (r.steps a) b h (r.height_lt_steps a)

end Ty.Registry

end ClauseLisp
