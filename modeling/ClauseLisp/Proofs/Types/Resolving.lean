import ClauseLisp.Proofs.Types.Height

/-!
# Resolving types

A type as it is written only has names; resolving it tells the variables among
them from the types and refuses names without a meaning.  Nothing else changes: a
resolved type has the names of the written one, all of them are taken, and it
resolves to itself.

## Main results

* `Registry.names_of_resolve`, `Registry.settled_of_resolve` — a type that resolves has
  only names that are taken, and so has what it resolves to.
* `Registry.resolve_resolved` — resolving twice is resolving once.
-/

namespace ClauseLisp.Ty

mutual

/-- The names in a type, those of its variables included. -/
def names : Ty → List String
  | .named name => [name]
  | .var name => [name]
  | .func => []
  | .list elem => names elem
  | .arrow params ret => namesOfAll params ++ names ret

/-- The names in several types. -/
def namesOfAll : List Ty → List String
  | [] => []
  | t :: ts => names t ++ namesOfAll ts

end

namespace Registry

variable {r r' : Registry}

/-! ## Known types -/

theorem knows_of_parent? (hr : r.Reached) {name : String} {parent : Ty}
    (h : r.parent? name = some parent) : r.knows parent = true :=
  hr.layered.known name parent h

theorem knowsAll_iff : ∀ {ts : List Ty}, r.knowsAll ts = true ↔ ∀ t ∈ ts, r.knows t = true
  | [] => by simp [knowsAll]
  | t :: ts => by rw [knowsAll, Bool.and_eq_true, knowsAll_iff, List.forall_mem_cons]

theorem knows_arrow {params : List Ty} {ret : Ty} :
    r.knows (.arrow params ret) = true ↔
      (∀ t ∈ params, r.knows t = true) ∧ r.knows ret = true := by
  rw [knows, Bool.and_eq_true, knowsAll_iff]

/-- Whether all names in a type are taken, those of its variables included. -/
def Settled (r : Registry) (t : Ty) : Prop := ∀ name ∈ t.names, r.isTaken name = true

namespace Settled

theorem arrow {params : List Ty} {ret : Ty} (h : r.Settled (.arrow params ret)) :
    (∀ t ∈ params, r.Settled t) ∧ r.Settled ret := by
  have hMem : ∀ {ts : List Ty}, ∀ t ∈ ts, ∀ name ∈ t.names, name ∈ namesOfAll ts := by
    intro ts
    induction ts with
    | nil => exact fun t h => nomatch h
    | cons first others ih =>
        intro t ht name hName
        rw [namesOfAll]
        rcases List.mem_cons.mp ht with rfl | ht
        · exact List.mem_append_left _ hName
        · exact List.mem_append_right _ (ih t ht name hName)
  constructor
  · intro t ht name hName
    exact h name (List.mem_append_left _ (hMem t ht name hName))
  · intro name hName
    exact h name (List.mem_append_right _ hName)

end Settled

/-! ## Resolving -/

theorem isTaken_of_isVariable {name : String} (h : r.isVariable name = true) :
    r.isTaken name = true := by
  simp only [isVariable, Bool.or_eq_true] at h
  simp only [isTaken, Bool.or_eq_true]
  rcases h with h | h
  · exact .inl (.inl (.inr h))
  · exact .inr h

theorem isTaken_of_isDeclared {name : String} (h : r.isDeclared name = true) :
    r.isTaken name = true := by
  simp only [isDeclared] at h
  simp only [isTaken, Bool.or_eq_true]
  exact .inl (.inr h)

/-- A name that means something means what it does because it is taken. -/
theorem isTaken_of_resolveName {name : String} {t : Ty} (h : r.resolveName name = .ok t) :
    r.isTaken name = true := by
  rw [resolveName] at h
  split at h
  · rename_i hVariable
    exact isTaken_of_isVariable hVariable
  · split at h
    · rename_i hKnown
      simp only [Bool.or_eq_true] at hKnown
      rcases hKnown with hKnown | hKnown
      · simp only [isTaken, Bool.or_eq_true]
        exact .inl (.inl (.inl hKnown))
      · exact isTaken_of_isDeclared hKnown
    · cases h

theorem names_of_resolveName {name : String} {t : Ty} (h : r.resolveName name = .ok t) :
    t.names = [name] := by
  rw [resolveName] at h
  split at h
  · cases h
    rfl
  · split at h
    · cases h
      rfl
    · cases h

/-- What a name means, it means as a type as well. -/
theorem resolve_of_resolveName {name : String} {t : Ty} (h : r.resolveName name = .ok t) :
    r.resolve t = .ok t := by
  have hName := h
  rw [resolveName] at hName
  split at hName
  · cases hName
    rfl
  · split at hName
    · cases hName
      exact h
    · cases hName

theorem resolve_list_ok {elem t : Ty} (h : r.resolve (.list elem) = .ok t) :
    ∃ elem', r.resolve elem = .ok elem' ∧ t = .list elem' := by
  rw [Registry.resolve] at h
  split at h
  · rename_i elem' hElem
    cases h
    exact ⟨elem', hElem, rfl⟩
  · cases h

theorem resolve_arrow_ok {params : List Ty} {ret t : Ty}
    (h : r.resolve (.arrow params ret) = .ok t) :
    ∃ params' ret', r.resolveAll params = .ok params' ∧ r.resolve ret = .ok ret' ∧
      t = .arrow params' ret' := by
  rw [Registry.resolve] at h
  split at h
  · cases h
  · rename_i params' hParams
    split at h
    · rename_i ret' hRet
      cases h
      exact ⟨params', ret', hParams, hRet, rfl⟩
    · cases h

theorem resolveAll_cons_ok {t : Ty} {ts us : List Ty} (h : r.resolveAll (t :: ts) = .ok us) :
    ∃ u us', r.resolve t = .ok u ∧ r.resolveAll ts = .ok us' ∧ us = u :: us' := by
  rw [resolveAll] at h
  split at h
  · cases h
  · rename_i u hFirst
    split at h
    · rename_i us' hOthers
      cases h
      exact ⟨u, us', hFirst, hOthers, rfl⟩
    · cases h

mutual

/-- Resolving says of names what they mean; it brings in no other names. -/
theorem names_of_resolve : ∀ {t u : Ty}, r.resolve t = .ok u → u.names = t.names
  | .named _, _, h => names_of_resolveName h
  | .var _, _, h => by
    cases h
    rfl
  | .func, _, h => by
    cases h
    rfl
  | .list elem, _, h => by
    obtain ⟨elem', hElem, rfl⟩ := resolve_list_ok h
    rw [names, names, names_of_resolve hElem]
  | .arrow params ret, _, h => by
    obtain ⟨params', ret', hParams, hRet, rfl⟩ := resolve_arrow_ok h
    rw [names, names, namesOfAll_of_resolveAll hParams, names_of_resolve hRet]

theorem namesOfAll_of_resolveAll :
    ∀ {ts us : List Ty}, r.resolveAll ts = .ok us → namesOfAll us = namesOfAll ts
  | [], _, h => by
    cases h
    rfl
  | t :: ts, _, h => by
    obtain ⟨u, us, hFirst, hOthers, rfl⟩ := resolveAll_cons_ok h
    rw [namesOfAll, namesOfAll, names_of_resolve hFirst, namesOfAll_of_resolveAll hOthers]

end

mutual

/-- All names of a type without variables are taken, if it resolves. -/
theorem settled_of_resolve :
    ∀ {t u : Ty}, t.hasVars = false → r.resolve t = .ok u → r.Settled t
  | .named _, _, _, h, _, hName => by
    cases List.mem_singleton.mp hName
    exact isTaken_of_resolveName h
  | .var _, _, hVars, _, _, _ => nomatch hVars
  | .func, _, _, _, _, hName => nomatch hName
  | .list elem, _, hVars, h, _, hName => by
    obtain ⟨_, hElem, -⟩ := resolve_list_ok h
    exact settled_of_resolve (t := elem) hVars hElem _ hName
  | .arrow params ret, _, hVars, h, name, hName => by
    obtain ⟨_, _, hParams, hRet, -⟩ := resolve_arrow_ok h
    rw [hasVars, Bool.or_eq_false_iff] at hVars
    rw [names, List.mem_append] at hName
    rcases hName with hName | hName
    · exact settledAll_of_resolveAll hVars.1 hParams name hName
    · exact settled_of_resolve hVars.2 hRet name hName

theorem settledAll_of_resolveAll :
    ∀ {ts us : List Ty}, anyVars ts = false → r.resolveAll ts = .ok us →
      ∀ name ∈ namesOfAll ts, r.isTaken name = true
  | [], _, _, _, _, hName => nomatch hName
  | t :: ts, _, hVars, h, name, hName => by
    obtain ⟨_, _, hFirst, hOthers, -⟩ := resolveAll_cons_ok h
    rw [anyVars, Bool.or_eq_false_iff] at hVars
    rw [namesOfAll, List.mem_append] at hName
    rcases hName with hName | hName
    · exact settled_of_resolve hVars.1 hFirst name hName
    · exact settledAll_of_resolveAll hVars.2 hOthers name hName

end

mutual

/-- A type that has been resolved resolves to itself. -/
theorem resolve_resolved : ∀ {t u : Ty}, r.resolve t = .ok u → r.resolve u = .ok u
  | .named _, _, h => resolve_of_resolveName h
  | .var _, _, h => by
    cases h
    rfl
  | .func, _, h => by
    cases h
    rfl
  | .list elem, _, h => by
    obtain ⟨elem', hElem, rfl⟩ := resolve_list_ok h
    rw [Registry.resolve, resolve_resolved hElem]
  | .arrow params ret, _, h => by
    obtain ⟨params', ret', hParams, hRet, rfl⟩ := resolve_arrow_ok h
    rw [Registry.resolve, resolveAll_resolved hParams, resolve_resolved hRet]

theorem resolveAll_resolved :
    ∀ {ts us : List Ty}, r.resolveAll ts = .ok us → r.resolveAll us = .ok us
  | [], _, h => by
    cases h
    rfl
  | t :: ts, _, h => by
    obtain ⟨u, us, hFirst, hOthers, rfl⟩ := resolveAll_cons_ok h
    rw [resolveAll, resolve_resolved hFirst, resolveAll_resolved hOthers]

end

end Registry

end ClauseLisp.Ty
