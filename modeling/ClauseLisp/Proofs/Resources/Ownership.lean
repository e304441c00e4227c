import ClauseLisp.Proofs.Frame.Loop

/-!
# Who has to close a file

An open file belongs to a scope, which closes it when it is left, or to the machine,
as long as no scope has taken it over.  No move of the machine drops an open file:
opening makes it unclaimed, `set'` hands what is new over to one scope, and a scope
gives its files up only when they are closed.

`Undisturbed` says so together with what else evaluation leaves as it was: the scopes
that it may not write to, the resources of all scopes but one, the handles of files, and
the files that were unclaimed already.

## Main results

* `undisturbed_frame` — every move of the machine keeps `Undisturbed`.
* `exec_undisturbed` — so does everything that the machine can be asked to do.
-/

namespace ClauseLisp

/-! ## Releasing files -/

/-- Releasing closes what is named, and leaves all other files as they are. -/
theorem getElem?_releaseAll (handle : Nat) :
    ∀ (handles : List Nat) (streams : Array Stream),
      (releaseAll State.closeStream handles streams).2[handle]? =
        if handle ∈ handles then streams[handle]?.map Stream.close else streams[handle]? := by
  intro handles
  induction handles with
  | nil => exact fun streams => by simp [releaseAll]
  | cons first handles ih =>
      intro streams
      have hRelease : (releaseAll State.closeStream (first :: handles) streams).2 =
          (releaseAll State.closeStream handles (streams.modify first Stream.close)).2 := rfl
      rw [hRelease, ih, Array.getElem?_modify]
      by_cases hFirst : first = handle
      · have hTwice : Stream.close ∘ Stream.close = Stream.close := rfl
        by_cases hRest : handle ∈ handles <;> simp [hFirst, hRest, hTwice]
      · simp [hFirst, Ne.symm hFirst]

/-- What is open after a release was open before, and is not among what was released. -/
theorem open_of_releaseAll {handles : List Nat} {streams : Array Stream} {handle : Nat}
    {stream : Stream}
    (h : (releaseAll State.closeStream handles streams).2[handle]? = some stream)
    (hOpen : stream.isOpen = true) : handle ∉ handles ∧ streams[handle]? = some stream := by
  rw [getElem?_releaseAll] at h
  by_cases hMem : handle ∈ handles
  · rw [if_pos hMem] at h
    obtain ⟨before, -, rfl⟩ := Option.map_eq_some_iff.mp h
    cases hOpen
  · rw [if_neg hMem] at h
    exact ⟨hMem, h⟩

/-- A file as it was, and as it is later: once it is closed, it stays closed. -/
def Stream.BecomesLater (before after : Stream) : Prop :=
  after.path = before.path ∧ (after.isOpen = true → before.isOpen = true)

/-- Reading does not open a file that has been closed. -/
theorem Stream.becomesLater_read (stream : Stream) : stream.BecomesLater stream.read.2 := by
  obtain ⟨path, source⟩ := stream
  rcases source with _ | bytes | _
  · exact ⟨rfl, id⟩
  · refine ⟨?_, fun _ => rfl⟩
    unfold Stream.read
    dsimp only
    split <;> rfl
  · exact ⟨rfl, id⟩

/-- All files are still known by their handles. -/
def FilesKept (before after : Array Stream) : Prop :=
  ∀ (handle : Nat) (stream : Stream), before[handle]? = some stream →
    ∃ later, after[handle]? = some later ∧ stream.BecomesLater later

namespace FilesKept

theorem refl (streams : Array Stream) : FilesKept streams streams := fun _ stream h =>
  ⟨stream, h, rfl, id⟩

theorem trans {before between after : Array Stream} (h : FilesKept before between)
    (h' : FilesKept between after) : FilesKept before after := by
  intro handle stream hStream
  obtain ⟨first, hFirst, hPath, hOpen⟩ := h handle stream hStream
  obtain ⟨later, hLater, hPath', hOpen'⟩ := h' handle first hFirst
  exact ⟨later, hLater, hPath'.trans hPath, fun hIsOpen => hOpen (hOpen' hIsOpen)⟩

theorem push (streams : Array Stream) (stream : Stream) :
    FilesKept streams (streams.push stream) := by
  intro handle found hFound
  have hOld : handle ≠ streams.size :=
    Nat.ne_of_lt (Array.getElem?_eq_some_iff.mp hFound).1
  exact ⟨found, by rw [Array.getElem?_push, if_neg hOld, hFound], rfl, id⟩

theorem read {streams : Array Stream} {index : Nat} {stream : Stream}
    (h : streams[index]? = some stream) :
    FilesKept streams (streams.modify index fun _ => stream.read.2) := by
  intro handle found hFound
  rw [Array.getElem?_modify]
  by_cases hRead : index = handle
  · subst hRead
    rw [h, Option.some.injEq] at hFound
    subst hFound
    exact ⟨stream.read.2, by rw [if_pos rfl, h]; rfl, stream.becomesLater_read⟩
  · exact ⟨found, by rw [if_neg hRead, hFound], rfl, id⟩

theorem releaseAll (handles : List Nat) (streams : Array Stream) :
    FilesKept streams (ClauseLisp.releaseAll State.closeStream handles streams).2 := by
  intro handle stream hStream
  rw [getElem?_releaseAll, hStream]
  by_cases hMem : handle ∈ handles
  · exact ⟨stream.close, by rw [if_pos hMem]; rfl, rfl, nofun⟩
  · exact ⟨stream, by rw [if_neg hMem], rfl, id⟩

end FilesKept

/-! ## Scopes and what they hold -/

namespace Scopes

variable {ρ : Type} (ss : Scopes ρ)

theorem resources_eq {ss ss' : Scopes ρ} {i : Nat} (h : ss'.table[i]? = ss.table[i]?) :
    ss'.resources i = ss.resources i := by
  unfold resources
  rw [h]

theorem resources_of_size_le {i : Nat} (h : ss.table.size ≤ i) : ss.resources i = [] := by
  unfold resources
  rw [Array.getElem?_eq_none h]

/-- A scope that exists is still there if it is the same as before. -/
theorem size_lt_of_same {ss ss' : Scopes ρ} {i : Nat} (hScope : i < ss.table.size)
    (h : ss'.table[i]? = ss.table[i]?) : i < ss'.table.size := by
  rw [Array.getElem?_eq_getElem hScope] at h
  exact (Array.getElem?_eq_some_iff.mp h).1

/-- A new scope holds nothing. -/
theorem resources_push (parent : Option Nat) (vars : Dict Value) (i : Nat) :
    (⟨ss.table.push { parent, vars }⟩ : Scopes ρ).resources i = ss.resources i := by
  unfold resources
  rw [Array.getElem?_push]
  by_cases hNew : i = ss.table.size
  · rw [if_pos hNew, Array.getElem?_eq_none (Nat.le_of_eq hNew.symm)]
  · rw [if_neg hNew]

theorem resources_put (scope : Nat) (name : String) (value : Value) (i : Nat) :
    (ss.put scope name value).resources i = ss.resources i := by
  unfold resources put
  rw [Array.getElem?_modify]
  by_cases hScope : scope = i
  · rw [if_pos hScope]
    cases ss.table[i]? <;> rfl
  · rw [if_neg hScope]

theorem resources_acquire {scope : Nat} (resource : ρ) (hScope : scope < ss.table.size) (i : Nat) :
    (ss.acquire scope resource).resources i =
      if scope = i then resource :: ss.resources i else ss.resources i := by
  unfold resources acquire
  rw [Array.getElem?_modify]
  by_cases hSame : scope = i
  · subst hSame
    simp [Array.getElem?_eq_getElem hScope]
  · rw [if_neg hSame, if_neg hSame]

theorem resources_freeze (scope i : Nat) :
    (ss.freeze scope).resources i = if scope = i then [] else ss.resources i := by
  unfold resources freeze
  rw [Array.getElem?_modify]
  by_cases hSame : scope = i
  · rw [if_pos hSame, if_pos hSame]
    cases ss.table[i]? <;> rfl
  · rw [if_neg hSame, if_neg hSame]

theorem getElem?_acquireAll {scope i : Nat} (hOther : scope ≠ i) (handles : List Nat)
    (ss : Scopes Nat) :
    (handles.foldr (fun handle ss => ss.acquire scope handle) ss).table[i]? = ss.table[i]? := by
  induction handles with
  | nil => rfl
  | cons handle handles ih =>
      rw [List.foldr_cons, acquire, Array.getElem?_modify, if_neg hOther]
      exact ih

theorem resources_acquireAll {scope : Nat} (handles : List Nat) {ss : Scopes Nat}
    (hScope : scope < ss.table.size) :
    (handles.foldr (fun handle ss => ss.acquire scope handle) ss).resources scope =
      handles ++ ss.resources scope := by
  induction handles with
  | nil => rfl
  | cons handle handles ih =>
      rw [List.foldr_cons, resources_acquire _ _ (by rw [size_acquireAll]; exact hScope), if_pos rfl,
        ih, List.cons_append]

end Scopes

/-! ## Ownership -/

/-- A file has to be closed by a scope or by the machine. -/
def State.Holds (s : State) (handle : Nat) : Prop :=
  handle ∈ s.unclaimed ∨ ∃ scope, handle ∈ s.scopes.resources scope

/-- All open files are held. -/
def State.Owned (s : State) : Prop :=
  ∀ (handle : Nat) (stream : Stream), s.streams[handle]? = some stream → stream.isOpen = true →
    s.Holds handle

/-- Files are held as before if all scopes hold what they held. -/
theorem State.Owned.of_resources {s : State} (h : s.Owned) {scopes : Scopes Nat}
    (hSame : ∀ i, scopes.resources i = s.scopes.resources i) : State.Owned { s with scopes } := by
  intro handle stream hStream hOpen
  rcases h handle stream hStream hOpen with hUnclaimed | ⟨scope, hMem⟩
  · exact .inl hUnclaimed
  · rw [← hSame] at hMem
    exact .inr ⟨scope, hMem⟩

/-- Whether a scope may be written to. -/
def Access.Writes : Access → Nat → Prop
  | .nothing, _ => False
  | .names scope, i => scope = i
  | .all scope, i => scope = i

/-- Whether a scope may take files over. -/
def Access.Claims : Access → Nat → Prop
  | .all scope, i => scope = i
  | _, _ => False

theorem Access.Within.writes {a b : Access} (h : a.Within b) {i : Nat} (hWrites : a.Writes i) :
    b.Writes i := by
  cases a <;> cases b <;> simp_all [Access.Within, Access.Writes]

theorem Access.Within.claims {a b : Access} (h : a.Within b) {i : Nat} (hClaims : a.Claims i) :
    b.Claims i := by
  cases a <;> cases b <;> simp_all [Access.Within, Access.Claims]

/-- What evaluation leaves as it was, given what it may write to. -/
structure Undisturbed (a : Access) (s s' : State) : Prop where
  scopes : ∀ i, i < s.scopes.table.size → ¬a.Writes i → s'.scopes.table[i]? = s.scopes.table[i]?
  resources : ∀ i, ¬a.Claims i → s'.scopes.resources i = s.scopes.resources i
  unclaimed : s.unclaimed <:+ s'.unclaimed
  files : FilesKept s.streams s'.streams
  owned : s.Owned → s'.Owned

namespace Undisturbed

/-- Most of a state has nothing to do with files and scopes. -/
theorem of_same {a : Access} {s s' : State} (hScopes : s'.scopes = s.scopes)
    (hStreams : s'.streams = s.streams) (hUnclaimed : s'.unclaimed = s.unclaimed) :
    Undisturbed a s s' where
  scopes _ _ _ := by rw [hScopes]
  resources _ _ := by rw [hScopes]
  unclaimed := hUnclaimed ▸ List.suffix_refl _
  files := hStreams ▸ .refl _
  owned hOwned handle stream hStream hOpen := by
    rw [hStreams] at hStream
    rw [State.Holds, hScopes, hUnclaimed]
    exact hOwned handle stream hStream hOpen

/-- Scopes that cannot be written to are still there. -/
theorem size_lt {a : Access} {s s' : State} (h : Undisturbed a s s') {i : Nat}
    (hScope : i < s.scopes.table.size) (hWrites : ¬a.Writes i) : i < s'.scopes.table.size :=
  Scopes.size_lt_of_same hScope (h.scopes i hScope hWrites)

theorem trans {a : Access} {s s' s'' : State} (h : Undisturbed a s s') (h' : Undisturbed a s' s'') :
    Undisturbed a s s'' where
  scopes i hScope hWrites :=
    (h'.scopes i (h.size_lt hScope hWrites) hWrites).trans (h.scopes i hScope hWrites)
  resources i hClaims := (h'.resources i hClaims).trans (h.resources i hClaims)
  unclaimed := h.unclaimed.trans h'.unclaimed
  files := h.files.trans h'.files
  owned hOwned := h'.owned (h.owned hOwned)

theorem weaken {a b : Access} {s s' : State} (hWithin : a.Within b) (h : Undisturbed a s s') :
    Undisturbed b s s' where
  scopes i hScope hWrites := h.scopes i hScope fun hSelf => hWrites (hWithin.writes hSelf)
  resources i hClaims := h.resources i fun hSelf => hClaims (hWithin.claims hSelf)
  unclaimed := h.unclaimed
  files := h.files
  owned := h.owned

/-- A file that has just been opened is unclaimed. -/
theorem opened (s : State) (stream : Stream) : Undisturbed .nothing s
    { s with streams := s.streams.push stream, unclaimed := s.streams.size :: s.unclaimed } where
  scopes _ _ _ := rfl
  resources _ _ := rfl
  unclaimed := List.suffix_cons _ _
  files := .push _ _
  owned := by
    intro hOwned handle found hFound hOpen
    replace hFound : (s.streams.push stream)[handle]? = some found := hFound
    rw [Array.getElem?_push] at hFound
    by_cases hNew : handle = s.streams.size
    · exact .inl (hNew ▸ List.mem_cons_self)
    · rw [if_neg hNew] at hFound
      exact (hOwned handle found hFound hOpen).imp (List.mem_cons_of_mem _) id

theorem read (s : State) (index : Nat) (stream : Stream) (hStream : s.streams[index]? = some stream) :
    Undisturbed .nothing s { s with streams := s.streams.modify index fun _ => stream.read.2 } where
  scopes _ _ _ := rfl
  resources _ _ := rfl
  unclaimed := List.suffix_refl _
  files := .read hStream
  owned := by
    intro hOwned handle found hFound hOpen
    replace hFound : (s.streams.modify index fun _ => stream.read.2)[handle]? = some found := hFound
    rw [Array.getElem?_modify] at hFound
    by_cases hRead : index = handle
    · subst hRead
      rw [if_pos rfl, hStream, Option.map_some, Option.some.injEq] at hFound
      subst hFound
      exact hOwned index stream hStream (stream.becomesLater_read.2 hOpen)
    · rw [if_neg hRead] at hFound
      exact hOwned handle found hFound hOpen

theorem entered (s : State) (parent : Nat) (vars : Dict Value) :
    Undisturbed .nothing s (s.entered parent vars) where
  scopes i hScope _ := by
    show (s.scopes.table.push _)[i]? = _
    rw [Array.getElem?_push, if_neg (Nat.ne_of_lt hScope)]
  resources i _ := s.scopes.resources_push (some parent) vars i
  unclaimed := List.suffix_refl _
  files := .refl _
  owned hOwned := hOwned.of_resources fun i => s.scopes.resources_push (some parent) vars i

theorem bound (s : State) (scope : Nat) (name : String) (value : Value) :
    Undisturbed (.names scope) s { s with scopes := s.scopes.put scope name value } where
  scopes i _ hWrites := by
    have hOther : scope ≠ i := hWrites
    show (s.scopes.put scope name value).table[i]? = _
    rw [Scopes.put, Array.getElem?_modify, if_neg hOther]
  resources i _ := s.scopes.resources_put scope name value i
  unclaimed := List.suffix_refl _
  files := .refl _
  owned hOwned := hOwned.of_resources fun i => s.scopes.resources_put scope name value i

/-- A scope takes over exactly what has been opened since. -/
theorem claimed {s s' : State} {scope : Nat} (h : Undisturbed .nothing s s')
    (hScope : scope < s.scopes.table.size) :
    Undisturbed (.all scope) s (s'.claimed s.unclaimed.length scope) := by
  obtain ⟨fresh, hFresh⟩ := h.unclaimed
  have hLength : s'.unclaimed.length - s.unclaimed.length = fresh.length := by
    rw [← hFresh, List.length_append, Nat.add_sub_cancel]
  have hTake : s'.unclaimed.take (s'.unclaimed.length - s.unclaimed.length) = fresh := by
    rw [hLength, ← hFresh, List.take_left]
  have hRest : (s'.claimed s.unclaimed.length scope).unclaimed = s.unclaimed := by
    rw [State.claimed, hLength, ← hFresh, List.drop_left]
  have hThere : scope < s'.scopes.table.size := h.size_lt hScope nofun
  refine ⟨fun i hSize hWrites => ?_, fun i hClaims => ?_, ?_, h.files,
    fun hOwned handle stream hStream hOpen => ?_⟩
  · exact (Scopes.getElem?_acquireAll hWrites _ _).trans (h.scopes i hSize nofun)
  · exact (Scopes.resources_eq (Scopes.getElem?_acquireAll hClaims _ _)).trans (h.resources i nofun)
  · exact hRest.symm ▸ List.suffix_refl _
  · have hOwner : ∀ i, handle ∈ s'.scopes.resources i →
        handle ∈ (s'.claimed s.unclaimed.length scope).scopes.resources i := by
      intro i hMem
      by_cases hSame : scope = i
      · subst hSame
        rw [State.claimed, Scopes.resources_acquireAll _ hThere]
        exact List.mem_append_right _ hMem
      · rw [State.claimed, Scopes.resources_eq (Scopes.getElem?_acquireAll hSame _ _)]
        exact hMem
    rcases h.owned hOwned handle stream hStream hOpen with hMem | ⟨i, hMem⟩
    · rw [← hFresh] at hMem
      rcases List.mem_append.mp hMem with hNew | hOld
      · refine .inr ⟨scope, ?_⟩
        rw [State.claimed, Scopes.resources_acquireAll _ hThere, hTake]
        exact List.mem_append_left _ hNew
      · exact .inl (by rw [hRest]; exact hOld)
    · exact .inr ⟨i, hOwner i hMem⟩

/-- A scope that is left closes what it holds, and nothing else is dropped. -/
theorem owned_left {s : State} (hOwned : s.Owned) (scope : Nat) : (s.left scope).Owned := by
  intro handle stream hStream hOpen
  obtain ⟨hOther, hBefore⟩ := open_of_releaseAll hStream hOpen
  rcases hOwned handle stream hBefore hOpen with hUnclaimed | ⟨holder, hMem⟩
  · exact .inl hUnclaimed
  · have hScope : scope ≠ holder := fun hSame => hOther (hSame ▸ hMem)
    refine .inr ⟨holder, ?_⟩
    rw [State.left, Scopes.resources_freeze, if_neg hScope]
    exact hMem

/-- Seen from before a block, what happened inside concerns its own scope only. -/
theorem outside {s s' : State} {parent : Nat}
    (h : Undisturbed (.all s.scopes.table.size) (s.entered parent {}) s') :
    (∀ i, i < s.scopes.table.size → s'.scopes.table[i]? = s.scopes.table[i]?) ∧
      (∀ i, s.scopes.table.size ≠ i → s'.scopes.resources i = s.scopes.resources i) ∧
      s.unclaimed <:+ s'.unclaimed ∧ FilesKept s.streams s'.streams ∧ (s.Owned → s'.Owned) := by
  have hEntered : Undisturbed .nothing s (s.entered parent {}) := entered s parent {}
  refine ⟨fun i hScope => ?_, fun i hOther => ?_, h.unclaimed, h.files, fun hOwned => ?_⟩
  · have hOther : s.scopes.table.size ≠ i := (Nat.ne_of_lt hScope).symm
    exact (h.scopes i (hEntered.size_lt hScope nofun) hOther).trans (hEntered.scopes i hScope nofun)
  · exact (h.resources i hOther).trans (hEntered.resources i nofun)
  · exact h.owned (hEntered.owned hOwned)

theorem left {s s' : State} {parent : Nat}
    (h : Undisturbed (.all s.scopes.table.size) (s.entered parent {}) s') :
    Undisturbed .nothing s (s'.left s.scopes.table.size) := by
  obtain ⟨hScopes, hResources, hUnclaimed, hFiles, hOwned⟩ := h.outside
  refine ⟨fun i hScope _ => ?_, fun i _ => ?_, hUnclaimed, hFiles.trans (.releaseAll _ _),
    fun h => owned_left (hOwned h) _⟩
  · rw [State.left, Scopes.freeze, Array.getElem?_modify, if_neg (Nat.ne_of_lt hScope).symm]
    exact hScopes i hScope
  · rw [State.left, Scopes.resources_freeze]
    by_cases hSame : s.scopes.table.size = i
    · rw [if_pos hSame, s.scopes.resources_of_size_le (Nat.le_of_eq hSame)]
    · rw [if_neg hSame]
      exact hResources i hSame

theorem followed {s s' : State} {parent : Nat}
    (h : Undisturbed (.all s.scopes.table.size) (s.entered parent {}) s')
    (hHolds : s'.scopes.holds s.scopes.table.size = false) : Undisturbed .nothing s s' := by
  obtain ⟨hScopes, hResources, hUnclaimed, hFiles, hOwned⟩ := h.outside
  refine ⟨fun i hScope _ => hScopes i hScope, fun i _ => ?_, hUnclaimed, hFiles, hOwned⟩
  by_cases hSame : s.scopes.table.size = i
  · subst hSame
    rw [Scopes.holds, Bool.not_eq_false', List.isEmpty_iff] at hHolds
    rw [hHolds, s.scopes.resources_of_size_le (Nat.le_refl _)]
  · exact hResources i hSame

theorem forgotten {s s' s'' : State} {scope : Nat} (hScope : s.scopes.table.size ≤ scope)
    (h : Undisturbed .nothing s s') (h' : Undisturbed (.names scope) s' s'') :
    Undisturbed .nothing s s'' where
  scopes i hOld _ := by
    have hOther : scope ≠ i := Nat.ne_of_gt (Nat.lt_of_lt_of_le hOld hScope)
    exact (h'.scopes i (h.size_lt hOld nofun) hOther).trans (h.scopes i hOld nofun)
  resources i _ := (h'.resources i nofun).trans (h.resources i nofun)
  unclaimed := h.unclaimed.trans h'.unclaimed
  files := h.files.trans h'.files
  owned hOwned := h'.owned (h.owned hOwned)

end Undisturbed

/-- **Every move of the machine keeps files owned**, and other scopes as they are. -/
theorem undisturbed_frame : Frame Undisturbed where
  refl _ _ := .of_same rfl rfl rfl
  trans := .trans
  weaken := .weaken
  asked _ _ := .of_same rfl rfl rfl
  node _ _ _ := .of_same rfl rfl rfl
  settled _ step _ := by cases step <;> exact .of_same rfl rfl rfl
  printed _ _ := .of_same rfl rfl rfl
  opened := .opened
  read := .read
  entered := .entered
  closure _ _ _ := .of_same rfl rfl rfl
  kept _ _ _ := .of_same rfl rfl rfl
  bound s scope name value _ := .bound s scope name value
  claimed := .claimed
  left := .left
  followed := .followed
  forgotten := .forgotten

/-- **Whatever the machine is asked to do**, and whatever comes of it, no open file is
dropped and scopes that may not be written to stay as they are. -/
theorem exec_undisturbed (fuel level : Nat) {request : Request} (hRequest : request.IsPlaced)
    {s : State} (hPlaced : s.Placed) (hFits : request.access.FitsIn s) :
    Undisturbed request.access s (exec fuel level request s).2 :=
  (exec_keeps undisturbed_frame fuel level request hRequest s hPlaced hFits).related

end ClauseLisp
