import ClauseLisp.Proofs.Loading.Failure
import ClauseLisp.Proofs.Types.Walks

/-!
# The order of modules

Modules may use each other in any way, also in a circle.  Collecting them goes depth
first through the paths that they use.  A path is marked before anything is read from
it, so each path is entered once, and there are fewer paths left to enter the deeper
it goes.  A module is listed when all that it uses has been dealt with.

What is listed is told here by a relation that follows the paths (`Visits`) and
knows nothing of fuel.  The list of the paths as they were entered and the list of the
modules as they were finished together say how modules enclose each other: a module
was still being looked at when another one was finished if it was entered before that
one and is listed after it.

## Main results

* `Visits.preceded` — each path that a listed module uses was loaded or is listed
  before it, or encloses it and leads back to it.
* `Visits.complete` — what can be reached is entered.
* `collect_ends` — with fuel for all modules, collecting succeeds or meets a fault.
* `collect_lists_modules` — which modules are listed, in which order, and when
  collecting fails.
-/

namespace ClauseLisp

namespace Program

/-! ## What uses lead to -/

/-- The forms of a module, if it is there and can be read. -/
def moduleForms? (modules : Dict String) (path : String) : Option (List Form) :=
  (modules.get? path).bind fun source => (Form.parseAll source).toOption

/-- The forms of a module apart from its uses. -/
def ownForms (forms : List Form) : List Form := forms.filter fun form => !isUse form

/-- The module at one path uses another path. -/
def Uses (modules : Dict String) (path next : String) : Prop :=
  ∃ forms, moduleForms? modules path = some forms ∧ next ∈ pathsUsed forms

/-- The paths that some paths lead to, themselves included, through modules that have not
been loaded. -/
inductive Reaches (modules : Dict String) (loaded paths : List String) : String → Prop
  | used {path : String} : path ∈ paths → path ∉ loaded → Reaches modules loaded paths path
  | through {path next : String} :
      Reaches modules loaded paths path → Uses modules path next → next ∉ loaded →
      Reaches modules loaded paths next

section

variable {modules : Dict String} {loaded loaded' paths paths' : List String} {path : String}

/-- What is reached from some paths is reached from what leads to them, if no more has been
loaded. -/
theorem Reaches.from (h : Reaches modules loaded paths path)
    (hLoaded : ∀ q ∈ loaded', q ∈ loaded)
    (hPaths : ∀ q ∈ paths, q ∉ loaded → Reaches modules loaded' paths' q) :
    Reaches modules loaded' paths' path := by
  induction h with
  | used hMem hNew => exact hPaths _ hMem hNew
  | through _ hUses hNew ih => exact .through ih hUses fun h => hNew (hLoaded _ h)

/-- What later paths reach, when more has been loaded. -/
theorem Reaches.cons (h : Reaches modules loaded paths path) (first : String)
    (hLoaded : ∀ q ∈ loaded', q ∈ loaded) : Reaches modules loaded' (first :: paths) path :=
  h.from hLoaded fun _ hMem hNew => .used (List.mem_cons_of_mem _ hMem) fun h => hNew (hLoaded _ h)

/-- What a module reaches that has itself been reached. -/
theorem Reaches.inside {first : String} {used : List Form}
    (h : Reaches modules (first :: loaded) (pathsUsed used) path)
    (hFirst : Reaches modules loaded paths first) (hUsed : moduleForms? modules first = some used) :
    Reaches modules loaded paths path :=
  h.from (fun _ h => List.mem_cons_of_mem _ h) fun _ hMem hNew =>
    .through hFirst ⟨used, hUsed, hMem⟩ fun h => hNew (List.mem_cons_of_mem _ h)

/-- What a module reaches is led to by uses. -/
theorem Reaches.leads {used : List Form} (hUsed : moduleForms? modules path = some used)
    {next : String} (h : Reaches modules loaded (pathsUsed used) next) :
    Relation.ReflTransGen (Uses modules) path next := by
  induction h with
  | used hMem _ => exact .single ⟨used, hUsed, hMem⟩
  | through _ hUses _ ih => exact ih.tail hUses

end

/-! ## The traversal -/

/-- Paths are visited in turn, where some have been seen: what the modules behind them are,
those first that others use, and which paths are entered, in order. -/
inductive Visits (modules : Dict String) :
    List String → List String → List (String × List Form) → List String → Prop
  | nil {seen : List String} : Visits modules seen [] [] []
  | seen {seen paths entered : List String} {path : String} {entries : List (String × List Form)} :
      path ∈ seen → Visits modules seen paths entries entered →
      Visits modules seen (path :: paths) entries entered
  | new {seen paths entered entered' : List String} {path : String} {used : List Form}
      {entries entries' : List (String × List Form)} :
      path ∉ seen → moduleForms? modules path = some used → usesNamed used = true →
      Visits modules (path :: seen) (pathsUsed used) entries entered →
      Visits modules (entered.reverse ++ path :: seen) paths entries' entered' →
      Visits modules seen (path :: paths) (entries ++ (path, used) :: entries')
        (path :: (entered ++ entered'))

/-- Why a module that uses a path may be listed when it is: the path was loaded before all, or
it is listed before the module, or it is still being looked at and leads to the module that
uses it. -/
inductive Preceded (modules : Dict String) (loaded listed entered : List String)
    (path next : String) : Prop
  | loaded : next ∈ loaded → Preceded modules loaded listed entered path next
  | earlier : [next, path].Sublist listed → Preceded modules loaded listed entered path next
  | enclosing :
      next = path ∨ [next, path].Sublist entered ∧ [path, next].Sublist listed →
      Relation.ReflTransGen (Uses modules) next path →
      Preceded modules loaded listed entered path next

/-- A place among more paths, of which more may be seen as loaded. -/
theorem Preceded.among {modules : Dict String}
    {loaded loaded' listed listed' entered entered' : List String} {path next : String}
    (h : Preceded modules loaded listed entered path next) (hListed : listed.Sublist listed')
    (hEntered : entered.Sublist entered')
    (hLoaded : next ∈ loaded → Preceded modules loaded' listed' entered' path next) :
    Preceded modules loaded' listed' entered' path next := by
  cases h with
  | loaded hMem => exact hLoaded hMem
  | earlier hBefore => exact .earlier (hBefore.trans hListed)
  | enclosing hAround hLeads =>
      refine .enclosing (hAround.imp_right fun h => ?_) hLeads
      exact ⟨h.1.trans hEntered, h.2.trans hListed⟩

/-- Two paths in two lists one after the other. -/
theorem pair_sublist {before after : List String} {a b : String} (ha : a ∈ before)
    (hb : b ∈ after) : [a, b].Sublist (before ++ after) :=
  (List.singleton_sublist.mpr ha).append (List.singleton_sublist.mpr hb)

namespace Visits

variable {modules : Dict String} {seen paths entered : List String}
  {entries : List (String × List Form)}

/-- The paths that are entered are those of the modules that are listed. -/
theorem perm (h : Visits modules seen paths entries entered) :
    entered.Perm (entries.map (·.1)) := by
  induction h with
  | nil => exact .nil
  | seen _ _ ih => exact ih
  | new _ _ _ _ _ ihUsed ihRest =>
      rw [List.map_append, List.map_cons]
      exact ((ihUsed.append ihRest).cons _).trans List.perm_middle.symm

/-- **Each path is entered once**, and only if it has not been seen. -/
theorem nodup (h : Visits modules seen paths entries entered) :
    entered.Nodup ∧ ∀ path ∈ entered, path ∉ seen := by
  induction h with
  | nil => exact ⟨.nil, List.forall_mem_nil _⟩
  | seen _ _ ih => exact ih
  | @new seen paths entered entered' path _ _ _ hNew _ _ _ _ ihUsed ihRest =>
      obtain ⟨hUsed, hUsedNew⟩ := ihUsed
      obtain ⟨hRest, hRestNew⟩ := ihRest
      have hApart : ∀ q ∈ entered', q ∉ entered ∧ q ≠ path ∧ q ∉ seen := by
        intro q hq
        simpa [not_or] using hRestNew q hq
      refine ⟨List.nodup_cons.mpr ⟨fun h => ?_, List.nodup_append'.mpr ⟨hUsed, hRest, ?_⟩⟩, ?_⟩
      · rcases List.mem_append.mp h with h | h
        · exact hUsedNew _ h List.mem_cons_self
        · exact (hApart _ h).2.1 rfl
      · exact fun q hq hq' => (hApart q hq').1 hq
      · intro q hq
        rcases List.mem_cons.mp hq with rfl | hq
        · exact hNew
        · rcases List.mem_append.mp hq with hq | hq
          · exact fun h => hUsedNew q hq (List.mem_cons_of_mem _ h)
          · exact (hApart q hq).2.2

/-- The modules that are listed can be read, and all their uses name paths. -/
theorem forms (h : Visits modules seen paths entries entered) :
    ∀ entry ∈ entries, moduleForms? modules entry.1 = some entry.2 ∧ usesNamed entry.2 = true := by
  induction h with
  | nil => exact List.forall_mem_nil _
  | seen _ _ ih => exact ih
  | new _ hForms hNamed _ _ ihUsed ihRest =>
      exact List.forall_mem_append.mpr ⟨ihUsed, List.forall_mem_cons.mpr ⟨⟨hForms, hNamed⟩, ihRest⟩⟩

/-- Paths that are visited have been seen or are entered. -/
theorem covers (h : Visits modules seen paths entries entered) :
    ∀ path ∈ paths, path ∈ seen ∨ path ∈ entered := by
  induction h with
  | nil => exact List.forall_mem_nil _
  | seen hSeen _ ih => exact List.forall_mem_cons.mpr ⟨.inl hSeen, ih⟩
  | new _ _ _ _ _ _ ihRest =>
      refine List.forall_mem_cons.mpr ⟨.inr List.mem_cons_self, fun q hq => ?_⟩
      have hRest := ihRest q hq
      simp only [List.mem_append, List.mem_reverse, List.mem_cons] at hRest ⊢
      tauto

/-- **What is entered can be reached.** -/
theorem reached (h : Visits modules seen paths entries entered) :
    ∀ path ∈ entered, Reaches modules seen paths path := by
  induction h with
  | nil => exact List.forall_mem_nil _
  | seen _ _ ih => exact fun q hq => (ih q hq).cons _ fun _ h => h
  | @new seen paths _ _ path _ _ _ hNew hForms _ _ _ ihUsed ihRest =>
      have hFirst : Reaches modules seen (path :: paths) path := .used List.mem_cons_self hNew
      refine List.forall_mem_cons.mpr ⟨hFirst, ?_⟩
      refine List.forall_mem_append.mpr ⟨fun q hq => ?_, fun q hq => ?_⟩
      · exact (ihUsed q hq).inside hFirst hForms
      · exact (ihRest q hq).cons _ fun _ h => List.mem_append_right _ (List.mem_cons_of_mem _ h)

/-- **What a listed module uses** was loaded or is listed before it, or encloses it. -/
theorem preceded (h : Visits modules seen paths entries entered) :
    ∀ entry ∈ entries, ∀ next ∈ pathsUsed entry.2,
      Preceded modules seen (entries.map (·.1)) entered entry.1 next := by
  induction h with
  | nil => exact List.forall_mem_nil _
  | seen _ _ ih => exact ih
  | @new _ _ _ _ path used _ _ _ hForms _ hUsed _ ihUsed ihRest =>
      rw [List.map_append, List.map_cons]
      refine List.forall_mem_append.mpr ⟨fun entry hEntry next hNext => ?_,
        List.forall_mem_cons.mpr ⟨fun next hNext => ?_, fun entry hEntry next hNext => ?_⟩⟩
      · -- Below the path: what has been seen there is the path itself, or was seen before.
        refine (ihUsed entry hEntry next hNext).among (List.sublist_append_left _ _)
          ((List.sublist_append_left _ _).cons _) fun hSeen => ?_
        rcases List.mem_cons.mp hSeen with rfl | hSeen
        · have hListed := List.mem_map_of_mem (f := (·.1)) hEntry
          have hEntered := hUsed.perm.mem_iff.mpr hListed
          refine .enclosing (.inr ⟨?_, pair_sublist hListed List.mem_cons_self⟩)
            ((hUsed.reached _ hEntered).leads hForms)
          exact pair_sublist (List.mem_singleton_self _) (List.mem_append_left _ hEntered)
        · exact .loaded hSeen
      · rcases hUsed.covers next hNext with hSeen | hEntered
        · rcases List.mem_cons.mp hSeen with rfl | hSeen
          · exact .enclosing (.inl rfl) .refl
          · exact .loaded hSeen
        · exact .earlier (pair_sublist (hUsed.perm.mem_iff.mp hEntered) List.mem_cons_self)
      · -- After the path: it is listed by then, and so is what was entered below it.
        refine (ihRest entry hEntry next hNext).among
          ((List.sublist_cons_self _ _).trans (List.sublist_append_right _ _))
          ((List.sublist_append_right _ _).cons _) fun hSeen => ?_
        have hListed := List.mem_map_of_mem (f := (·.1)) hEntry
        rcases List.mem_append.mp hSeen with hEntered | hSeen
        · have hBefore := hUsed.perm.mem_iff.mp (List.mem_reverse.mp hEntered)
          exact .earlier (pair_sublist hBefore (List.mem_cons_of_mem _ hListed))
        · rcases List.mem_cons.mp hSeen with rfl | hSeen
          · refine .earlier (List.Sublist.trans ?_ (List.sublist_append_right _ _))
            exact pair_sublist (List.mem_singleton_self _) hListed
          · exact .loaded hSeen

/-- **What can be reached is entered.** -/
theorem complete (h : Visits modules seen paths entries entered) {path : String}
    (hReaches : Reaches modules seen paths path) : path ∈ entered := by
  induction hReaches with
  | used hMem hNew => exact (h.covers _ hMem).resolve_left hNew
  | @through path next _ hUses hNew ih =>
      obtain ⟨used, hForms, hNext⟩ := hUses
      obtain ⟨entry, hEntry, rfl⟩ := List.mem_map.mp (h.perm.mem_iff.mp ih)
      rw [(h.forms entry hEntry).1, Option.some.injEq] at hForms
      subst hForms
      rcases h.preceded entry hEntry next hNext with hLoaded | hBefore | ⟨rfl | hAround, _⟩
      · exact absurd hLoaded hNew
      · exact h.perm.mem_iff.mpr (hBefore.subset List.mem_cons_self)
      · exact ih
      · exact hAround.1.subset List.mem_cons_self

end Visits

/-! ## Faults -/

/-- A module is missing, or its text cannot be read. -/
inductive Unreadable (modules : Dict String) (path : String) : Error → Prop
  | missing : modules.get? path = none →
      Unreadable modules path (.eval (.cannotLoad path "not found"))
  | unparsed {source : String} {error : Error} :
      modules.get? path = some source → Form.parseAll source = .error error →
      Unreadable modules path error

/-- A `use` among forms names no path. -/
def Misuse (forms : List Form) (error : Error) : Prop :=
  ∃ form ∈ forms, isUse form = true ∧ usePath form = .error error

/-- The faults that forms have or lead to. -/
inductive MeetsFault (modules : Dict String) (loaded : List String) (forms : List Form) :
    Error → Prop
  | here {error : Error} : Misuse forms error → MeetsFault modules loaded forms error
  | unreadable {path : String} {error : Error} :
      Reaches modules loaded (pathsUsed forms) path → Unreadable modules path error →
      MeetsFault modules loaded forms error
  | inside {path : String} {used : List Form} {error : Error} :
      Reaches modules loaded (pathsUsed forms) path → moduleForms? modules path = some used →
      Misuse used error → MeetsFault modules loaded forms error

section

variable {modules : Dict String} {loaded loaded' : List String} {forms forms' : List Form}
  {form : Form} {path : String} {error : Error}

theorem usesNamed_iff : usesNamed forms = true ↔ ∀ error, ¬ Misuse forms error := by
  induction forms with
  | nil =>
      refine iff_of_true rfl fun error h => ?_
      obtain ⟨form, hMem, -⟩ := h
      cases hMem
  | cons form forms ih =>
      have hCons : ∀ error, Misuse (form :: forms) error ↔
          (isUse form = true ∧ usePath form = .error error) ∨ Misuse forms error := by
        intro error
        exact List.exists_mem_cons_iff _ _ _
      rw [usesNamed]
      simp only [hCons, not_or, forall_and]
      by_cases hUse : form.keyword? = some "use"
      · rw [if_pos hUse]
        cases hPath : usePath form with
        | ok path => simp [ih]
        | error error => simp [isUse, hUse]
      · rw [if_neg hUse, ih]
        simp [isUse, hUse]

theorem readable_or (modules : Dict String) (path : String) :
    (∃ used, moduleForms? modules path = some used) ∨ ∃ error, Unreadable modules path error := by
  cases hGet : modules.get? path with
  | none => exact .inr ⟨_, .missing hGet⟩
  | some source =>
      cases hParse : Form.parseAll source with
      | error error => exact .inr ⟨error, .unparsed hGet hParse⟩
      | ok used =>
          refine .inl ⟨used, ?_⟩
          rw [moduleForms?, hGet, Option.bind_some, hParse]
          rfl

theorem Unreadable.moduleForms?_eq (h : Unreadable modules path error) :
    moduleForms? modules path = none := by
  cases h with
  | missing hGet => rw [moduleForms?, hGet, Option.bind_none]
  | unparsed hGet hParse =>
      rw [moduleForms?, hGet, Option.bind_some, hParse]
      rfl

/-- Faults are met by what leads to them. -/
theorem MeetsFault.from (h : MeetsFault modules loaded forms error)
    (hReaches : ∀ path, Reaches modules loaded (pathsUsed forms) path →
      Reaches modules loaded' (pathsUsed forms') path)
    (hHere : Misuse forms error → MeetsFault modules loaded' forms' error) :
    MeetsFault modules loaded' forms' error := by
  cases h with
  | here hMisuse => exact hHere hMisuse
  | unreadable hPath hFault => exact .unreadable (hReaches _ hPath) hFault
  | inside hPath hForms hMisuse => exact .inside (hReaches _ hPath) hForms hMisuse

/-- Where all that can be reached is listed, there is no fault. -/
theorem Visits.not_meetsFault {entries : List (String × List Form)} {entered : List String}
    (h : Visits modules loaded (pathsUsed forms) entries entered)
    (hNamed : usesNamed forms = true) (error : Error) :
    ¬ MeetsFault modules loaded forms error := by
  have hEntry : ∀ {path}, Reaches modules loaded (pathsUsed forms) path →
      ∃ used, moduleForms? modules path = some used ∧ usesNamed used = true := by
    intro path hPath
    obtain ⟨entry, hMem, rfl⟩ := List.mem_map.mp (h.perm.mem_iff.mp (h.complete hPath))
    exact ⟨entry.2, h.forms entry hMem⟩
  rintro (hMisuse | ⟨hPath, hFault⟩ | ⟨hPath, hForms, hMisuse⟩)
  · exact usesNamed_iff.mp hNamed error hMisuse
  · obtain ⟨used, hForms, -⟩ := hEntry hPath
    rw [hFault.moduleForms?_eq] at hForms
    cases hForms
  · obtain ⟨used, hForms', hNamed'⟩ := hEntry hPath
    rw [hForms, Option.some.injEq] at hForms'
    subst hForms'
    exact usesNamed_iff.mp hNamed' error hMisuse

end

/-! ## Collecting follows the paths -/

/-- The paths of modules that have not been loaded. -/
def unloaded (modules : Dict String) (loaded : List String) : Finset String :=
  modules.keys.toFinset.filter (· ∉ loaded)

/-- To enter a module leaves fewer modules to enter. -/
theorem card_unloaded_lt {modules : Dict String} {loaded : List String} {path : String}
    {used : List Form} (hForms : moduleForms? modules path = some used) (hNew : path ∉ loaded) :
    (unloaded modules (path :: loaded)).card < (unloaded modules loaded).card := by
  have hKey : path ∈ modules.keys := by
    obtain ⟨source, hGet, -⟩ := Option.bind_eq_some_iff.mp hForms
    exact (Dict.mem_keys_iff modules path).mpr (Option.isSome_iff_exists.mpr ⟨source, hGet⟩)
  refine Finset.card_lt_card (Finset.ssubset_iff_of_subset ?_ |>.mpr ⟨path, ?_, ?_⟩)
  · exact Finset.monotone_filter_right _ fun _ _ h h' => h (List.mem_cons_of_mem _ h')
  · simp [unloaded, hKey, hNew]
  · simp [unloaded]

theorem card_unloaded_append_le (modules : Dict String) (paths loaded : List String) :
    (unloaded modules (paths ++ loaded)).card ≤ (unloaded modules loaded).card :=
  Finset.card_le_card (Finset.monotone_filter_right _ fun _ _ h h' =>
    h (List.mem_append_right _ h'))

/-- How collecting ends, where some of the forms themselves have been set aside: with all
modules that the paths lead to, or at a fault.  What was entered counts as loaded. -/
inductive Collected (modules : Dict String) (own forms : List Form) (p : Program) :
    Except Stop (List (List Form)) × Program → Prop
  | all {entries : List (String × List Form)} {entered : List String} :
      usesNamed forms = true → Visits modules p.loaded (pathsUsed forms) entries entered →
      Collected modules own forms p
        (.ok (entries.map (fun entry => ownForms entry.2) ++ [own.reverse ++ ownForms forms]),
          { p with loaded := entered.reverse ++ p.loaded })
  | fault {error : Error} (entered : List String) :
      MeetsFault modules p.loaded forms error →
      Collected modules own forms p
        (.error (.error error), { p with loaded := entered ++ p.loaded })

section

variable {modules : Dict String} {own forms : List Form} {form : Form} {p : Program}
  {path : String} {run : Except Stop (List (List Form)) × Program}

theorem pathsUsed_other (h : form.keyword? ≠ some "use") :
    pathsUsed (form :: forms) = pathsUsed forms := by
  rw [pathsUsed, if_neg h]

theorem pathsUsed_use (h : form.keyword? = some "use") (hPath : usePath form = .ok path) :
    pathsUsed (form :: forms) = path :: pathsUsed forms := by
  rw [pathsUsed, if_pos h, hPath]

theorem usesNamed_other (h : form.keyword? ≠ some "use") :
    usesNamed (form :: forms) = usesNamed forms := by
  rw [usesNamed, if_neg h]

theorem usesNamed_use (h : form.keyword? = some "use") (hPath : usePath form = .ok path) :
    usesNamed (form :: forms) = usesNamed forms := by
  rw [usesNamed, if_pos h, hPath]

theorem ownForms_other (h : form.keyword? ≠ some "use") :
    ownForms (form :: forms) = form :: ownForms forms := by
  simp [ownForms, isUse, h]

theorem ownForms_use (h : form.keyword? = some "use") :
    ownForms (form :: forms) = ownForms forms := by
  simp [ownForms, isUse, h]

theorem Misuse.cons {error : Error} (h : Misuse forms error) : Misuse (form :: forms) error := by
  obtain ⟨other, hMem, hMisuse⟩ := h
  exact ⟨other, List.mem_cons_of_mem _ hMem, hMisuse⟩

/-- A fault that later forms have or lead to, when more has been loaded. -/
theorem MeetsFault.cons {loaded loaded' : List String} {error : Error}
    (h : MeetsFault modules loaded forms error) (hUse : form.keyword? = some "use")
    (hPath : usePath form = .ok path) (hLoaded : ∀ q ∈ loaded', q ∈ loaded) :
    MeetsFault modules loaded' (form :: forms) error := by
  refine h.from (fun q hq => ?_) fun hMisuse => .here hMisuse.cons
  rw [pathsUsed_use hUse hPath]
  exact hq.cons _ hLoaded

namespace Collected

theorem other (hOther : form.keyword? ≠ some "use")
    (h : Collected modules (form :: own) forms p run) :
    Collected modules own (form :: forms) p run := by
  cases h with
  | all hNamed hVisits =>
      rw [← usesNamed_other hOther] at hNamed
      rw [← pathsUsed_other hOther] at hVisits
      have hAll : Collected modules own (form :: forms) p _ := .all hNamed hVisits
      rw [ownForms_other hOther, List.append_cons own.reverse, ← List.reverse_cons] at hAll
      exact hAll
  | fault entered hFault =>
      refine .fault entered (hFault.from (fun path hPath => ?_) fun h => .here h.cons)
      rwa [pathsUsed_other hOther]

theorem seen (hUse : form.keyword? = some "use") (hPath : usePath form = .ok path)
    (hLoaded : path ∈ p.loaded) (h : Collected modules own forms p run) :
    Collected modules own (form :: forms) p run := by
  cases h with
  | all hNamed hVisits =>
      rw [← usesNamed_use hUse hPath] at hNamed
      rw [← ownForms_use hUse]
      refine .all hNamed ?_
      rw [pathsUsed_use hUse hPath]
      exact .seen hLoaded hVisits
  | fault entered hFault => exact .fault entered (hFault.cons hUse hPath fun _ h => h)

section

variable {used : List Form} (hUse : form.keyword? = some "use")
  (hPath : usePath form = .ok path) (hNew : path ∉ p.loaded)

include hUse hPath hNew

theorem reaches_used : Reaches modules p.loaded (pathsUsed (form :: forms)) path := by
  rw [pathsUsed_use hUse hPath]
  exact .used List.mem_cons_self hNew

/-- A fault that the first module has or leads to. -/
theorem fault_inside (entered : List String) (hForms : moduleForms? modules path = some used)
    {error : Error} (h : MeetsFault modules (path :: p.loaded) used error) :
    Collected modules own (form :: forms) p
      (.error (.error error), { p with loaded := entered ++ path :: p.loaded }) := by
  have hFirst : Reaches modules p.loaded (pathsUsed (form :: forms)) path :=
    reaches_used hUse hPath hNew
  rw [List.append_cons]
  exact .fault _ (h.from (fun _ h => h.inside hFirst hForms) fun hMisuse =>
    .inside hFirst hForms hMisuse)

/-- The other forms are collected after the first module. -/
theorem all_inside (hForms : moduleForms? modules path = some used)
    {entries : List (String × List Form)} {entered : List String} (hNamed : usesNamed used = true)
    (hVisits : Visits modules (path :: p.loaded) (pathsUsed used) entries entered)
    (h : Collected modules own forms { p with loaded := entered.reverse ++ path :: p.loaded } run) :
    Collected modules own (form :: forms) p
      (run.1.map (entries.map (fun entry => ownForms entry.2) ++ [ownForms used] ++ ·), run.2) := by
  cases h with
  | @all entries' entered' hNamed' hVisits' =>
      have hBoth : Visits modules p.loaded (pathsUsed (form :: forms))
          (entries ++ (path, used) :: entries') (path :: (entered ++ entered')) := by
        rw [pathsUsed_use hUse hPath]
        exact .new hNew hForms hNamed hVisits hVisits'
      have hAll : Collected modules own (form :: forms) p _ :=
        .all ((usesNamed_use hUse hPath).trans hNamed') hBoth
      simp only [List.map_append, List.map_cons, List.append_assoc, List.cons_append,
        List.reverse_cons, List.reverse_append, List.nil_append, ownForms_use hUse] at hAll
      simpa only [Except.map, List.append_assoc, List.cons_append, List.nil_append] using hAll
  | @fault error entered' hFault =>
      have hMeets : MeetsFault modules p.loaded (form :: forms) error :=
        hFault.cons hUse hPath fun _ h => List.mem_append_right _ (List.mem_cons_of_mem _ h)
      have hFail : Collected modules own (form :: forms) p _ :=
        .fault (entered' ++ entered.reverse ++ [path]) hMeets
      simpa only [Except.map, List.append_assoc, List.cons_append, List.nil_append] using hFail

end

end Collected

end

/-! ## Modules behind paths -/

section

variable {modules : Dict String} {path : String}

theorem enterWith_unreadable {error : Error} (h : Unreadable modules path error) (fuel : Nat)
    (p : Program) :
    enterWith (Loader.ofTable modules) fuel path p = (.error (.error error), p) := by
  cases h with
  | missing hGet =>
      rw [enterWith, Loader.ofTable, hGet]
      rfl
  | unparsed hGet hParse =>
      rw [enterWith, Loader.ofTable, hGet]
      show (Loading.ofExcept _ >>= fun forms => collect _ fuel forms : Loading _) p = _
      rw [hParse]
      rfl

theorem enterWith_readable {used : List Form} (h : moduleForms? modules path = some used)
    (fuel : Nat) :
    enterWith (Loader.ofTable modules) fuel path = collect (Loader.ofTable modules) fuel used := by
  obtain ⟨source, hGet, hParse⟩ := Option.bind_eq_some_iff.mp h
  rw [enterWith, Loader.ofTable, hGet]
  cases hForms : Form.parseAll source with
  | error error =>
      rw [hForms] at hParse
      cases hParse
  | ok forms =>
      rw [hForms] at hParse
      cases hParse
      show (Loading.ofExcept _ >>= fun forms => collect _ fuel forms : Loading _) = _
      rw [hForms]
      rfl

end

/-- From some fuel on, modules end in one way, if fewer are left to enter than there is fuel. -/
def EndsBelow (modules : Dict String) (least : Nat) : Prop :=
  ∀ (path : String) (used : List Form) (p : Program),
    moduleForms? modules path = some used → (unloaded modules p.loaded).card < least →
    ∃ run, (∀ fuel, least ≤ fuel → enterWith (Loader.ofTable modules) fuel path p = run) ∧
      Collected modules [] used p run

/-- **The step of a traversal.**  If the modules behind paths end in one way, then so do forms
that use them. -/
theorem modulesOf_ends {modules : Dict String} {least : Nat} (hEnter : EndsBelow modules least) :
    ∀ (forms own : List Form) (p : Program), (unloaded modules p.loaded).card ≤ least →
      ∃ run, (∀ fuel, least ≤ fuel →
        modulesOf (enterWith (Loader.ofTable modules) fuel) own forms p = run) ∧
        Collected modules own forms p run := by
  intro forms
  induction forms with
  | nil =>
      intro own p _
      refine ⟨_, fun fuel _ => rfl, ?_⟩
      have hAll : Collected modules own [] p _ := .all rfl .nil
      rw [ownForms, List.filter_nil, List.append_nil] at hAll
      exact hAll
  | cons form forms ih =>
      intro own p hCard
      by_cases hUse : form.keyword? = some "use"
      · cases hPath : usePath form with
        | error error =>
            refine ⟨_, fun fuel _ => modulesOf_unnamed hUse hPath, ?_⟩
            exact .fault [] (.here ⟨form, List.mem_cons_self, decide_eq_true hUse, hPath⟩)
        | ok path =>
            by_cases hLoaded : path ∈ p.loaded
            · obtain ⟨run, hRun, hCollected⟩ := ih own p hCard
              refine ⟨run, fun fuel hFuel => ?_, hCollected.seen hUse hPath hLoaded⟩
              rw [modulesOf_loaded hUse hPath hLoaded]
              exact hRun fuel hFuel
            · rcases readable_or modules path with ⟨used, hForms⟩ | ⟨error, hFault⟩
              · have hLower := Nat.lt_of_lt_of_le (card_unloaded_lt hForms hLoaded) hCard
                obtain ⟨run, hRun, hInside⟩ :=
                  hEnter path used { p with loaded := path :: p.loaded } hForms hLower
                cases hInside with
                | fault entered hMeets =>
                    refine ⟨_, fun fuel hFuel => ?_,
                      .fault_inside hUse hPath hLoaded entered hForms hMeets⟩
                    rw [modulesOf_new hUse hPath hLoaded, Loading.bind_apply, hRun fuel hFuel]
                | @all entries entered hNamed hVisits =>
                    obtain ⟨rest, hRest, hOthers⟩ := ih own
                      { p with loaded := entered.reverse ++ path :: p.loaded }
                      ((card_unloaded_append_le ..).trans hLower.le)
                    refine ⟨_, fun fuel hFuel => ?_,
                      hOthers.all_inside hUse hPath hLoaded hForms hNamed hVisits⟩
                    rw [modulesOf_new hUse hPath hLoaded, Loading.bind_apply, hRun fuel hFuel]
                    show (modulesOf _ own forms >>= _ : Loading _) _ = _
                    rw [Loading.bind_apply, hRest fuel hFuel]
                    rcases rest with ⟨_ | _, _⟩ <;> rfl
              · refine ⟨_, fun fuel _ => ?_, .fault [path] (.unreadable
                  (Collected.reaches_used hUse hPath hLoaded) hFault)⟩
                rw [modulesOf_new hUse hPath hLoaded, Loading.bind_apply,
                  enterWith_unreadable hFault]
                rfl
      · obtain ⟨run, hRun, hCollected⟩ := ih (form :: own) p hCard
        refine ⟨run, fun fuel hFuel => ?_, hCollected.other hUse⟩
        rw [modulesOf_other hUse]
        exact hRun fuel hFuel

/-- **Collecting ends**: with more fuel than there are modules to enter, it lists all modules
that can be reached or meets a fault, and more fuel makes no difference. -/
theorem collect_ends (modules : Dict String) (forms : List Form) (p : Program) :
    ∃ run, (∀ fuel, (unloaded modules p.loaded).card < fuel →
      collect (Loader.ofTable modules) fuel forms p = run) ∧ Collected modules [] forms p run := by
  induction hCard : (unloaded modules p.loaded).card using Nat.strongRecOn generalizing forms p with
  | ind least ih =>
      have hEnter : EndsBelow modules least := by
        intro path used q hForms hLess
        obtain ⟨run, hRun, hCollected⟩ := ih _ hLess used q rfl
        refine ⟨run, fun fuel hFuel => ?_, hCollected⟩
        rw [enterWith_readable hForms]
        exact hRun fuel (Nat.lt_of_lt_of_le hLess hFuel)
      obtain ⟨run, hRun, hCollected⟩ := modulesOf_ends hEnter forms [] p hCard.le
      refine ⟨run, fun fuel hFuel => ?_, hCollected⟩
      obtain ⟨fuel, rfl⟩ := Nat.exists_eq_add_of_lt hFuel
      rw [collect_succ]
      exact hRun _ (Nat.le_add_right least fuel)

/-! ## Which modules are listed -/

/-- What is listed when some paths are used, and in which order they are entered. -/
structure Listing (modules : Dict String) (loaded paths : List String)
    (entries : List (String × List Form)) (entered : List String) : Prop where
  /-- No module is listed twice, and none that had been loaded. -/
  once : (entries.map (·.1)).Nodup
  new : ∀ path ∈ entries.map (·.1), path ∉ loaded
  /-- The listed modules are those that can be reached. -/
  reached : ∀ path, path ∈ entries.map (·.1) ↔ Reaches modules loaded paths path
  forms : ∀ entry ∈ entries, moduleForms? modules entry.1 = some entry.2
  /-- Exactly the listed modules are entered. -/
  perm : entered.Perm (entries.map (·.1))
  /-- What is used by the forms that ask for the modules is loaded or listed. -/
  covered : ∀ path ∈ paths, path ∈ loaded ∨ path ∈ entries.map (·.1)
  /-- What a module uses is loaded or listed before it, or encloses it. -/
  preceded : ∀ entry ∈ entries, ∀ next ∈ pathsUsed entry.2,
    Preceded modules loaded (entries.map (·.1)) entered entry.1 next

theorem Visits.listing {modules : Dict String} {loaded paths entered : List String}
    {entries : List (String × List Form)} (h : Visits modules loaded paths entries entered) :
    Listing modules loaded paths entries entered where
  once := h.perm.nodup_iff.mp h.nodup.1
  new path hPath := h.nodup.2 path (h.perm.mem_iff.mpr hPath)
  reached path := by
    rw [← h.perm.mem_iff]
    exact ⟨h.reached path, h.complete⟩
  forms entry hEntry := (h.forms entry hEntry).1
  perm := h.perm
  covered path hPath := (h.covers path hPath).imp_right h.perm.mem_iff.mp
  preceded := h.preceded

/-- **Modules are listed once, after what they use, and collecting them ends.**  With fuel for
the modules that there are, the outcome does not depend on fuel.  If it is a list, it holds
what can be reached without what had been loaded, each module as its forms without the uses,
and the forms themselves at the end; and what is loaded grows by what is listed.  It is an
error exactly if a module that is missing or cannot be read, or a `use` without a path, can be
reached, and it is the error of such a fault. -/
theorem collect_lists_modules (modules : Dict String) (forms : List Form) (p : Program) :
    ∃ (outcome : Except Stop (List (List Form))) (p' : Program),
      (∀ fuel, modules.keys.length < fuel →
        collect (Loader.ofTable modules) fuel forms p = (outcome, p')) ∧
      (∀ listed, outcome = .ok listed → ∃ entries entered,
        listed = entries.map (fun entry => ownForms entry.2) ++ [ownForms forms] ∧
          p' = { p with loaded := entered.reverse ++ p.loaded } ∧
          Listing modules p.loaded (pathsUsed forms) entries entered) ∧
      (∀ stop, outcome = .error stop →
        ∃ error, stop = .error error ∧ MeetsFault modules p.loaded forms error) ∧
      ((∃ error, outcome = .error (.error error)) ↔
        ∃ error, MeetsFault modules p.loaded forms error) := by
  have hCard : (unloaded modules p.loaded).card ≤ modules.keys.length :=
    (Finset.card_filter_le _ _).trans (List.toFinset_card_le _)
  obtain ⟨⟨outcome, p'⟩, hRun, hCollected⟩ := collect_ends modules forms p
  refine ⟨outcome, p', fun fuel hFuel => hRun fuel (Nat.lt_of_le_of_lt hCard hFuel), ?_⟩
  cases hCollected with
  | @all entries entered hNamed hVisits =>
      refine ⟨fun listed h => ⟨entries, entered, ?_, rfl, hVisits.listing⟩, nofun, nofun, ?_⟩
      · cases h
        rfl
      · rintro ⟨error, hFault⟩
        exact absurd hFault (hVisits.not_meetsFault hNamed error)
  | @fault error entered hFault =>
      refine ⟨nofun, fun stop h => ⟨error, ?_, hFault⟩, fun _ => ⟨error, hFault⟩,
        fun _ => ⟨error, rfl⟩⟩
      cases h
      rfl

/-- Modules that use each other in a circle, one of them twice. -/
def circle : Dict String :=
  ⟨[("a", "(use \"b\") (use \"c\") 1"), ("b", "(use \"c\") 2"), ("c", "(use \"a\") 3")]⟩

/-- The module that is entered first is listed last of the circle, though `c` uses it. -/
example : (collect (Loader.ofTable circle) 4 [.list [.sym "use" none, .str "a"], .int 4] {}) =
    (.ok [[.int 3], [.int 2], [.int 1], [.int 4]], { loaded := ["c", "b", "a"] }) := by cbv

end Program

end ClauseLisp
