import ClauseLisp.Proofs.Builtins.Calls
import ClauseLisp.Proofs.Equality.Deciding
import ClauseLisp.Proofs.MemoKey.Forcing

/-!
# Concatenation is lazy in its last list

`concat` looks at all its arguments before it forces anything.  The lists before the
last one are forced to their ends, one after the other, and their elements become
strict cells in front of the last, which is not touched.

`Walks` says what forcing a list again and again gives, from which state, and how it
stops.  A walk may be left off anywhere, so the relation speaks of infinite lists as
well, and it ends or fails where the list does.

## Main results

* `elements_of_walks`, `elementsOfAll_of_walksEach` — forcing lists to their ends gives
  the elements of the walks over them.
* `walks_append_iff` — a walk over strict cells in front of a list goes on as a walk
  over that list.
* `concat_appends` — what `concat` does, for all arguments.
-/

namespace ClauseLisp

open Run

/-! ## Walks over lists -/

/-- How a walk over a list stops: it is left off, the list ends, or forcing it fails. -/
inductive Halt where
  | leftOff
  | ended
  | failed (stop : Stop)

/-- Forcing a list again and again gives some elements and leaves a state. -/
inductive Walks (call : Caller) (context : String) :
    State → Value → List Value → Halt → State → Prop
  | leftOff (s : State) (list : Value) : Walks call context s list [] .leftOff s
  | ended {s s' : State} {list : Value} (h : uncons call context list s = (.ok none, s')) :
      Walks call context s list [] .ended s'
  | failed {s s' : State} {list : Value} {stop : Stop}
      (h : uncons call context list s = (.error stop, s')) :
      Walks call context s list [] (.failed stop) s'
  | item {s s₁ s' : State} {list head tail : Value} {items : List Value} {halt : Halt}
      (h : uncons call context list s = (.ok (some (head, tail)), s₁))
      (hRest : Walks call context s₁ tail items halt s') :
      Walks call context s list (head :: items) halt s'

/-- Lists are walked over to their ends, one after the other. -/
inductive WalksEach (call : Caller) (context : String) :
    State → List Value → List (List Value) → State → Prop
  | nil (s : State) : WalksEach call context s [] [] s
  | cons {s s₁ s' : State} {list : Value} {lists : List Value} {items : List Value}
      {others : List (List Value)} (h : Walks call context s list items .ended s₁)
      (hRest : WalksEach call context s₁ lists others s') :
      WalksEach call context s (list :: lists) (items :: others) s'

variable {call : Caller} {context : String} {s s' : State}

theorem elementsOnto_of_walks {list : Value} {items : List Value} {halt : Halt}
    (h : Walks call context s list items halt s') (hEnded : halt = .ended) {fuel : Nat}
    (hFuel : items.length < fuel) (done : List Value) :
    elementsOnto call context fuel done list s = (.ok (done.reverse ++ items), s') := by
  induction h generalizing fuel done with
  | leftOff => cases hEnded
  | failed => cases hEnded
  | ended h =>
      obtain ⟨n, rfl⟩ : ∃ n, fuel = n + 1 := ⟨fuel - 1, by omega⟩
      rw [elementsOnto, bind_apply_ok h, List.append_nil]
      rfl
  | @item _ _ _ _ head tail items _ h _ ih =>
      obtain ⟨n, rfl⟩ : ∃ n, fuel = n + 1 := ⟨fuel - 1, by omega⟩
      have hShorter : items.length < n := by simpa using hFuel
      have hLater := ih hEnded hShorter (head :: done)
      rw [elementsOnto, bind_apply_ok h]
      simpa using hLater

/-- **Forcing a list to its end gives the elements of the walk over it.** -/
theorem elements_of_walks {list : Value} {items : List Value}
    (h : Walks call context s list items .ended s') {fuel : Nat} (hFuel : items.length < fuel) :
    elements call fuel context list s = (.ok items, s') :=
  elementsOnto_of_walks h rfl hFuel []

/-- The same for lists that are forced one after the other. -/
theorem elementsOfAll_of_walksEach {lists : List Value} {itemss : List (List Value)}
    (h : WalksEach call context s lists itemss s') {fuel : Nat}
    (hFuel : ∀ items ∈ itemss, items.length < fuel) :
    elementsOfAll call fuel context lists s = (.ok itemss.flatten, s') := by
  induction h with
  | nil => rfl
  | cons h _ ih =>
      have hFirst := elements_of_walks h (hFuel _ (by simp))
      have hRest := ih fun items hItems => hFuel items (by simp [hItems])
      rw [elementsOfAll, bind_apply_ok hFirst, bind_apply_ok hRest]
      rfl

/-! ## Cells in front of a list -/

/-- The same list, but that its first cells may have got places for their types. -/
inductive Value.Placing : Value → Value → Prop
  | same (v : Value) : Placing v v
  | cell {head tail tail' : Value} {place : Nat} (h : Placing tail tail') :
      Placing (.cell head tail (.pending none)) (.cell head tail' (.pending (some place)))

/-- Values in cells in front of a list, whatever the cells know of their types. -/
inductive Value.Consed : List Value → Value → Value → Prop
  | nil {tail tail' : Value} (h : tail.Placing tail') : Consed [] tail tail'
  | cons {head tail rest : Value} {items : List Value} {elem : ElemType}
      (h : Consed items tail rest) : Consed (head :: items) tail (.cell head rest elem)

/-- Cells that lack places get them, and the table grows by as many. -/
theorem Value.placing_place (v : Value) (asked : AskedTypes) :
    v.Placing (v.place asked).1 ∧
      ∃ count, (v.place asked).2 = asked ++ Array.replicate count none := by
  induction v with
  | cell head tail elem _ ih =>
      match elem with
      | .fixed ty => exact ⟨.same _, 0, by simp [place, pure, StateT.pure]⟩
      | .pending (some place) => exact ⟨.same _, 0, by simp [Value.place, pure, StateT.pure]⟩
      | .pending none =>
          obtain ⟨hTail, count, hTable⟩ := ih
          refine ⟨.cell hTail, count + 1, ?_⟩
          rw [Array.replicate_succ, Array.append_push, ← hTable]
          rfl
  | _ => exact ⟨.same _, 0, by simp [place, pure, StateT.pure]⟩

/-- A value that has been made is the value, and the state only has more places. -/
theorem newValue_placing (v : Value) (s : State) :
    ∃ made count, newValue v s =
        (.ok made, { s with asked := s.asked ++ Array.replicate count none }) ∧
      v.Placing made := by
  by_cases hUnplaced : ∃ head tail, v = .cell head tail (.pending none)
  · obtain ⟨head, tail, rfl⟩ := hUnplaced
    obtain ⟨hPlacing, count, hTable⟩ :=
      Value.placing_place (.cell head tail (.pending none)) s.asked
    refine ⟨_, count, ?_, hPlacing⟩
    rw [← hTable]
    rfl
  · have hSame : newValue v s = (.ok v, s) := by
      unfold newValue
      split
      · exact absurd ⟨_, _, rfl⟩ hUnplaced
      · rfl
    exact ⟨v, 0, by simpa using hSame, .same v⟩

/-- Strict cells that have been put in front of a list are in front of it. -/
theorem Value.Placing.consed {r : Ty.Registry} {items : List Value} {tail made : Value}
    (h : (Value.append r items tail).Placing made) : Value.Consed items tail made := by
  induction items generalizing made with
  | nil => exact .nil h
  | cons head items ih =>
      rw [Value.append, List.foldr_cons] at h
      generalize hCell : Value.cons r head (List.foldr (Value.cons r) tail items) = cell at h
      cases h with
      | same =>
          subst hCell
          exact .cons (ih (.same _))
      | cell hTail =>
          injection hCell with hHead hRest
          subst hHead hRest
          exact .cons (ih hTail)

theorem walks_cell_iff {head tail : Value} {elem : ElemType} {items : List Value} {halt : Halt} :
    Walks call context s (.cell head tail elem) items halt s' ↔
      (items = [] ∧ halt = .leftOff ∧ s' = s) ∨
        ∃ rest, items = head :: rest ∧ Walks call context s tail rest halt s' := by
  have hOpens : uncons call context (.cell head tail elem) s = (.ok (some (head, tail)), s) :=
    uncons_cell rfl s
  constructor
  · intro h
    cases h with
    | leftOff => exact .inl ⟨rfl, rfl, rfl⟩
    | ended h | failed h =>
        rw [hOpens] at h
        cases h
    | item h hRest =>
        rw [hOpens] at h
        cases h
        exact .inr ⟨_, rfl, hRest⟩
  · rintro (⟨rfl, rfl, rfl⟩ | ⟨rest, rfl, hRest⟩)
    · exact .leftOff _ _
    · exact .item hOpens hRest

/-- Places make no difference to a walk. -/
theorem Value.Placing.walks_iff {v v' : Value} (h : v.Placing v') {items : List Value}
    {halt : Halt} :
    Walks call context s v' items halt s' ↔ Walks call context s v items halt s' := by
  induction h generalizing items with
  | same v => rfl
  | cell _ ih => simp only [walks_cell_iff, ih]

/-- **A walk over strict cells in front of a list goes on as a walk over that list.** -/
theorem walks_append_iff {items others : List Value} {tail list : Value}
    (h : Value.Consed items tail list) {halt : Halt} :
    Walks call context s list (items ++ others) halt s' ↔
      Walks call context s tail others halt s' := by
  induction h with
  | nil hPlacing => exact hPlacing.walks_iff
  | cons _ ih => simp [walks_cell_iff, ih]

/-- Opening a list looks through its tag. -/
theorem uncons_untagged {list : Value} (hList : list.isList) :
    uncons call context list.untagged = uncons call context list := by
  have hOnce : list.untagged.untagged = list.untagged := by
    unfold Value.isList at hList
    cases hShape : list.untagged with
    | tagged tag value => simp [hShape] at hList
    | _ => rfl
  unfold uncons
  rw [hOnce]

/-- A walk only depends on what opening the list gives. -/
theorem Walks.of_opens {list other : Value} {items : List Value} {halt : Halt}
    (h : Walks call context s list items halt s')
    (hOpens : uncons call context other = uncons call context list) :
    Walks call context s other items halt s' := by
  cases h with
  | leftOff => exact .leftOff _ _
  | ended h => exact .ended (hOpens ▸ h)
  | failed h => exact .failed (hOpens ▸ h)
  | item h hRest => exact .item (hOpens ▸ h) hRest

/-- A walk looks through the tag of a list. -/
theorem walks_untagged_iff {list : Value} (hList : list.isList) {items : List Value}
    {halt : Halt} :
    Walks call context s list.untagged items halt s' ↔ Walks call context s list items halt s' :=
  ⟨fun h => h.of_opens (uncons_untagged hList).symm, fun h => h.of_opens (uncons_untagged hList)⟩

/-! ## Arguments -/

/-- Text, under a tag or not. -/
def Value.IsText (value : Value) : Prop := ∃ text, value.untagged = .str text

theorem textsOf?_texts {values : List Value} {texts : List String}
    (h : values.map Value.untagged = texts.map Value.str) : textsOf? values = some texts := by
  induction values generalizing texts with
  | nil =>
      have hEmpty : texts = [] := by simpa using h.symm
      subst hEmpty
      rfl
  | cons value values ih =>
      cases texts with
      | nil => simp at h
      | cons text texts =>
          obtain ⟨hFirst, hRest⟩ := List.cons.inj h
          simp [textsOf?, textOf?, hFirst, ih hRest]

theorem textOf?_none {value : Value} (h : ¬ value.IsText) : textOf? value = none := by
  cases hUnder : value.untagged with
  | str text => exact absurd ⟨text, hUnder⟩ h
  | _ => simp [textOf?, hUnder]

theorem textsOf?_none {values : List Value} (h : ¬ ∀ value ∈ values, value.IsText) :
    textsOf? values = none := by
  induction values with
  | nil => simp at h
  | cons value values ih =>
      by_cases hFirst : value.IsText
      · have hRest : ¬ ∀ v ∈ values, v.IsText := by simpa [hFirst] using h
        simp [textsOf?, ih hRest]
      · simp [textsOf?, textOf?_none hFirst]

theorem firstNonList_first {values : List Value} {position : Nat} {value : Value}
    (h : FirstWithout (·.isList) values position value) (start : Nat) :
    firstNonList start values = some (start + position, value) := by
  induction values generalizing position start with
  | nil => simpa using h.found
  | cons first values ih =>
      cases position with
      | zero =>
          have hOther : ¬ value.isList := h.without
          simp [firstNonList, h.head, hOther]
      | succ position =>
          have hList : first.isList := h.passes
          rw [firstNonList, if_pos hList, ih h.tail, Nat.add_assoc, Nat.add_comm 1]

theorem firstNonList_none {values : List Value} (h : ∀ value ∈ values, value.isList)
    (start : Nat) : firstNonList start values = none := by
  induction values generalizing start with
  | nil => rfl
  | cons first values ih =>
      rw [firstNonList, if_pos (h first (by simp)), ih fun v hv => h v (by simp [hv])]

/-! ## The builtin -/

/-- A list is no text. -/
theorem Value.IsText.not_isList {value : Value} (h : value.IsText) : ¬ value.isList := by
  obtain ⟨text, hUnder⟩ := h
  simp [Value.isList, hUnder]

section

variable {arguments : List Value} {fuel : Nat}

theorem concatAll_texts (hSome : arguments ≠ []) {texts : List String}
    (h : arguments.map Value.untagged = texts.map Value.str) :
    concatAll call fuel arguments s = (.ok (.str (String.join texts)), s) := by
  obtain ⟨last, hLast⟩ := List.getLast?_isSome.mpr hSome |> Option.isSome_iff_exists.mp
  simp only [concatAll, hLast, textsOf?_texts h]
  rfl

/-- What is no list is reported before anything is forced. -/
theorem concatAll_other (hMixed : ¬ ∀ value ∈ arguments, value.IsText) {position : Nat}
    {value : Value} (h : FirstWithout (·.isList) arguments position value) :
    concatAll call fuel arguments s =
      (.error (.error (s.view.argumentError "list" value position)), s) := by
  have hSome : arguments ≠ [] := by
    rintro rfl
    simpa using h.found
  obtain ⟨last, hLast⟩ := List.getLast?_isSome.mpr hSome |> Option.isSome_iff_exists.mp
  simp only [concatAll, hLast, textsOf?_none hMixed, firstNonList_first h, Nat.zero_add]
  rfl

theorem concatAll_lists {init : List Value} {last : Value}
    (hLists : ∀ value ∈ init ++ [last], value.isList) {itemss : List (List Value)}
    (h : WalksEach call "concat" s init itemss s') (hFuel : ∀ items ∈ itemss, items.length < fuel) :
    concatAll call fuel (init ++ [last]) s =
      newValue (Value.append s'.program.types itemss.flatten last.untagged) s' := by
  have hMixed : ¬ ∀ value ∈ init ++ [last], value.IsText :=
    fun hTexts => (hTexts last (by simp)).not_isList (hLists last (by simp))
  simp only [concatAll, List.getLast?_concat, textsOf?_none hMixed, firstNonList_none hLists,
    List.dropLast_concat]
  rw [bind_apply_ok (elementsOfAll_of_walksEach h hFuel), get_bind_apply]

end

/-- **Concatenation is lazy in its last list.** Text is joined. Otherwise the first argument that is
no list is reported, and nothing has been forced then. Lists before the last one are forced to their
ends, one after the other, and nothing else happens; their elements are consed in front of the last
list, and forcing the result gives these elements and then does what forcing the last list does. -/
theorem concat_appends {b : Builtin} (hFind : Builtin.find? "concat" = some b) (call : Caller)
    {arguments : List Value} (hSome : arguments ≠ []) (s : State) :
    (∀ texts : List String, arguments.map Value.untagged = texts.map Value.str →
      ∀ fuel, b.called call fuel arguments s = (.ok (.str (String.join texts)), s)) ∧
    ((¬ ∀ value ∈ arguments, value.IsText) →
      ∀ position value, FirstWithout (·.isList) arguments position value →
        ∀ fuel, b.called call fuel arguments s =
          (.error (.error (.cast "concat" "list" (s.repr value) position)), s)) ∧
    ∀ init last, arguments = init ++ [last] → (∀ value ∈ arguments, value.isList) →
      ∀ itemss s', WalksEach call "concat" s init itemss s' →
        ∃ result places enough,
          (∀ fuel, enough ≤ fuel → b.called call fuel arguments s =
            (.ok result, { s' with asked := s'.asked ++ Array.replicate places none })) ∧
          Value.Consed itemss.flatten last.untagged result ∧
          ∀ context t items halt t',
            Walks call context t result (itemss.flatten ++ items) halt t' ↔
              Walks call context t last items halt t' := by
  obtain rfl : b = _ := (Option.some.inj hFind).symm
  refine ⟨fun texts hTexts fuel => ?_, fun hMixed position value hOther fuel => ?_, ?_⟩
  · exact Run.mapError_ok (concatAll_texts hSome hTexts) _
  · exact Run.mapError_error (concatAll_other hMixed hOther) _
  · rintro init last rfl hLists itemss s' hWalks
    obtain ⟨result, places, hMade, hPlacing⟩ :=
      newValue_placing (Value.append s'.program.types itemss.flatten last.untagged) s'
    have hConsed := hPlacing.consed
    refine ⟨result, places, (itemss.map List.length).sum + 1, fun fuel hFuel => ?_, hConsed, ?_⟩
    · refine Run.mapError_ok ((concatAll_lists hLists hWalks fun items hItems => ?_).trans hMade) _
      have hBound := List.single_le_sum (l := itemss.map List.length) (by simp) items.length
        (List.mem_map_of_mem hItems)
      omega
    · intro context t items halt t'
      rw [walks_append_iff hConsed, walks_untagged_iff (hLists last (by simp))]

/-- A tagged list, and a lazy one that is also the last list. -/
def sharing : List Value :=
  [.tagged "Row" (.cell (.tagged "Metre" (.int 7)) .nil (.fixed (.named "Metre"))), .lazy 0,
    .lazy 0]

/-- Forcing the lists before the last one forces the lazy list to its end. -/
theorem walksEach_sharing :
    WalksEach Session.tailingCall "concat" Session.tailing (sharing.take 2)
      [[.tagged "Metre" (.int 7)], [.int 1]] Session.tailed := by
  have hKnown := Session.isTailing
  have hFirst := force_of_outcome hKnown.first Session.tailingCall
  have hStrict : Walks Session.tailingCall "concat" Session.tailing sharing[0]
      [.tagged "Metre" (.int 7)] .ended Session.tailing :=
    .item (uncons_cell rfl _) (.ended (uncons_nil rfl _))
  have hLazy : Walks Session.tailingCall "concat" Session.tailing sharing[1]
      [.int 1] .ended Session.tailed :=
    .item (uncons_item rfl hFirst) (.ended (uncons_ended rfl hKnown.second))
  exact .cons hStrict (.cons hLazy (.nil _))

/-- The tagged number keeps its tag, and the list that the first two are put in front of is the one
that has been forced on the way. -/
theorem concat_appends_of_sharing :
    ∃ b, Builtin.find? "concat" = some b ∧ sharing ≠ [] ∧
      ∃ result places enough,
        (∀ fuel, enough ≤ fuel → b.called Session.tailingCall fuel sharing Session.tailing =
          (.ok result, { Session.tailed with
            asked := Session.tailed.asked ++ Array.replicate places none })) ∧
        Value.Consed [.tagged "Metre" (.int 7), .int 1] (.lazy 0) result := by
  have hSome : sharing ≠ [] := nofun
  refine ⟨_, rfl, hSome, ?_⟩
  obtain ⟨-, -, hAppends⟩ := concat_appends rfl Session.tailingCall hSome Session.tailing
  obtain ⟨result, places, enough, hResult, hConsed, -⟩ :=
    hAppends (sharing.take 2) (.lazy 0) rfl (by simp [sharing, Value.isList, Value.untagged])
      _ _ walksEach_sharing
  exact ⟨result, places, enough, hResult, hConsed⟩

end ClauseLisp
