import ClauseLisp.Ty.Printer
import ClauseLisp.Ty.Reader

/-!
# Reading the text of a type

The text of a type is read back as the type, in front of anything that can
follow it, and whatever is read as a type has such a text.  A name goes on as
long as there are name characters, and an opening bracket after it belongs to
the type; so what follows must start with neither.

## Main results

* `Ty.read_chars` — the text of a readable type is read as that type.
* `Ty.readable_of_read` — what is read as a type is a readable type.
-/

namespace ClauseLisp

/-- A text does not start with a character of a class. -/
def StopsAt (p : Char → Bool) : List Char → Prop
  | [] => True
  | c :: _ => p c = false

theorem takeWhile_append_of_stopsAt {p : Char → Bool} {cs rest : List Char}
    (hAll : ∀ c ∈ cs, p c = true) (hStop : StopsAt p rest) :
    (cs ++ rest).takeWhile p = cs ∧ (cs ++ rest).dropWhile p = rest := by
  have hRest : rest.takeWhile p = [] ∧ rest.dropWhile p = rest := by
    cases rest with
    | nil => exact ⟨rfl, rfl⟩
    | cons c rest =>
        have hc : p c = false := hStop
        simp [hc]
  rw [List.takeWhile_append_of_pos hAll, List.dropWhile_append_of_pos hAll, hRest.1, hRest.2,
    List.append_nil]
  exact ⟨rfl, rfl⟩

namespace Ty

/-! ## Readable types -/

mutual

/-- A type that can be written: it has no variables, and its names are not empty,
consist of name characters and are neither `list` nor `func`. -/
def Readable : Ty → Prop
  | .named name => name.toList ≠ [] ∧ (∀ c ∈ name.toList, isNameChar c = true) ∧
      name ≠ "list" ∧ name ≠ "func"
  | .list elem => Readable elem
  | .func => True
  | .arrow params ret => AllReadable params ∧ Readable ret
  | .var _ => False

/-- `Readable`, for several types. -/
def AllReadable : List Ty → Prop
  | [] => True
  | t :: ts => Readable t ∧ AllReadable ts

end

theorem allReadable_append {ts us : List Ty} :
    AllReadable (ts ++ us) ↔ AllReadable ts ∧ AllReadable us := by
  induction ts with
  | nil => simp [AllReadable]
  | cons t ts ih => simp [AllReadable, ih, and_assoc]

/-- The text of a readable type starts with a name character. -/
theorem exists_chars_eq_cons {t : Ty} (h : t.Readable) :
    ∃ c cs, t.chars = c :: cs ∧ isNameChar c = true := by
  cases t with
  | named name =>
      rw [Readable] at h
      rw [chars]
      cases hName : name.toList with
      | nil => exact absurd hName h.1
      | cons c cs => exact ⟨c, cs, rfl, h.2.1 c (hName ▸ List.mem_cons_self)⟩
  | list elem =>
      rw [chars]
      split
      · exact ⟨'l', _, rfl, by decide⟩
      · exact ⟨'l', _, rfl, by decide⟩
  | func => exact ⟨'f', _, rfl, by decide⟩
  | arrow params ret =>
      rw [chars]
      exact ⟨'f', _, rfl, by decide⟩
  | var name =>
      rw [Readable] at h
      exact absurd h id

/-- No name character is spacing. -/
theorem isSpacing_of_isNameChar {c : Char} (hc : isNameChar c = true) :
    Text.isSpacing c = false := by
  rw [Bool.eq_false_iff]
  intro hSpacing
  simp only [Text.isSpacing, Bool.or_eq_true, decide_eq_true_eq] at hSpacing
  rcases hSpacing with ((rfl | rfl) | rfl) | rfl <;> exact absurd hc (by decide)

/-- There is no spacing in front of a readable type. -/
theorem dropSpacing_chars {t : Ty} (h : t.Readable) (rest : List Char) :
    Text.dropSpacing (t.chars ++ rest) = t.chars ++ rest := by
  obtain ⟨c, cs, hChars, hc⟩ := exists_chars_eq_cons h
  rw [hChars, Text.dropSpacing, List.cons_append, List.dropWhile_cons, isSpacing_of_isNameChar hc]
  rfl

/-- What may follow a type: neither a name character nor an opening bracket. -/
def Ended (rest : List Char) : Prop := StopsAt isNameChar rest ∧ rest.head? ≠ some '['

theorem ended_cons {c : Char} (hc : isNameChar c = false) (hBracket : c ≠ '[') (rest : List Char) :
    Ended (c :: rest) :=
  ⟨hc, fun h => hBracket (Option.some.inj h)⟩

/-! ## Names with and without arguments -/

theorem readArguments_of_ended {read : List Char → Reading Ty} {rest : List Char}
    (h : rest.head? ≠ some '[') : readArguments read rest = .error (.stuck rest) := by
  unfold readArguments
  split
  · exact absurd rfl h
  · rfl

/-- A name that no bracket follows is a type on its own. -/
theorem readWith_name {fuel : Nat} {name rest : List Char} {t : Ty} (hNe : name ≠ [])
    (hName : ∀ c ∈ name, isNameChar c = true) (hRest : Ended rest)
    (hParts : ofParts? (String.ofList name) none = some t) :
    readWith (fuel + 1) (name ++ rest) = .ok (t, rest) := by
  obtain ⟨hTake, hDrop⟩ := takeWhile_append_of_stopsAt hName hRest.1
  have hEmpty : name.isEmpty = false := List.isEmpty_eq_false_iff.mpr hNe
  rw [readWith]
  simp only [hTake, hDrop, hEmpty, readArguments_of_ended hRest.2, hParts, Bool.false_eq_true,
    if_false]

/-- A name with arguments in brackets. -/
theorem readWith_bracketed {fuel : Nat} {name rest rest' : List Char} {args : List Ty} {t : Ty}
    (hNe : name ≠ []) (hName : ∀ c ∈ name, isNameChar c = true)
    (hArgs : readArguments (readWith fuel) ('[' :: rest) = .ok (args, rest'))
    (hParts : ofParts? (String.ofList name) (some args) = some t) :
    readWith (fuel + 1) (name ++ '[' :: rest) = .ok (t, rest') := by
  have hStop : StopsAt isNameChar ('[' :: rest) := by
    show isNameChar '[' = false
    decide
  obtain ⟨hTake, hDrop⟩ := takeWhile_append_of_stopsAt hName hStop
  have hEmpty : name.isEmpty = false := List.isEmpty_eq_false_iff.mpr hNe
  rw [readWith]
  simp only [hTake, hDrop, hEmpty, hArgs, hParts, Bool.false_eq_true, if_false]

theorem isNameChar_of_mem_list : ∀ c ∈ ['l', 'i', 's', 't'], isNameChar c = true :=
  List.all_eq_true.mp (by decide)

theorem isNameChar_of_mem_func : ∀ c ∈ ['f', 'u', 'n', 'c'], isNameChar c = true :=
  List.all_eq_true.mp (by decide)

/-! ## Arguments in brackets -/

/-- The texts of the arguments after the first, each after a comma. -/
def moreChars : List Ty → List Char
  | [] => []
  | t :: ts => ',' :: (chars t ++ moreChars ts)

/-- The parameters and the result of a function type are arguments like any others. -/
theorem exists_paramChars_append (params : List Ty) (ret : Ty) :
    ∃ t ts, params ++ [ret] = t :: ts ∧
      paramChars params ++ chars ret = chars t ++ moreChars ts := by
  induction params with
  | nil => exact ⟨ret, [], rfl, by simp [paramChars, moreChars]⟩
  | cons p params ih =>
      obtain ⟨t, ts, hArgs, hText⟩ := ih
      refine ⟨p, t :: ts, by rw [List.cons_append, hArgs], ?_⟩
      rw [paramChars, List.append_assoc, List.cons_append, hText, moreChars]

theorem length_le_moreChars (ts : List Ty) : ts.length ≤ (moreChars ts).length := by
  induction ts with
  | nil => exact Nat.le_refl 0
  | cons t ts ih =>
      simp only [moreChars, List.length_cons, List.length_append]
      omega

/-- The text of each argument is part of the text of all. -/
theorem length_chars_le_of_mem {t : Ty} {ts : List Ty} (h : t ∈ ts) :
    t.chars.length ≤ (moreChars ts).length := by
  induction ts with
  | nil => cases h
  | cons u us ih =>
      simp only [moreChars, List.length_cons, List.length_append]
      rcases List.mem_cons.mp h with rfl | h
      · omega
      · have hRest := ih h
        omega

theorem ended_moreChars (ts : List Ty) (rest : List Char) : Ended (moreChars ts ++ ']' :: rest) := by
  cases ts with
  | nil => exact ended_cons (by decide) (by decide) _
  | cons t ts => exact ended_cons (by decide) (by decide) _

variable {reader : List Char → Reading Ty}

theorem readMore_chars :
    ∀ {ts : List Ty} {fuel : Nat} {rest : List Char}, AllReadable ts →
      (∀ t ∈ ts, ∀ rest, Ended rest → reader (chars t ++ rest) = .ok (t, rest)) →
      ts.length ≤ fuel →
      readMore reader fuel (moreChars ts ++ ']' :: rest) = .ok (ts, ']' :: rest) := by
  intro ts
  induction ts with
  | nil =>
      intro fuel rest _ _ _
      cases fuel <;> rfl
  | cons t ts ih =>
      intro fuel rest hReadable hRead hFuel
      obtain ⟨n, rfl⟩ : ∃ n, fuel = n + 1 := ⟨fuel - 1, by rw [List.length_cons] at hFuel; omega⟩
      rw [AllReadable] at hReadable
      have hFirst := hRead t List.mem_cons_self (moreChars ts ++ ']' :: rest)
        (ended_moreChars ts rest)
      have hRest : readMore reader n (moreChars ts ++ ']' :: rest) = .ok (ts, ']' :: rest) :=
        ih hReadable.2 (fun u hu => hRead u (List.mem_cons_of_mem t hu))
          (by rw [List.length_cons] at hFuel; omega)
      have hComma : Text.dropSpacing (moreChars (t :: ts) ++ ']' :: rest) =
          ',' :: (chars t ++ (moreChars ts ++ ']' :: rest)) := by
        rw [moreChars, List.cons_append, List.append_assoc]
        rfl
      rw [readMore, hComma]
      simp only [dropSpacing_chars hReadable.1, hFirst, hRest]

/-- Arguments between brackets are read as they are. -/
theorem readArguments_chars {t : Ty} {ts : List Ty} {rest : List Char}
    (hReadable : AllReadable (t :: ts))
    (hRead : ∀ u ∈ t :: ts, ∀ rest, Ended rest → reader (chars u ++ rest) = .ok (u, rest)) :
    readArguments reader ('[' :: (chars t ++ (moreChars ts ++ ']' :: rest))) =
      .ok (t :: ts, rest) := by
  rw [AllReadable] at hReadable
  have hFirst := hRead t List.mem_cons_self (moreChars ts ++ ']' :: rest) (ended_moreChars ts rest)
  have hLength : ts.length ≤ (moreChars ts ++ ']' :: rest).length := by
    have hMore := length_le_moreChars ts
    rw [List.length_append]
    omega
  have hMore : readMore reader (moreChars ts ++ ']' :: rest).length (moreChars ts ++ ']' :: rest) =
      .ok (ts, ']' :: rest) :=
    readMore_chars hReadable.2 (fun u hu => hRead u (List.mem_cons_of_mem t hu)) hLength
  rw [readArguments]
  simp only [dropSpacing_chars hReadable.1, hFirst, hMore]
  rfl

/-! ## Types with arguments -/

/-- A list type, if the type of its elements is read as it is. -/
theorem readWith_list {fuel : Nat} {elem : Ty} {rest : List Char} (hReadable : elem.Readable)
    (hElem : ∀ rest, Ended rest → readWith fuel (chars elem ++ rest) = .ok (elem, rest)) :
    readWith (fuel + 1) (['l', 'i', 's', 't', '['] ++ chars elem ++ [']'] ++ rest) =
      .ok (.list elem, rest) := by
  have hArgs : readArguments (readWith fuel)
      ('[' :: (chars elem ++ (moreChars [] ++ ']' :: rest))) = .ok ([elem], rest) := by
    refine readArguments_chars ⟨hReadable, trivial⟩ fun u hu => ?_
    rw [List.mem_singleton.mp hu]
    exact hElem
  have hText : ['l', 'i', 's', 't', '['] ++ chars elem ++ [']'] ++ rest =
      ['l', 'i', 's', 't'] ++ '[' :: (chars elem ++ (moreChars [] ++ ']' :: rest)) := by
    simp [moreChars]
  rw [hText]
  exact readWith_bracketed (by decide) isNameChar_of_mem_list hArgs rfl

/-- The text of a parameter or of the result is part of the text of a function type. -/
theorem length_chars_lt_arrow {params : List Ty} {ret u : Ty} (hu : u ∈ params ++ [ret]) :
    u.chars.length < (Ty.arrow params ret).chars.length := by
  obtain ⟨t, ts, hParts, hText⟩ := exists_paramChars_append params ret
  rw [chars, List.append_assoc ['f', 'u', 'n', 'c', '['], hText]
  simp only [List.length_append, List.length_cons, List.length_nil]
  rw [hParts] at hu
  rcases List.mem_cons.mp hu with rfl | hu
  · omega
  · have hMore := length_chars_le_of_mem hu
    omega

/-- A function type, if the types of its parameters and of its result are read as they are. -/
theorem readWith_arrow {fuel : Nat} {params : List Ty} {ret : Ty} {rest : List Char}
    (hReadable : AllReadable (params ++ [ret]))
    (hEach : ∀ u ∈ params ++ [ret], ∀ rest, Ended rest →
      readWith fuel (chars u ++ rest) = .ok (u, rest)) :
    readWith (fuel + 1) ((Ty.arrow params ret).chars ++ rest) = .ok (.arrow params ret, rest) := by
  obtain ⟨t, ts, hParts, hText⟩ := exists_paramChars_append params ret
  have hFunc : ofParts? "func" (some (params ++ [ret])) = some (.arrow params ret) := by
    simp [ofParts?]
  rw [hParts] at hReadable hEach hFunc
  have hArgs : readArguments (readWith fuel)
      ('[' :: (chars t ++ (moreChars ts ++ ']' :: rest))) = .ok (t :: ts, rest) :=
    readArguments_chars hReadable hEach
  have hBracketed : ['f', 'u', 'n', 'c', '['] ++ (chars t ++ moreChars ts) ++ [']'] ++ rest =
      ['f', 'u', 'n', 'c'] ++ '[' :: (chars t ++ (moreChars ts ++ ']' :: rest)) := by
    simp
  rw [chars, List.append_assoc ['f', 'u', 'n', 'c', '['], hText, hBracketed]
  exact readWith_bracketed (by decide) isNameChar_of_mem_func hArgs hFunc

/-! ## From text to type -/

mutual

/-- The text of a readable type is read as that type, if there is fuel for each
character. -/
theorem readWith_chars :
    ∀ (t : Ty) {fuel : Nat} {rest : List Char}, t.Readable → t.chars.length < fuel → Ended rest →
      readWith fuel (t.chars ++ rest) = .ok (t, rest)
  | .named name, fuel, rest, hReadable, hFuel, hRest => by
    obtain ⟨n, rfl⟩ : ∃ n, fuel = n + 1 := ⟨fuel - 1, by omega⟩
    rw [Readable] at hReadable
    obtain ⟨hNe, hName, hList, hFunc⟩ := hReadable
    rw [chars]
    refine readWith_name hNe hName hRest ?_
    rw [String.ofList_toList, ofParts?, if_neg hList, if_neg hFunc]
  | .func, fuel, rest, _, hFuel, hRest => by
    obtain ⟨n, rfl⟩ : ∃ n, fuel = n + 1 := ⟨fuel - 1, by omega⟩
    rw [chars]
    exact readWith_name (by decide) isNameChar_of_mem_func hRest rfl
  | .list elem, fuel, rest, hReadable, hFuel, hRest => by
    obtain ⟨n, rfl⟩ : ∃ n, fuel = n + 1 := ⟨fuel - 1, by omega⟩
    rw [Readable] at hReadable
    rw [chars] at hFuel ⊢
    split
    · rename_i hAny
      have hElem : elem = any := by
        cases elem with
        | named name => exact congrArg Ty.named (of_decide_eq_true hAny)
        | _ => cases hAny
      rw [hElem]
      exact readWith_name (by decide) isNameChar_of_mem_list hRest rfl
    · rename_i hAny
      rw [if_neg hAny] at hFuel
      simp only [List.length_append, List.length_cons, List.length_nil] at hFuel
      exact readWith_list hReadable fun rest hRest =>
        readWith_chars elem hReadable (by omega) hRest
  | .arrow params ret, fuel, rest, hReadable, hFuel, hRest => by
    obtain ⟨n, rfl⟩ : ∃ n, fuel = n + 1 := ⟨fuel - 1, by omega⟩
    rw [Readable] at hReadable
    have hLength : ∀ u ∈ params ++ [ret], u.chars.length < n :=
      fun u hu => Nat.lt_of_lt_of_le (length_chars_lt_arrow hu) (Nat.le_of_lt_succ hFuel)
    refine readWith_arrow (allReadable_append.mpr ⟨hReadable.1, hReadable.2, trivial⟩) ?_
    intro u hu rest hRest
    rcases List.mem_append.mp hu with hParam | hRet
    · exact readWith_chars_of_mem params hReadable.1
        (fun v hv => hLength v (List.mem_append_left _ hv)) u hParam rest hRest
    · rw [List.mem_singleton.mp hRet]
      exact readWith_chars ret hReadable.2
        (hLength ret (List.mem_append_right _ List.mem_cons_self)) hRest
  | .var name, fuel, rest, hReadable, _, _ => by
    rw [Readable] at hReadable
    exact absurd hReadable id

/-- The same for each of several types. -/
theorem readWith_chars_of_mem :
    ∀ (ts : List Ty) {fuel : Nat}, AllReadable ts → (∀ t ∈ ts, t.chars.length < fuel) →
      ∀ t ∈ ts, ∀ rest, Ended rest → readWith fuel (t.chars ++ rest) = .ok (t, rest)
  | [], _, _, _, t, ht, _, _ => by cases ht
  | u :: us, fuel, hReadable, hFuel, t, ht, rest, hRest => by
    rw [AllReadable] at hReadable
    rcases List.mem_cons.mp ht with hEq | ht
    · rw [hEq]
      exact readWith_chars u hReadable.1 (hFuel u List.mem_cons_self) hRest
    · exact readWith_chars_of_mem us hReadable.2
        (fun v hv => hFuel v (List.mem_cons_of_mem u hv)) t ht rest hRest

end

/-- **The text of a readable type is read as that type**, in front of whatever may
follow it. -/
theorem read_chars {t : Ty} (h : t.Readable) {rest : List Char} (hRest : Ended rest) :
    read (t.chars ++ rest) = .ok (t, rest) := by
  refine readWith_chars t h ?_ hRest
  rw [List.length_append]
  omega

/-! ## What is read as a type -/

/-- A name without arguments makes a readable type. -/
private theorem readable_of_name {name : List Char} {t : Ty} (hNe : name ≠ [])
    (hName : ∀ c ∈ name, isNameChar c = true)
    (h : ofParts? (String.ofList name) none = some t) : t.Readable := by
  rw [ofParts?] at h
  split at h
  · cases h
    have hAny : ∀ c ∈ "any".toList, isNameChar c = true := List.all_eq_true.mp (by decide)
    rw [listAny, any, Readable, Readable]
    exact ⟨by decide, hAny, by decide, by decide⟩
  · split at h
    · cases h
      rw [Readable]
      trivial
    · rename_i hList hFunc
      cases h
      rw [Readable, String.toList_ofList]
      exact ⟨hNe, hName, hList, hFunc⟩

/-- A name with readable arguments makes a readable type. -/
private theorem readable_of_parts {name : String} {args : List Ty} {t : Ty}
    (hArgs : AllReadable args) (h : ofParts? name (some args) = some t) : t.Readable := by
  unfold ofParts? at h
  simp only at h
  split at h
  · split at h
    · cases h
      rw [Readable]
      rw [AllReadable] at hArgs
      exact hArgs.1
    · cases h
  · split at h
    · obtain ⟨ret, hRet, rfl⟩ := Option.map_eq_some_iff.mp h
      obtain ⟨params, rfl⟩ := List.getLast?_eq_some_iff.mp hRet
      obtain ⟨hParams, hLast⟩ := allReadable_append.mp hArgs
      rw [AllReadable] at hLast
      rw [List.dropLast_concat, Readable]
      exact ⟨hParams, hLast.1⟩
    · cases h

private theorem allReadable_of_readMore
    (hRead : ∀ {cs t rest}, reader cs = .ok (t, rest) → t.Readable) :
    ∀ {fuel : Nat} {cs : List Char} {ts : List Ty} {rest : List Char},
      readMore reader fuel cs = .ok (ts, rest) → AllReadable ts := by
  intro fuel
  induction fuel with
  | zero =>
      intro cs ts rest h
      cases h
      trivial
  | succ fuel ih =>
      intro cs ts rest h
      rw [readMore] at h
      split at h
      · split at h
        · rename_i t after hFirst
          split at h
          · rename_i us end' hRest
            cases h
            rw [AllReadable]
            exact ⟨hRead hFirst, ih hRest⟩
          · cases h
        · cases h
          trivial
        · cases h
      · cases h
        trivial

private theorem allReadable_of_readArguments
    (hRead : ∀ {cs t rest}, reader cs = .ok (t, rest) → t.Readable)
    {cs : List Char} {ts : List Ty} {rest : List Char}
    (h : readArguments reader cs = .ok (ts, rest)) : AllReadable ts := by
  unfold readArguments at h
  split at h
  · split at h
    · cases h
    · rename_i t after hFirst
      split at h
      · cases h
      · rename_i us after' hMore
        split at h
        · cases h
          rw [AllReadable]
          exact ⟨hRead hFirst, allReadable_of_readMore hRead hMore⟩
        · cases h
  · cases h

theorem readable_of_readWith {fuel : Nat} :
    ∀ {cs : List Char} {t : Ty} {rest : List Char}, readWith fuel cs = .ok (t, rest) →
      t.Readable := by
  induction fuel with
  | zero =>
      intro cs t rest h
      cases h
  | succ fuel ih =>
      intro cs t rest h
      rw [readWith] at h
      have hName : ∀ c ∈ cs.takeWhile isNameChar, isNameChar c = true :=
        fun c hc => List.all_eq_true.mp List.all_takeWhile c hc
      split at h
      · cases h
      · rename_i hNe
        replace hNe : cs.takeWhile isNameChar ≠ [] := fun hNil => hNe (by rw [hNil]; rfl)
        split at h
        · rename_i args after hArgs
          simp only at h
          split at h
          · rename_i u hParts
            cases h
            exact readable_of_parts (allReadable_of_readArguments ih hArgs) hParts
          · cases h
        · simp only at h
          split at h
          · rename_i u hParts
            cases h
            exact readable_of_name hNe hName hParts
          · cases h
        · cases h

/-- **What is read as a type is a readable type.** -/
theorem readable_of_read {cs : List Char} {t : Ty} {rest : List Char}
    (h : read cs = .ok (t, rest)) : t.Readable :=
  readable_of_readWith h

end Ty

end ClauseLisp
