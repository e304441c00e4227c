import ClauseLisp.Form.Reader
import ClauseLisp.Proofs.RoundTrip.Types
import ClauseLisp.Proofs.Text.Literals
import ClauseLisp.Proofs.Text.Names

/-!
# Reading the text of a form

The shapes of a form are tried in a fixed order, so reading back a text takes
more than that its own shape accepts it: every shape before must be stuck on it.
The first characters decide this.  Numbers, truth values and symbols all start
with a name character that is no apostrophe, and on those only the shapes of
numbers and of symbols are not stuck at once.

Each form is read in front of what follows it in a longer text: a space, a
closing parenthesis, the end of a line or nothing.

## Main results

* `Form.read_chars` — the text of a readable form is read as that form if it
  nests less deeply than there are levels, and is refused as too deep otherwise.
-/

namespace ClauseLisp

namespace Form

/-! ## Readable forms -/

mutual

/-- A form that can be written: numbers are in range, names are names, an
unannotated name is no truth value, types are readable, and no list is the long
spelling of a quoted form. -/
def Readable : Form → Prop
  | .int n => Number.inRange n = true
  | .bool _ => True
  | .str _ => True
  | .sym name none => isName name.toList = true ∧ name ≠ "true" ∧ name ≠ "false"
  | .sym name (some ty) => isName name.toList = true ∧ ty.Readable
  | .mark ty => ty.Readable
  | .list items => AllReadable items ∧ ∀ inner, items ≠ [.sym "quote" none, inner]
  | .quote inner => Readable inner

/-- `Readable`, for several forms. -/
def AllReadable : List Form → Prop
  | [] => True
  | item :: items => Readable item ∧ AllReadable items

end

mutual

/-- How deeply a form nests: atoms and the empty list not at all. -/
def depth : Form → Nat
  | .int _ => 0
  | .bool _ => 0
  | .str _ => 0
  | .sym _ _ => 0
  | .mark _ => 0
  | .list items => itemsDepth items
  | .quote inner => depth inner + 1

/-- How deeply a list with these items nests. -/
def itemsDepth : List Form → Nat
  | [] => 0
  | item :: items => max (depth item + 1) (itemsDepth items)

end

/-! ## What may follow a form -/

/-- What follows a form: a space, a closing parenthesis, the end of a line or
nothing. -/
def Follows : List Char → Prop
  | [] => True
  | c :: _ => c = ' ' ∨ c = ')' ∨ c = '\n'

theorem Follows.stopsAt {p : Char → Bool} (hSpace : p ' ' = false) (hClose : p ')' = false)
    (hLine : p '\n' = false) {rest : List Char} (h : Follows rest) : StopsAt p rest := by
  cases rest with
  | nil => trivial
  | cons c rest =>
      rcases h with rfl | rfl | rfl
      · exact hSpace
      · exact hClose
      · exact hLine

theorem Follows.atBoundary {rest : List Char} (h : Follows rest) : atBoundary rest = true := by
  cases rest with
  | nil => rfl
  | cons c rest => rcases h with rfl | rfl | rfl <;> rfl

theorem Follows.head?_ne {rest : List Char} (h : Follows rest) {c : Char}
    (hSpace : c ≠ ' ') (hClose : c ≠ ')') (hLine : c ≠ '\n') : rest.head? ≠ some c := by
  cases rest with
  | nil => exact nofun
  | cons d rest =>
      intro hEq
      cases hEq
      rcases h with rfl | rfl | rfl
      · exact hSpace rfl
      · exact hClose rfl
      · exact hLine rfl

theorem Follows.ended {rest : List Char} (h : Follows rest) : Ty.Ended rest :=
  ⟨h.stopsAt (by decide) (by decide) (by decide), h.head?_ne (by decide) (by decide) (by decide)⟩

/-- An atom may end at a boundary. -/
theorem atom_of_atBoundary (form : Form) {rest : List Char} (h : atBoundary rest = true) :
    atom form rest = .ok (form, rest) := if_pos h

/-! ## One shape after the other -/

/-- A shape that is stuck gives way to the next one. -/
theorem firstOf_of_stuck {shape next : List Char → Reading Form}
    {shapes : List (List Char → Reading Form)} {cs at' : List Char}
    (h : shape cs = .error (.stuck at')) :
    firstOf (shape :: next :: shapes) cs = firstOf (next :: shapes) cs := by
  rw [firstOf, h]
  exact nofun

/-- A shape that is not stuck decides. -/
theorem firstOf_of_not_stuck {shape : List Char → Reading Form}
    (shapes : List (List Char → Reading Form)) {cs : List Char}
    (h : ∀ at', shape cs ≠ .error (.stuck at')) : firstOf (shape :: shapes) cs = shape cs := by
  cases shapes with
  | nil => rw [firstOf]
  | cons next shapes =>
      rw [firstOf]
      · split
        · rename_i at' hStuck
          exact absurd hStuck (h at')
        · rfl
      · exact nofun

/-- A shape that gives a form decides. -/
theorem firstOf_of_ok {shape : List Char → Reading Form}
    (shapes : List (List Char → Reading Form)) {cs rest : List Char} {f : Form}
    (h : shape cs = .ok (f, rest)) : firstOf (shape :: shapes) cs = .ok (f, rest) := by
  rw [firstOf_of_not_stuck shapes (by simp [h]), h]

/-- So does a shape that gives a form unless that nests too deeply. -/
theorem firstOf_of_ite {shape : List Char → Reading Form}
    (shapes : List (List Char → Reading Form)) {p : Prop} [Decidable p] {cs rest : List Char}
    {f : Form} (h : shape cs = if p then .ok (f, rest) else .error .tooDeep) :
    firstOf (shape :: shapes) cs = if p then .ok (f, rest) else .error .tooDeep := by
  by_cases hp : p
  · rw [if_pos hp] at h ⊢
    exact firstOf_of_ok shapes h
  · rw [if_neg hp] at h ⊢
    rw [firstOf_of_not_stuck shapes (by simp [h]), h]

variable {reader : List Char → Reading Form} {c : Char} {cs : List Char}

theorem readQuote_stuck (h : c ≠ '\'') :
    readQuote reader (c :: cs) = .error (.stuck (c :: cs)) := by
  unfold readQuote
  split <;> simp_all

theorem readList_stuck (h : c ≠ '(') : readList reader (c :: cs) = .error (.stuck (c :: cs)) := by
  unfold readList
  split <;> simp_all

theorem readHexadecimal_stuck (h : c ≠ '#') :
    readHexadecimal (c :: cs) = .error (.stuck (c :: cs)) := by
  unfold readHexadecimal
  split <;> simp_all

theorem readBool_stuck (h : c ≠ '#') : readBool (c :: cs) = .error (.stuck (c :: cs)) := by
  unfold readBool
  split <;> simp_all

theorem readString_stuck (h : c ≠ '"') : readString (c :: cs) = .error (.stuck (c :: cs)) := by
  unfold readString
  split <;> simp_all

theorem readMark_stuck (h : c ≠ ':') : readMark (c :: cs) = .error (.stuck (c :: cs)) := by
  unfold readMark
  split <;> simp_all

/-- A text that starts with neither a digit nor a minus sign is no number. -/
theorem readDecimal_stuck (hMinus : c ≠ '-') (hDigit : c.isDigit = false) :
    readDecimal (c :: cs) = .error (.stuck (c :: cs)) := by
  unfold readDecimal
  split
  rename_i negative unsigned hSplit
  split at hSplit
  · simp_all
  · cases hSplit
    simp [hDigit]

/-- Nor is a text that starts with a minus sign and no digit after it. -/
theorem readDecimal_minus_stuck (h : StopsAt Char.isDigit cs) :
    readDecimal ('-' :: cs) = .error (.stuck ('-' :: cs)) := by
  cases cs with
  | nil => rfl
  | cons d cs =>
      have hd : d.isDigit = false := h
      simp [readDecimal, hd]

/-! ## The first character decides -/

theorem skipTrivia_cons (hSpacing : Text.isSpacing c = false) (hComment : c ≠ ';') :
    skipTrivia false (c :: cs) = c :: cs := by
  rw [skipTrivia]
  simp [hSpacing, hComment]

/-- Of a text that starts with neither an apostrophe nor a parenthesis only an atom can be
made. -/
theorem read_atomic {levels : Nat} (hSpacing : Text.isSpacing c = false) (hComment : c ≠ ';')
    (hQuote : c ≠ '\'') (hOpen : c ≠ '(') :
    read (levels + 1) (c :: cs) =
      firstOf [readHexadecimal, readDecimal, readBool, readString, readMark, readSymbol]
        (c :: cs) := by
  rw [read, skipTrivia_cons hSpacing hComment, firstOf_of_stuck (readQuote_stuck hQuote),
    firstOf_of_stuck (readList_stuck hOpen)]

/-- Of an atom that starts with neither a number sign, a minus sign nor a digit neither a number
nor a truth value can be made. -/
theorem firstOf_past_numbers (hHash : c ≠ '#') (hMinus : c ≠ '-') (hDigit : c.isDigit = false) :
    firstOf [readHexadecimal, readDecimal, readBool, readString, readMark, readSymbol] (c :: cs) =
      firstOf [readString, readMark, readSymbol] (c :: cs) := by
  rw [firstOf_of_stuck (readHexadecimal_stuck hHash),
    firstOf_of_stuck (readDecimal_stuck hMinus hDigit), firstOf_of_stuck (readBool_stuck hHash)]

theorem read_quotation (levels : Nat) (cs : List Char) :
    read (levels + 1) ('"' :: cs) = firstOf [readString, readMark, readSymbol] ('"' :: cs) := by
  rw [read_atomic (by decide) (by decide) (by decide) (by decide),
    firstOf_past_numbers (by decide) (by decide) (by decide)]

theorem read_colon (levels : Nat) (cs : List Char) :
    read (levels + 1) (':' :: cs) = firstOf [readMark, readSymbol] (':' :: cs) := by
  rw [read_atomic (by decide) (by decide) (by decide) (by decide),
    firstOf_past_numbers (by decide) (by decide) (by decide),
    firstOf_of_stuck (readString_stuck (by decide))]

/-- A name character is none of the characters that are no name characters. -/
theorem ne_of_isNameChar {d : Char} (hc : isNameChar c = true) (hd : isNameChar d = false) :
    c ≠ d := by
  rintro rfl
  rw [hc] at hd
  cases hd

theorem isSpacing_of_isNameChar (hc : isNameChar c = true) : Text.isSpacing c = false := by
  have hSpace := ne_of_isNameChar hc (show isNameChar ' ' = false by decide)
  have hTab := ne_of_isNameChar hc (show isNameChar '\t' = false by decide)
  have hReturn := ne_of_isNameChar hc (show isNameChar '\r' = false by decide)
  have hLine := ne_of_isNameChar hc (show isNameChar '\n' = false by decide)
  simp [Text.isSpacing, hSpace, hTab, hReturn, hLine]

/-- Of a text that starts with a name character other than an apostrophe only a
number or a symbol can be made. -/
theorem read_of_isNameChar {levels : Nat} (hc : isNameChar c = true) (hQuote : c ≠ '\'') :
    read (levels + 1) (c :: cs) = firstOf [readDecimal, readSymbol] (c :: cs) := by
  have hComment := ne_of_isNameChar hc (show isNameChar ';' = false by decide)
  have hOpen := ne_of_isNameChar hc (show isNameChar '(' = false by decide)
  have hHash := ne_of_isNameChar hc (show isNameChar '#' = false by decide)
  have hString := ne_of_isNameChar hc (show isNameChar '"' = false by decide)
  have hColon := ne_of_isNameChar hc (show isNameChar ':' = false by decide)
  rw [read_atomic (isSpacing_of_isNameChar hc) hComment hQuote hOpen,
    firstOf_of_stuck (readHexadecimal_stuck hHash)]
  by_cases hStuck : ∃ at', readDecimal (c :: cs) = .error (.stuck at')
  · obtain ⟨at', hStuck⟩ := hStuck
    rw [firstOf_of_stuck hStuck, firstOf_of_stuck hStuck, firstOf_of_stuck (readBool_stuck hHash),
      firstOf_of_stuck (readString_stuck hString), firstOf_of_stuck (readMark_stuck hColon)]
  · have hNot : ∀ at', readDecimal (c :: cs) ≠ .error (.stuck at') :=
      fun at' h => hStuck ⟨at', h⟩
    rw [firstOf_of_not_stuck _ hNot, firstOf_of_not_stuck _ hNot]

/-! ## Numbers -/

theorem checked?_of_inRange {n : Int} (h : Number.inRange n = true) :
    Number.checked? n = some n := by
  rw [Number.checked?, if_pos h]

/-- Digits up to a boundary are a number, if it is in range. -/
theorem readDecimal_natural {digits rest : List Char} {n : Int} (hNe : digits ≠ [])
    (hDigits : ∀ c ∈ digits, c.isDigit = true) (hStop : StopsAt Char.isDigit rest)
    (hRange : Number.checked? (Number.ofDigits 10 Number.decimalDigit digits) = some n)
    (hEnd : atBoundary rest = true) : readDecimal (digits ++ rest) = .ok (.int n, rest) := by
  obtain ⟨hTake, hDrop⟩ := takeWhile_append_of_stopsAt hDigits hStop
  have hEmpty : digits.isEmpty = false := List.isEmpty_eq_false_iff.mpr hNe
  unfold readDecimal
  split
  rename_i negative unsigned hSplit
  split at hSplit
  · rename_i after hCons
    obtain ⟨d, ds, rfl⟩ := List.exists_cons_of_ne_nil hNe
    rw [List.cons_append] at hCons
    exact absurd (List.cons.inj hCons).1
      (Number.ne_of_isDigit (hDigits d List.mem_cons_self) (by decide))
  · cases hSplit
    simp only [hTake, hDrop, hEmpty, Bool.false_eq_true, if_false, hRange]
    exact atom_of_atBoundary _ hEnd

theorem readDecimal_negative {digits rest : List Char} {n : Int} (hNe : digits ≠ [])
    (hDigits : ∀ c ∈ digits, c.isDigit = true) (hStop : StopsAt Char.isDigit rest)
    (hRange : Number.checked? (-(Number.ofDigits 10 Number.decimalDigit digits : Int)) = some n)
    (hEnd : atBoundary rest = true) :
    readDecimal ('-' :: (digits ++ rest)) = .ok (.int n, rest) := by
  obtain ⟨hTake, hDrop⟩ := takeWhile_append_of_stopsAt hDigits hStop
  have hEmpty : digits.isEmpty = false := List.isEmpty_eq_false_iff.mpr hNe
  rw [readDecimal]
  simp only [hTake, hDrop, hEmpty, Bool.false_eq_true, if_false, if_true, hRange]
  exact atom_of_atBoundary _ hEnd

/-- The text of a number is read as that number. -/
theorem readDecimal_text {n : Int} (h : Number.inRange n = true) {rest : List Char}
    (hRest : Follows rest) : readDecimal (Number.text n ++ rest) = .ok (.int n, rest) := by
  have hStop : StopsAt Char.isDigit rest := hRest.stopsAt (by decide) (by decide) (by decide)
  have hNe : ∀ m : Nat, Nat.toDigits 10 m ≠ [] := by
    intro m
    obtain ⟨d, ds, hText, -⟩ := Number.toDigits_eq_cons m
    rw [hText]
    exact List.cons_ne_nil d ds
  have hDigits : ∀ m : Nat, ∀ c ∈ Nat.toDigits 10 m, c.isDigit = true :=
    fun m c hc => Number.isDigit_of_mem_toDigits hc
  cases n with
  | ofNat m =>
      rw [Number.text]
      refine readDecimal_natural (hNe m) (hDigits m) hStop ?_ hRest.atBoundary
      rw [Number.ofDigits_toDigits]
      exact checked?_of_inRange h
  | negSucc m =>
      rw [Number.text, List.cons_append]
      refine readDecimal_negative (hNe (m + 1)) (hDigits (m + 1)) hStop ?_ hRest.atBoundary
      rw [Number.ofDigits_toDigits]
      exact checked?_of_inRange h

/-- A number starts with a name character. -/
theorem exists_text_eq_cons (n : Int) :
    ∃ c cs, Number.text n = c :: cs ∧ isNameChar c = true ∧ c ≠ '\'' := by
  have hDigit : ∀ {d : Char}, d.isDigit = true → isNameChar d = true ∧ d ≠ '\'' := fun hd =>
    ⟨isNameChar_of_isDigit hd, Number.ne_of_isDigit hd (by decide)⟩
  obtain ⟨d, ds, hd, -, hText | hText⟩ := Number.text_cases n
  · exact ⟨d, ds, hText, hDigit hd⟩
  · exact ⟨'-', d :: ds, hText, by decide, by decide⟩

theorem read_int {n : Int} (h : Number.inRange n = true) {rest : List Char}
    (hRest : Follows rest) (levels : Nat) :
    read (levels + 1) (Number.text n ++ rest) = .ok (.int n, rest) := by
  have hRead := readDecimal_text h hRest
  obtain ⟨c, cs, hText, hc, hQuote⟩ := exists_text_eq_cons n
  rw [hText, List.cons_append] at hRead ⊢
  rw [read_of_isNameChar hc hQuote, firstOf_of_ok _ hRead]

/-! ## Names -/

/-- The text of a name is no number. -/
theorem exists_readDecimal_stuck {name rest : List Char} (h : isName name = true)
    (hRest : StopsAt Char.isDigit rest) :
    ∃ at', readDecimal (name ++ rest) = .error (.stuck at') := by
  cases name with
  | nil => cases h
  | cons c cs =>
      by_cases hMinus : c = '-'
      · subst hMinus
        refine ⟨_, readDecimal_minus_stuck ?_⟩
        cases cs with
        | nil => exact hRest
        | cons d cs => exact isDigit_second_of_isName h
      · exact ⟨_, readDecimal_stuck hMinus (isDigit_head_of_isName h)⟩

/-- On a name only the shape of symbols is not stuck. -/
theorem read_name {name rest : List Char} (h : isName name = true)
    (hRest : StopsAt Char.isDigit rest) (levels : Nat) :
    read (levels + 1) (name ++ rest) = readSymbol (name ++ rest) := by
  obtain ⟨at', hStuck⟩ := exists_readDecimal_stuck h hRest
  cases name with
  | nil => cases h
  | cons c cs =>
      rw [List.cons_append] at hStuck ⊢
      rw [read_of_isNameChar (isNameChar_of_isName h c List.mem_cons_self)
        (head_ne_apostrophe_of_isName h), firstOf_of_stuck hStuck, firstOf]

/-- A name with a type in brackets is a type. -/
theorem readSymbol_bracket {name inside rest : List Char} {ty : Ty} (h : isName name = true)
    (hTy : Ty.read (name ++ '[' :: inside) = .ok (ty, rest)) :
    readSymbol (name ++ '[' :: inside) = atom (.mark ty) rest := by
  have hStop : StopsAt isNameChar ('[' :: inside) := show isNameChar '[' = false by decide
  obtain ⟨hTake, hDrop⟩ := takeWhile_append_of_stopsAt (isNameChar_of_isName h) hStop
  rw [readSymbol, hTake, hDrop, if_pos h]
  simp only [hTy]

/-- A name with a type after a colon. -/
theorem readSymbol_colon {name cs rest : List Char} {ty : Ty} (h : isName name = true)
    (hTy : Ty.read cs = .ok (ty, rest)) :
    readSymbol (name ++ ':' :: cs) = atom (ofName (String.ofList name) (some ty)) rest := by
  have hStop : StopsAt isNameChar (':' :: cs) := show isNameChar ':' = false by decide
  obtain ⟨hTake, hDrop⟩ := takeWhile_append_of_stopsAt (isNameChar_of_isName h) hStop
  rw [readSymbol, hTake, hDrop, if_pos h]
  simp only [hTy]

/-- A name on its own. -/
theorem readSymbol_alone {name rest : List Char} (h : isName name = true)
    (hStop : StopsAt isNameChar rest) (hEnd : atBoundary rest = true) :
    readSymbol (name ++ rest) = .ok (ofName (String.ofList name) none, rest) := by
  obtain ⟨hTake, hDrop⟩ := takeWhile_append_of_stopsAt (isNameChar_of_isName h) hStop
  rw [readSymbol, hTake, hDrop, if_pos h]
  split
  · cases hEnd
  · cases hEnd
  · exact atom_of_atBoundary _ hEnd

theorem readSymbol_plain {name rest : List Char} (h : isName name = true) (hRest : Follows rest) :
    readSymbol (name ++ rest) = .ok (ofName (String.ofList name) none, rest) :=
  readSymbol_alone h (hRest.stopsAt (by decide) (by decide) (by decide)) hRest.atBoundary

theorem readSymbol_typed {name rest : List Char} {ty : Ty} (h : isName name = true)
    (hTy : ty.Readable) (hRest : Follows rest) :
    readSymbol (name ++ ':' :: (ty.chars ++ rest)) =
      .ok (.sym (String.ofList name) (some ty), rest) := by
  rw [readSymbol_colon h (Ty.read_chars hTy hRest.ended)]
  exact atom_of_atBoundary _ hRest.atBoundary

theorem read_bool (b : Bool) {rest : List Char} (hRest : Follows rest) (levels : Nat) :
    read (levels + 1) (boolChars b ++ rest) = .ok (.bool b, rest) := by
  have hName : isName (boolChars b) = true := by cases b <;> decide
  rw [read_name hName (hRest.stopsAt (by decide) (by decide) (by decide)),
    readSymbol_plain hName hRest]
  cases b <;> rfl

theorem read_plain {name : String} (h : isName name.toList = true) (hTrue : name ≠ "true")
    (hFalse : name ≠ "false") {rest : List Char} (hRest : Follows rest) (levels : Nat) :
    read (levels + 1) (name.toList ++ rest) = .ok (.sym name none, rest) := by
  rw [read_name h (hRest.stopsAt (by decide) (by decide) (by decide)), readSymbol_plain h hRest,
    String.ofList_toList, ofName, if_neg hTrue, if_neg hFalse]

theorem read_typed {name : String} {ty : Ty} (h : isName name.toList = true) (hTy : ty.Readable)
    {rest : List Char} (hRest : Follows rest) (levels : Nat) :
    read (levels + 1) (name.toList ++ ':' :: (ty.chars ++ rest)) =
      .ok (.sym name (some ty), rest) := by
  have hStop : StopsAt Char.isDigit (':' :: (ty.chars ++ rest)) := by
    show Char.isDigit ':' = false
    decide
  rw [read_name h hStop, readSymbol_typed h hTy hRest, String.ofList_toList]

/-! ## Strings and types -/

theorem read_str (s : String) (rest : List Char) (levels : Nat) :
    read (levels + 1) (Text.quoted s.toList ++ rest) = .ok (.str s, rest) := by
  have hText : Text.quoted s.toList ++ rest = '"' :: (Text.encode s.toList ++ '"' :: rest) := by
    simp [Text.quoted]
  have hString : readString ('"' :: (Text.encode s.toList ++ '"' :: rest)) = .ok (.str s, rest) := by
    rw [readString]
    simp only [Text.decode_encode, String.ofList_toList]
  rw [hText, read_quotation, firstOf_of_ok _ hString]

theorem read_mark {ty : Ty} (h : ty.Readable) {rest : List Char} (hRest : Follows rest)
    (levels : Nat) : read (levels + 1) (':' :: (ty.chars ++ rest)) = .ok (.mark ty, rest) := by
  have hMark : readMark (':' :: (ty.chars ++ rest)) = .ok (.mark ty, rest) := by
    rw [readMark]
    simp only [Ty.read_chars h hRest.ended]
    exact atom_of_atBoundary _ hRest.atBoundary
  rw [read_colon, firstOf_of_ok _ hMark]

/-! ## Lists and quoted forms -/

/-- The text of a readable form starts with a character that is neither spacing
nor a comment nor a closing parenthesis. -/
theorem exists_chars_eq_cons {f : Form} (h : f.Readable) :
    ∃ c cs, f.chars = c :: cs ∧ Text.isSpacing c = false ∧ c ≠ ';' ∧ c ≠ ')' := by
  have hOfName : ∀ {c : Char}, isNameChar c = true →
      Text.isSpacing c = false ∧ c ≠ ';' ∧ c ≠ ')' := fun hc =>
    ⟨isSpacing_of_isNameChar hc, ne_of_isNameChar hc (by decide), ne_of_isNameChar hc (by decide)⟩
  have hOfIsName : ∀ {name rest : List Char}, isName name = true →
      ∃ c cs, name ++ rest = c :: cs ∧ Text.isSpacing c = false ∧ c ≠ ';' ∧ c ≠ ')' := by
    intro name rest hName
    cases name with
    | nil => cases hName
    | cons c cs =>
        exact ⟨c, cs ++ rest, rfl, hOfName (isNameChar_of_isName hName c List.mem_cons_self)⟩
  cases f with
  | int n =>
      obtain ⟨c, cs, hText, hc, -⟩ := exists_text_eq_cons n
      rw [chars]
      exact ⟨c, cs, hText, hOfName hc⟩
  | bool b =>
      rw [chars]
      cases b
      · exact ⟨'f', _, rfl, by decide⟩
      · exact ⟨'t', _, rfl, by decide⟩
  | str s =>
      rw [chars]
      exact ⟨'"', _, rfl, by decide⟩
  | sym name ty =>
      cases ty with
      | none =>
          rw [Readable] at h
          rw [chars, ← List.append_nil name.toList]
          exact hOfIsName h.1
      | some ty =>
          rw [Readable] at h
          rw [chars]
          exact hOfIsName h.1
  | mark ty =>
      rw [chars]
      exact ⟨':', _, rfl, by decide⟩
  | list items =>
      rw [chars]
      exact ⟨'(', _, rfl, by decide⟩
  | quote inner =>
      rw [chars]
      exact ⟨'\'', _, rfl, by decide⟩

theorem skipTrivia_chars {f : Form} (h : f.Readable) (rest : List Char) :
    skipTrivia false (f.chars ++ rest) = f.chars ++ rest := by
  obtain ⟨c, cs, hChars, hSpacing, hComment, -⟩ := exists_chars_eq_cons h
  rw [hChars, List.cons_append, skipTrivia_cons hSpacing hComment]

theorem ofItems_of_readable {items : List Form}
    (h : ∀ inner, items ≠ [.sym "quote" none, inner]) : ofItems items = .list items := by
  unfold ofItems
  split
  · rename_i inner
    exact absurd rfl (h inner)
  · rfl

/-- Spacing in front of the items of a list does not matter. -/
theorem readItems_space (fuel : Nat) (cs : List Char) :
    readItems reader (fuel + 1) (' ' :: cs) = readItems reader (fuel + 1) cs := by
  rw [readItems, readItems]
  rfl

/-- What follows the first item of a list: a space and the others, or the closing
parenthesis. -/
theorem exists_itemChars_cons (item : Form) (items : List Form) (rest : List Char) :
    ∃ after, itemChars (item :: items) ++ ')' :: rest = item.chars ++ after ∧ Follows after ∧
      ∀ (reader : List Char → Reading Form) (fuel : Nat),
        readItems reader (fuel + 1) after =
          readItems reader (fuel + 1) (itemChars items ++ ')' :: rest) := by
  cases items with
  | nil =>
      refine ⟨')' :: rest, by rw [itemChars], .inr (.inl rfl), fun reader fuel => ?_⟩
      rw [itemChars]
      rfl
  | cons next items =>
      refine ⟨' ' :: (itemChars (next :: items) ++ ')' :: rest), ?_, .inl rfl,
        fun reader fuel => readItems_space fuel _⟩
      rw [itemChars, List.append_assoc, List.cons_append]
      exact nofun

/-- The first item of a list is read, then the others. -/
theorem readItems_cons {item : Form} (h : item.Readable) (fuel : Nat) (after : List Char) :
    readItems reader (fuel + 1) (item.chars ++ after) =
      match reader (item.chars ++ after) with
      | .error fault => .error fault
      | .ok (item, rest) =>
        match readItems reader fuel rest with
        | .ok (items, rest) => .ok (item :: items, rest)
        | .error fault => .error fault := by
  obtain ⟨c, cs, hChars, -, -, hClose⟩ := exists_chars_eq_cons h
  rw [readItems, skipTrivia_chars h]
  split
  · rename_i hEq
    rw [hChars, List.cons_append] at hEq
    exact absurd (List.cons.inj hEq).1 hClose
  · rfl

theorem length_le_itemChars {items : List Form} (h : AllReadable items) :
    items.length ≤ (itemChars items).length := by
  induction items with
  | nil => exact Nat.zero_le _
  | cons item items ih =>
      rw [AllReadable] at h
      obtain ⟨c, cs, hChars, -⟩ := exists_chars_eq_cons h.1
      have hItems := ih h.2
      cases items with
      | nil =>
          rw [itemChars, hChars]
          simp
      | cons next items =>
          rw [itemChars, hChars]
          · simp only [List.length_append, List.length_cons] at hItems ⊢
            omega
          · exact nofun

mutual

/-- **Reading the text of a form.**  The text of a readable form is read as that
form if it nests less deeply than there are levels left; otherwise the reading
ends because it is too deep. -/
theorem read_chars :
    ∀ (f : Form) {levels : Nat} {rest : List Char}, f.Readable → Follows rest →
      read levels (f.chars ++ rest) =
        if f.depth < levels then .ok (f, rest) else .error .tooDeep
  | f, 0, rest, _, _ => by
    rw [read, if_neg (Nat.not_lt_zero _)]
  | .int n, levels + 1, rest, h, hRest => by
    rw [Readable] at h
    rw [chars, depth, if_pos (Nat.succ_pos levels)]
    exact read_int h hRest levels
  | .bool b, levels + 1, rest, _, hRest => by
    rw [chars, depth, if_pos (Nat.succ_pos levels)]
    exact read_bool b hRest levels
  | .str s, levels + 1, rest, _, _ => by
    rw [chars, depth, if_pos (Nat.succ_pos levels)]
    exact read_str s rest levels
  | .sym name none, levels + 1, rest, h, hRest => by
    rw [Readable] at h
    rw [chars, depth, if_pos (Nat.succ_pos levels)]
    exact read_plain h.1 h.2.1 h.2.2 hRest levels
  | .sym name (some ty), levels + 1, rest, h, hRest => by
    rw [Readable] at h
    rw [chars, depth, if_pos (Nat.succ_pos levels), List.append_assoc, List.cons_append]
    exact read_typed h.1 h.2 hRest levels
  | .mark ty, levels + 1, rest, h, hRest => by
    rw [Readable] at h
    rw [chars, depth, if_pos (Nat.succ_pos levels), List.cons_append]
    exact read_mark h hRest levels
  | .list items, levels + 1, rest, h, _ => by
    rw [Readable] at h
    have hText : (Form.list items).chars ++ rest = '(' :: (itemChars items ++ ')' :: rest) := by
      rw [chars]
      simp
    have hLength : items.length < (itemChars items ++ ')' :: rest).length + 1 := by
      have hItems := length_le_itemChars h.1
      rw [List.length_append]
      omega
    have hItems : readItems (read levels) ((itemChars items ++ ')' :: rest).length + 1)
        (itemChars items ++ ')' :: rest) =
          if itemsDepth items ≤ levels then .ok (items, rest) else .error .tooDeep :=
      readItems_chars items h.1 hLength
    have hList : readList (read levels) ('(' :: (itemChars items ++ ')' :: rest)) =
        if (Form.list items).depth < levels + 1 then .ok (.list items, rest)
        else .error .tooDeep := by
      rw [readList]
      simp only [hItems, depth, Nat.lt_succ_iff]
      by_cases hDepth : itemsDepth items ≤ levels
      · simp only [if_pos hDepth, ofItems_of_readable h.2]
      · simp only [if_neg hDepth]
    rw [hText, read, skipTrivia_cons (by decide) (by decide),
      firstOf_of_stuck (readQuote_stuck (by decide)), firstOf_of_ite _ hList]
  | .quote inner, levels + 1, rest, h, hRest => by
    rw [Readable] at h
    have hInner : read levels (inner.chars ++ rest) =
        if inner.depth < levels then .ok (inner, rest) else .error .tooDeep :=
      read_chars inner h hRest
    have hQuote : readQuote (read levels) ('\'' :: (inner.chars ++ rest)) =
        if (Form.quote inner).depth < levels + 1 then .ok (.quote inner, rest)
        else .error .tooDeep := by
      rw [readQuote]
      simp only [hInner, depth, Nat.succ_lt_succ_iff]
      by_cases hDepth : inner.depth < levels
      · simp only [if_pos hDepth]
      · simp only [if_neg hDepth]
    rw [chars, List.cons_append, read, skipTrivia_cons (by decide) (by decide),
      firstOf_of_ite _ hQuote]

/-- The same for the items of a list, up to the closing parenthesis. -/
theorem readItems_chars :
    ∀ (items : List Form) {levels fuel : Nat} {rest : List Char}, AllReadable items →
      items.length < fuel →
      readItems (read levels) fuel (itemChars items ++ ')' :: rest) =
        if itemsDepth items ≤ levels then .ok (items, rest) else .error .tooDeep
  | [], levels, fuel, rest, _, hFuel => by
    obtain ⟨n, rfl⟩ : ∃ n, fuel = n + 1 := ⟨fuel - 1, by omega⟩
    rw [itemChars, itemsDepth, if_pos (Nat.zero_le levels)]
    rfl
  | item :: items, levels, fuel, rest, h, hFuel => by
    rw [List.length_cons] at hFuel
    obtain ⟨n, rfl⟩ : ∃ n, fuel = n + 2 := ⟨fuel - 2, by omega⟩
    rw [AllReadable] at h
    obtain ⟨after, hText, hAfter, hOthers⟩ := exists_itemChars_cons item items rest
    have hItem : read levels (item.chars ++ after) =
        if item.depth < levels then .ok (item, after) else .error .tooDeep :=
      read_chars item h.1 hAfter
    have hItems : readItems (read levels) (n + 1) (itemChars items ++ ')' :: rest) =
        if itemsDepth items ≤ levels then .ok (items, rest) else .error .tooDeep :=
      readItems_chars items h.2 (by omega)
    rw [hText, readItems_cons h.1, hItem, itemsDepth]
    by_cases hDepth : item.depth < levels
    · rw [if_pos hDepth]
      simp only [hOthers, hItems]
      by_cases hRest : itemsDepth items ≤ levels
      · simp only [if_pos hRest, if_pos (show max (item.depth + 1) (itemsDepth items) ≤ levels by omega)]
      · simp only [if_neg hRest,
          if_neg (show ¬ max (item.depth + 1) (itemsDepth items) ≤ levels by omega)]
    · simp only [if_neg hDepth,
        if_neg (show ¬ max (item.depth + 1) (itemsDepth items) ≤ levels by omega)]

end

end Form

end ClauseLisp
