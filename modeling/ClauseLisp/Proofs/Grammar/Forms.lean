import ClauseLisp.Proofs.Grammar.Types
import ClauseLisp.Proofs.RoundTrip.Inverse

/-!
# A grammar of forms

What the reader of forms accepts, said shape by shape and without its fuel.  The
reader tries the shapes in a fixed order and takes the first that is not stuck; on
a text of the grammar all shapes before the right one are stuck at its first
characters, so the order can be left out.  What remains of it is that every atom
ends where no atom could go on.

A form may have spacing and comments in front of it, and `Form.Reads levels`
counts the levels that forms may stand on, as the reader does.

## Main results

* `Form.read_iff` — the reader reads the grammar.
* `Form.readAll_iff` — a text is read to its end exactly if it is a sequence of
  forms with spacing and comments between them and after them.
-/

namespace ClauseLisp

/-! ## String literals -/

namespace Text

/-- The inside of a string literal and the text that it stands for. -/
inductive Literal : List Char → List Char → Prop
  | nil : Literal [] []
  | plain {c : Char} {inside s : List Char} (hQuote : c ≠ '"') (hEscape : c ≠ '\\')
      (h : Literal inside s) : Literal (c :: inside) (c :: s)
  | escaped {c d : Char} {inside s : List Char} (hc : escape? c = some d) (h : Literal inside s) :
      Literal ('\\' :: c :: inside) (d :: s)

theorem decodeOnto_of_literal {inside s : List Char} (h : Literal inside s) (rest : List Char) :
    ∀ done, decodeOnto done (inside ++ '"' :: rest) = some (done.reverse ++ s, rest) := by
  induction h with
  | nil =>
      intro done
      rw [List.append_nil]
      rfl
  | @plain c inside s hQuote hEscape _ ih =>
      intro done
      rw [List.cons_append, decodeOnto_plain hQuote hEscape, ih, List.reverse_cons,
        List.append_assoc]
      rfl
  | @escaped c d inside s hc _ ih =>
      intro done
      rw [List.cons_append, List.cons_append, decodeOnto, hc]
      simp only [ih, List.reverse_cons, List.append_assoc, List.cons_append, List.nil_append]

theorem literal_of_decodeOnto {done cs s rest : List Char}
    (h : decodeOnto done cs = some (s, rest)) :
    ∃ inside s', Literal inside s' ∧ s = done.reverse ++ s' ∧ cs = inside ++ '"' :: rest := by
  fun_induction decodeOnto done cs with
  | case1 => cases h
  | case2 done after =>
      cases h
      exact ⟨[], [], .nil, (List.append_nil _).symm, rfl⟩
  | case3 => cases h
  | case4 done c after d hc ih =>
      obtain ⟨inside, s', hLiteral, rfl, rfl⟩ := ih h
      exact ⟨'\\' :: c :: inside, d :: s', .escaped hc hLiteral, by simp, rfl⟩
  | case5 => cases h
  | case6 done c after hQuote hLast hEscape ih =>
      obtain ⟨inside, s', hLiteral, rfl, rfl⟩ := ih h
      have hPlain : c ≠ '\\' := by
        intro hc
        cases inside with
        | nil => exact hEscape _ _ hc rfl
        | cons d inside => exact hEscape _ _ hc rfl
      exact ⟨c :: inside, c :: s', .plain hQuote hPlain hLiteral, by simp, rfl⟩

/-- A literal ends at the first quote that is not escaped. -/
theorem decode_iff {cs s rest : List Char} :
    decode cs = some (s, rest) ↔ ∃ inside, Literal inside s ∧ cs = inside ++ '"' :: rest := by
  constructor
  · intro h
    obtain ⟨inside, s', hLiteral, rfl, rfl⟩ := literal_of_decodeOnto h
    exact ⟨inside, hLiteral, rfl⟩
  · rintro ⟨inside, hLiteral, rfl⟩
    exact decodeOnto_of_literal hLiteral rest []

end Text

namespace Form

/-! ## Spacing and comments -/

/-- Spacing and whole comments, each with the end of its line. -/
inductive Trivia : List Char → Prop
  | nil : Trivia []
  | spacing {c : Char} {gap : List Char} (hc : Text.isSpacing c = true) (h : Trivia gap) :
      Trivia (c :: gap)
  | comment {line gap : List Char} (hLine : '\n' ∉ line) (h : Trivia gap) :
      Trivia (';' :: (line ++ '\n' :: gap))

/-- What may stand after the last form of a text: also a comment that the text ends in. -/
inductive Remainder : List Char → Prop
  | trivia {gap : List Char} (h : Trivia gap) : Remainder gap
  | comment {gap line : List Char} (h : Trivia gap) (hLine : '\n' ∉ line) :
      Remainder (gap ++ ';' :: line)

/-- The first character of a text, if there is one, is neither spacing nor a semicolon. -/
def Starts : List Char → Prop
  | [] => True
  | c :: _ => Text.isSpacing c = false ∧ c ≠ ';'

theorem skipTrivia_of_starts {cs : List Char} (h : Starts cs) : skipTrivia false cs = cs := by
  cases cs with
  | nil => rfl
  | cons c cs => exact skipTrivia_cons h.1 h.2

theorem skipTrivia_line {line : List Char} (h : '\n' ∉ line) (rest : List Char) :
    skipTrivia true (line ++ '\n' :: rest) = skipTrivia false rest := by
  induction line with
  | nil => rfl
  | cons c line ih =>
      have hc : (c != '\n') = true := bne_iff_ne.mpr fun hEq => h (hEq ▸ List.mem_cons_self)
      rw [List.cons_append, skipTrivia, if_pos rfl, hc]
      exact ih fun hMem => h (List.mem_cons_of_mem c hMem)

theorem skipTrivia_lastLine {line : List Char} (h : '\n' ∉ line) : skipTrivia true line = [] := by
  induction line with
  | nil => rfl
  | cons c line ih =>
      have hc : (c != '\n') = true := bne_iff_ne.mpr fun hEq => h (hEq ▸ List.mem_cons_self)
      rw [skipTrivia, if_pos rfl, hc]
      exact ih fun hMem => h (List.mem_cons_of_mem c hMem)

theorem skipTrivia_semicolon (cs : List Char) :
    skipTrivia false (';' :: cs) = skipTrivia true cs := rfl

theorem skipTrivia_spacing {c : Char} (hc : Text.isSpacing c = true) (cs : List Char) :
    skipTrivia false (c :: cs) = skipTrivia false cs := by
  rw [skipTrivia, if_neg Bool.false_ne_true, if_pos hc]

theorem skipTrivia_append {gap : List Char} (h : Trivia gap) (rest : List Char) :
    skipTrivia false (gap ++ rest) = skipTrivia false rest := by
  induction h with
  | nil => rfl
  | spacing hc _ ih => rw [List.cons_append, skipTrivia_spacing hc, ih]
  | @comment line gap hLine _ ih =>
      rw [List.cons_append, List.append_assoc, List.cons_append, skipTrivia_semicolon,
        skipTrivia_line hLine, ih]

theorem skipTrivia_of_remainder {cs : List Char} (h : Remainder cs) : skipTrivia false cs = [] := by
  cases h with
  | trivia hGap =>
      rw [← List.append_nil cs, skipTrivia_append hGap]
      rfl
  | comment hGap hLine =>
      rw [skipTrivia_append hGap, skipTrivia_semicolon, skipTrivia_lastLine hLine]

/-- What is skipped in front of a text is spacing and whole comments, unless that is all
there is. -/
theorem skipTrivia_cases (cs : List Char) :
    (∃ gap, Trivia gap ∧ cs = gap ++ skipTrivia false cs ∧ Starts (skipTrivia false cs)) ∨
      (Remainder cs ∧ skipTrivia false cs = []) := by
  cases cs with
  | nil => exact .inl ⟨[], .nil, rfl, trivial⟩
  | cons c cs =>
      by_cases hSpacing : Text.isSpacing c = true
      · rw [skipTrivia_spacing hSpacing]
        rcases skipTrivia_cases cs with ⟨gap, hGap, hSplit, hStarts⟩ | ⟨hEnd, hNil⟩
        · exact .inl ⟨c :: gap, .spacing hSpacing hGap, by rw [List.cons_append, ← hSplit], hStarts⟩
        · refine .inr ⟨?_, hNil⟩
          cases hEnd with
          | trivia h => exact .trivia (.spacing hSpacing h)
          | comment h hLine => exact .comment (.spacing hSpacing h) hLine
      · by_cases hComment : c = ';'
        · subst hComment
          rw [skipTrivia_semicolon]
          by_cases hMem : '\n' ∈ cs
          · obtain ⟨line, after, hSplit, hLine⟩ := List.eq_append_cons_of_mem hMem
            have hShorter : after.length < cs.length := by
              rw [hSplit, List.length_append, List.length_cons]
              omega
            rw [hSplit, skipTrivia_line hLine]
            rcases skipTrivia_cases after with ⟨gap, hGap, hSplit, hStarts⟩ | ⟨hEnd, hNil⟩
            · refine .inl ⟨_, .comment hLine hGap, ?_, hStarts⟩
              rw [List.cons_append, List.append_assoc, List.cons_append, ← hSplit]
            · refine .inr ⟨?_, hNil⟩
              cases hEnd with
              | trivia h => exact .trivia (.comment hLine h)
              | @comment gap line' h hLine' =>
                  have hEnd := Remainder.comment (.comment hLine h) hLine'
                  rw [List.cons_append, List.append_assoc, List.cons_append] at hEnd
                  exact hEnd
          · exact .inr ⟨.comment .nil hMem, skipTrivia_lastLine hMem⟩
        · have hStarts : Starts (c :: cs) := ⟨Bool.eq_false_iff.mpr hSpacing, hComment⟩
          rw [skipTrivia_of_starts hStarts]
          exact .inl ⟨[], .nil, rfl, hStarts⟩
termination_by cs.length
decreasing_by
  all_goals rw [List.length_cons]
  all_goals omega

/-- A text that goes on after what is skipped has spacing and whole comments in front. -/
theorem exists_trivia {c : Char} {cs rest : List Char} (h : skipTrivia false cs = c :: rest) :
    ∃ gap, Trivia gap ∧ cs = gap ++ c :: rest := by
  rcases skipTrivia_cases cs with ⟨gap, hGap, hSplit, -⟩ | ⟨-, hNil⟩
  · exact ⟨gap, hGap, h ▸ hSplit⟩
  · rw [h] at hNil
    cases hNil

theorem skipTrivia_idempotent (cs : List Char) :
    skipTrivia false (skipTrivia false cs) = skipTrivia false cs := by
  rcases skipTrivia_cases cs with ⟨gap, hGap, hSplit, hStarts⟩ | ⟨-, hNil⟩
  · exact skipTrivia_of_starts hStarts
  · rw [hNil]
    rfl

theorem remainder_iff {cs : List Char} : Remainder cs ↔ skipTrivia false cs = [] := by
  refine ⟨skipTrivia_of_remainder, fun h => ?_⟩
  rcases skipTrivia_cases cs with ⟨gap, hGap, hSplit, -⟩ | ⟨hEnd, -⟩
  · rw [h, List.append_nil] at hSplit
    exact hSplit ▸ .trivia hGap
  · exact hEnd

/-! ## The grammar -/

/-- **Atoms**: `Atom cs f rest` says that the text `cs` starts with the atom `f`, after
which `rest` follows. -/
inductive Atom : List Char → Form → List Char → Prop
  | hexadecimal {x : Char} {digits rest : List Char} {n : Int} (hx : x = 'x' ∨ x = 'X')
      (hNe : digits ≠ []) (hDigits : ∀ c ∈ digits, Number.isHexDigit c = true)
      (hStop : StopsAt Number.isHexDigit rest)
      (hRange : Number.checked? (Number.ofDigits 16 Number.hexDigit digits) = some n)
      (hEnd : atBoundary rest = true) : Atom ('#' :: x :: (digits ++ rest)) (.int n) rest
  | natural {digits rest : List Char} {n : Int} (hNe : digits ≠ [])
      (hDigits : ∀ c ∈ digits, c.isDigit = true) (hStop : StopsAt Char.isDigit rest)
      (hRange : Number.checked? (Number.ofDigits 10 Number.decimalDigit digits) = some n)
      (hEnd : atBoundary rest = true) : Atom (digits ++ rest) (.int n) rest
  | negative {digits rest : List Char} {n : Int} (hNe : digits ≠ [])
      (hDigits : ∀ c ∈ digits, c.isDigit = true) (hStop : StopsAt Char.isDigit rest)
      (hRange : Number.checked? (-(Number.ofDigits 10 Number.decimalDigit digits : Int)) = some n)
      (hEnd : atBoundary rest = true) : Atom ('-' :: (digits ++ rest)) (.int n) rest
  | truth {b : Bool} {rest : List Char} (hEnd : atBoundary rest = true) :
      Atom ('#' :: (if b then 't' else 'f') :: rest) (.bool b) rest
  | str {inside s rest : List Char} (h : Text.Literal inside s) :
      Atom ('"' :: (inside ++ '"' :: rest)) (.str (String.ofList s)) rest
  | mark {cs rest : List Char} {ty : Ty} (h : Ty.Reads cs ty rest)
      (hEnd : atBoundary rest = true) : Atom (':' :: cs) (.mark ty) rest
  | bracketed {name inside rest : List Char} {ty : Ty} (hName : isName name = true)
      (h : Ty.Reads (name ++ '[' :: inside) ty rest) (hEnd : atBoundary rest = true) :
      Atom (name ++ '[' :: inside) (.mark ty) rest
  | typed {name cs rest : List Char} {ty : Ty} (hName : isName name = true)
      (h : Ty.Reads cs ty rest) (hEnd : atBoundary rest = true) :
      Atom (name ++ ':' :: cs) (ofName (String.ofList name) (some ty)) rest
  | plain {name rest : List Char} (hName : isName name = true) (hStop : StopsAt isNameChar rest)
      (hEnd : atBoundary rest = true) :
      Atom (name ++ rest) (ofName (String.ofList name) none) rest

mutual

/-- **The grammar of forms**: `Reads levels cs f rest` says that the text `cs` starts with
the form `f`, after which `rest` follows, and that the form nests less deeply than there
are levels. -/
inductive Reads : Nat → List Char → Form → List Char → Prop
  | quote {levels : Nat} {gap cs rest : List Char} {f : Form} (hGap : Trivia gap)
      (h : Reads levels cs f rest) : Reads (levels + 1) (gap ++ '\'' :: cs) (.quote f) rest
  | list {levels : Nat} {gap cs rest : List Char} {items : List Form} (hGap : Trivia gap)
      (h : ReadsItems levels cs items rest) :
      Reads (levels + 1) (gap ++ '(' :: cs) (ofItems items) rest
  | atom {levels : Nat} {gap cs rest : List Char} {f : Form} (hGap : Trivia gap)
      (h : Atom cs f rest) : Reads (levels + 1) (gap ++ cs) f rest

/-- The items of a list up to the closing parenthesis. -/
inductive ReadsItems : Nat → List Char → List Form → List Char → Prop
  | close {levels : Nat} {gap rest : List Char} (hGap : Trivia gap) :
      ReadsItems levels (gap ++ ')' :: rest) [] rest
  | item {levels : Nat} {cs after rest : List Char} {f : Form} {items : List Form}
      (h : Reads levels cs f after) (hItems : ReadsItems levels after items rest) :
      ReadsItems levels cs (f :: items) rest

end

/-- **The grammar of programs**: forms up to the end of the text. -/
inductive ReadsAll : List Char → List Form → Prop
  | done {cs : List Char} (h : Remainder cs) : ReadsAll cs []
  | form {cs rest : List Char} {f : Form} {forms : List Form} (h : Reads maxNesting cs f rest)
      (hForms : ReadsAll rest forms) : ReadsAll cs (f :: forms)

variable {levels : Nat} {cs rest : List Char} {f : Form}

/-! ## From the grammar to the reader: atoms -/

/-- A boundary is no bracket. -/
theorem head?_ne_bracket_of_atBoundary (h : atBoundary rest = true) : rest.head? ≠ some '[' := by
  cases rest with
  | nil => exact nofun
  | cons c rest =>
      intro hEq
      cases hEq
      cases h

theorem readHexadecimal_digits {x : Char} {digits : List Char} {n : Int} (hx : x = 'x' ∨ x = 'X')
    (hNe : digits ≠ []) (hDigits : ∀ c ∈ digits, Number.isHexDigit c = true)
    (hStop : StopsAt Number.isHexDigit rest)
    (hRange : Number.checked? (Number.ofDigits 16 Number.hexDigit digits) = some n)
    (hEnd : atBoundary rest = true) :
    readHexadecimal ('#' :: x :: (digits ++ rest)) = .ok (.int n, rest) := by
  obtain ⟨hTake, hDrop⟩ := takeWhile_append_of_stopsAt hDigits hStop
  have hEmpty : digits.isEmpty = false := List.isEmpty_eq_false_iff.mpr hNe
  have hSign : (decide (x = 'x') || decide (x = 'X')) = true := by
    simpa only [Bool.or_eq_true, decide_eq_true_eq] using hx
  rw [readHexadecimal]
  simp only [hTake, hDrop, hEmpty, hSign, Bool.not_false, Bool.and_self, if_true, hRange]
  exact atom_of_atBoundary _ hEnd

/-- **The reader reads atoms.** -/
theorem read_of_atom (h : Atom cs f rest) (levels : Nat) :
    read (levels + 1) cs = .ok (f, rest) := by
  cases h with
  | @hexadecimal x digits _ n hx hNe hDigits hStop hRange hEnd =>
      rw [read_atomic (by decide) (by decide) (by decide) (by decide),
        firstOf_of_ok _ (readHexadecimal_digits hx hNe hDigits hStop hRange hEnd)]
  | @natural digits _ n hNe hDigits hStop hRange hEnd =>
      have hRead := readDecimal_natural hNe hDigits hStop hRange hEnd
      obtain ⟨d, ds, rfl⟩ := List.exists_cons_of_ne_nil hNe
      have hDigit := hDigits d List.mem_cons_self
      rw [List.cons_append] at hRead ⊢
      rw [read_of_isNameChar (isNameChar_of_isDigit hDigit)
        (Number.ne_of_isDigit hDigit (by decide)), firstOf_of_ok _ hRead]
  | @negative digits _ n hNe hDigits hStop hRange hEnd =>
      rw [read_of_isNameChar (by decide) (by decide),
        firstOf_of_ok _ (readDecimal_negative hNe hDigits hStop hRange hEnd)]
  | @truth b _ hEnd =>
      have hRead : readBool ('#' :: (if b then 't' else 'f') :: rest) = .ok (.bool b, rest) := by
        cases b <;> exact atom_of_atBoundary _ hEnd
      have hHexadecimal : readHexadecimal ('#' :: (if b then 't' else 'f') :: rest) =
          .error (.stuck ('#' :: (if b then 't' else 'f') :: rest)) := by
        cases b <;> simp [readHexadecimal]
      rw [read_atomic (by decide) (by decide) (by decide) (by decide),
        firstOf_of_stuck hHexadecimal,
        firstOf_of_stuck (readDecimal_stuck (by decide) (by decide)), firstOf_of_ok _ hRead]
  | @str inside s _ h =>
      have hRead : readString ('"' :: (inside ++ '"' :: rest)) =
          .ok (.str (String.ofList s), rest) := by
        rw [readString]
        simp only [Text.decode_iff.mpr ⟨inside, h, rfl⟩]
      rw [read_quotation, firstOf_of_ok _ hRead]
  | @mark cs _ ty h hEnd =>
      have hRead : readMark (':' :: cs) = .ok (.mark ty, rest) := by
        rw [readMark]
        simp only [Ty.read_of_reads h]
        exact atom_of_atBoundary _ hEnd
      rw [read_colon, firstOf_of_ok _ hRead]
  | @bracketed name inside _ ty hName h hEnd =>
      rw [read_name hName (stopsAt_cons (by decide) inside),
        readSymbol_bracket hName (Ty.read_of_reads h), atom_of_atBoundary _ hEnd]
  | @typed name cs _ ty hName h hEnd =>
      rw [read_name hName (stopsAt_cons (by decide) cs),
        readSymbol_colon hName (Ty.read_of_reads h), atom_of_atBoundary _ hEnd]
  | @plain name _ hName hStop hEnd =>
      rw [read_name hName (StopsAt.mono hStop isNameChar_of_isDigit),
        readSymbol_alone hName hStop hEnd]

/-! ## From the grammar to the reader: lists and programs -/

/-- Spacing and comments in front of a form do not matter. -/
theorem read_append {gap : List Char} (hGap : Trivia gap) (levels : Nat) (cs : List Char) :
    read levels (gap ++ cs) = read levels cs := by
  cases levels with
  | zero => rfl
  | succ levels => rw [read, read, skipTrivia_append hGap]

theorem read_skipTrivia (levels : Nat) (cs : List Char) :
    read levels (skipTrivia false cs) = read levels cs := by
  cases levels with
  | zero => rfl
  | succ levels => rw [read, read, skipTrivia_idempotent]

/-- No form starts with a closing parenthesis. -/
theorem read_close_ne_ok (levels : Nat) (cs : List Char) :
    read levels (')' :: cs) ≠ .ok (f, rest) := by
  cases levels with
  | zero =>
      intro h
      cases h
  | succ levels =>
      have hSymbol : readSymbol (')' :: cs) = .error (.stuck (')' :: cs)) := by
        rw [readSymbol, List.takeWhile_cons_of_neg (by decide)]
        rfl
      rw [read_atomic (by decide) (by decide) (by decide) (by decide),
        firstOf_past_numbers (by decide) (by decide) (by decide),
        firstOf_of_stuck (readString_stuck (by decide)),
        firstOf_of_stuck (readMark_stuck (by decide)), firstOf, hSymbol]
      intro h
      cases h

/-- No form is made of nothing. -/
theorem read_nil_ne_ok (levels : Nat) : read levels [] ≠ .ok (f, rest) := by
  cases levels with
  | zero => exact nofun
  | succ levels => exact nofun

theorem Atom.length_lt (h : Atom cs f rest) : rest.length < cs.length := by
  cases h with
  | natural hNe =>
      have hDigits := List.length_pos_iff.mpr hNe
      rw [List.length_append]
      omega
  | mark h =>
      have hType := h.length_lt
      rw [List.length_cons]
      omega
  | bracketed _ h => exact h.length_lt
  | typed _ h =>
      have hType := h.length_lt
      rw [List.length_append, List.length_cons]
      omega
  | @plain name _ hName =>
      cases name with
      | nil => cases hName
      | cons c name =>
          rw [List.cons_append, List.length_cons, List.length_append]
          omega
  | _ =>
      simp only [List.length_cons, List.length_append]
      omega

mutual

/-- A form leaves less than there was. -/
theorem Reads.length_lt : ∀ {levels : Nat} {cs : List Char} {f : Form} {rest : List Char},
    Reads levels cs f rest → rest.length < cs.length
  | _, _, _, _, .quote _ h => by
    have hInner := h.length_lt
    rw [List.length_append, List.length_cons]
    omega
  | _, _, _, _, .list _ h => by
    have hItems := h.length_lt
    rw [List.length_append, List.length_cons]
    omega
  | _, _, _, _, .atom _ h => by
    have hAtom := h.length_lt
    rw [List.length_append]
    omega

theorem ReadsItems.length_lt :
    ∀ {levels : Nat} {cs : List Char} {items : List Form} {rest : List Char},
      ReadsItems levels cs items rest → rest.length < cs.length
  | _, _, _, _, .close _ => by
    rw [List.length_append, List.length_cons]
    omega
  | _, _, _, _, .item h hItems => by
    have hFirst := h.length_lt
    have hOthers := hItems.length_lt
    omega

end

mutual

/-- What the grammar makes of a text the reader makes of it. -/
theorem read_of_reads : ∀ {levels : Nat} {cs : List Char} {f : Form} {rest : List Char},
    Reads levels cs f rest → read levels cs = .ok (f, rest)
  | _, _, _, rest, @Reads.quote levels gap cs _ f hGap h => by
    have hQuote : readQuote (read levels) ('\'' :: cs) = .ok (.quote f, rest) := by
      rw [readQuote]
      simp only [read_of_reads h]
    rw [read_append hGap, read, skipTrivia_cons (by decide) (by decide), firstOf_of_ok _ hQuote]
  | _, _, _, rest, @Reads.list levels gap cs _ items hGap h => by
    have hList : readList (read levels) ('(' :: cs) = .ok (ofItems items, rest) := by
      rw [readList]
      simp only [readItems_of_reads h (Nat.lt_succ_self cs.length)]
    rw [read_append hGap, read, skipTrivia_cons (by decide) (by decide),
      firstOf_of_stuck (readQuote_stuck (by decide)), firstOf_of_ok _ hList]
  | _, _, _, _, .atom hGap h => by
    rw [read_append hGap, read_of_atom h]

/-- The same for the items of a list, if there is more fuel than characters. -/
theorem readItems_of_reads :
    ∀ {levels : Nat} {cs : List Char} {items : List Form} {rest : List Char} {fuel : Nat},
      ReadsItems levels cs items rest → cs.length < fuel →
      readItems (read levels) fuel cs = .ok (items, rest)
  | _, _, _, rest, fuel + 1, .close hGap, _ => by
    rw [readItems, skipTrivia_append hGap, skipTrivia_cons (by decide) (by decide)]
    rfl
  | levels, cs, _, rest, fuel + 1, @ReadsItems.item _ _ after _ f items h hItems, hFuel => by
    have hFirst : read levels (skipTrivia false cs) = .ok (f, after) := by
      rw [read_skipTrivia, read_of_reads h]
    have hLength := h.length_lt
    rw [readItems]
    split
    · rename_i hClose
      rw [hClose] at hFirst
      exact absurd hFirst (read_close_ne_ok levels _)
    · simp only [hFirst, readItems_of_reads hItems (show after.length < fuel by omega)]

end

theorem readAllWith_of_readsAll {forms : List Form} (h : ReadsAll cs forms) :
    ∀ {fuel : Nat}, cs.length < fuel → readAllWith fuel cs = .ok forms := by
  induction h with
  | done h =>
      intro fuel hFuel
      obtain ⟨n, rfl⟩ : ∃ n, fuel = n + 1 := ⟨fuel - 1, by omega⟩
      rw [readAllWith, remainder_iff.mp h]
  | @form cs rest f forms h _ ih =>
      intro fuel hFuel
      obtain ⟨n, rfl⟩ : ∃ n, fuel = n + 1 := ⟨fuel - 1, by omega⟩
      have hFirst : read maxNesting (skipTrivia false cs) = .ok (f, rest) := by
        rw [read_skipTrivia, read_of_reads h]
      have hLength := h.length_lt
      rw [readAllWith]
      split
      · rename_i hNil
        rw [hNil] at hFirst
        exact absurd hFirst (read_nil_ne_ok maxNesting)
      · simp only [hFirst, ih (show rest.length < n by omega)]

/-! ## From the reader to the grammar -/

/-- An atom ends at a boundary. -/
theorem atom_eq_ok {form : Form} {after : List Char} (h : atom form after = .ok (f, rest)) :
    f = form ∧ rest = after ∧ atBoundary after = true := by
  unfold atom at h
  split at h
  · rename_i hEnd
    cases h
    exact ⟨rfl, rfl, hEnd⟩
  · cases h

theorem atom_of_readHexadecimal (h : readHexadecimal cs = .ok (f, rest)) : Atom cs f rest := by
  unfold readHexadecimal at h
  split at h
  · rename_i x after
    simp only at h
    split at h
    · rename_i hShape
      split at h
      · rename_i n hRange
        obtain ⟨rfl, rfl, hEnd⟩ := atom_eq_ok h
        simp only [Bool.and_eq_true, Bool.or_eq_true, decide_eq_true_eq, Bool.not_eq_true',
          List.isEmpty_eq_false_iff] at hShape
        have hAtom := Atom.hexadecimal hShape.1 hShape.2
          (fun c hc => List.all_eq_true.mp List.all_takeWhile c hc)
          (stopsAt_dropWhile Number.isHexDigit after) hRange hEnd
        rw [List.takeWhile_append_dropWhile] at hAtom
        exact hAtom
      · cases h
    · cases h
  · cases h

theorem atom_of_readDecimal (h : readDecimal cs = .ok (f, rest)) : Atom cs f rest := by
  unfold readDecimal at h
  split at h
  rename_i negative unsigned hSplit
  simp only at h
  split at h
  · cases h
  · rename_i hNe
    replace hNe : unsigned.takeWhile Char.isDigit ≠ [] := fun hNil => hNe (by rw [hNil]; rfl)
    have hDigits : ∀ c ∈ unsigned.takeWhile Char.isDigit, c.isDigit = true :=
      fun c hc => List.all_eq_true.mp List.all_takeWhile c hc
    have hStop := stopsAt_dropWhile Char.isDigit unsigned
    split at h
    · rename_i n hRange
      obtain ⟨rfl, rfl, hEnd⟩ := atom_eq_ok h
      split at hSplit
      · cases hSplit
        have hAtom := Atom.negative hNe hDigits hStop hRange hEnd
        rw [List.takeWhile_append_dropWhile] at hAtom
        exact hAtom
      · cases hSplit
        have hAtom := Atom.natural hNe hDigits hStop hRange hEnd
        rw [List.takeWhile_append_dropWhile] at hAtom
        exact hAtom
    · cases h

theorem atom_of_readBool (h : readBool cs = .ok (f, rest)) : Atom cs f rest := by
  unfold readBool at h
  split at h
  · obtain ⟨rfl, rfl, hEnd⟩ := atom_eq_ok h
    exact @Atom.truth true _ hEnd
  · obtain ⟨rfl, rfl, hEnd⟩ := atom_eq_ok h
    exact @Atom.truth false _ hEnd
  · cases h

theorem atom_of_readString (h : readString cs = .ok (f, rest)) : Atom cs f rest := by
  unfold readString at h
  split at h
  · split at h
    · rename_i s after hDecode
      cases h
      obtain ⟨inside, hLiteral, rfl⟩ := Text.decode_iff.mp hDecode
      exact .str hLiteral
    · cases h
  · cases h

theorem atom_of_readMark (h : readMark cs = .ok (f, rest)) : Atom cs f rest := by
  unfold readMark at h
  split at h
  · split at h
    · rename_i ty after hRead
      obtain ⟨rfl, rfl, hEnd⟩ := atom_eq_ok h
      exact .mark ((Ty.read_iff (head?_ne_bracket_of_atBoundary hEnd)).mp hRead) hEnd
    · cases h
  · cases h

theorem atom_of_readSymbol (h : readSymbol cs = .ok (f, rest)) : Atom cs f rest := by
  unfold readSymbol at h
  simp only at h
  have hSplit : cs.takeWhile isNameChar ++ cs.dropWhile isNameChar = cs :=
    List.takeWhile_append_dropWhile
  split at h
  · rename_i hName
    split at h
    · rename_i inside hAfter
      rw [hAfter] at hSplit
      split at h
      · rename_i ty after hRead
        obtain ⟨rfl, rfl, hEnd⟩ := atom_eq_ok h
        have hType := (Ty.read_iff (head?_ne_bracket_of_atBoundary hEnd)).mp hRead
        rw [← hSplit] at hType ⊢
        exact .bracketed hName hType hEnd
      · cases h
    · rename_i inside hAfter
      rw [hAfter] at hSplit
      split at h
      · rename_i ty after hRead
        obtain ⟨rfl, rfl, hEnd⟩ := atom_eq_ok h
        have hAtom := Atom.typed hName
          ((Ty.read_iff (head?_ne_bracket_of_atBoundary hEnd)).mp hRead) hEnd
        rw [hSplit] at hAtom
        exact hAtom
      · -- A colon is no boundary, so a name does not end in front of one.
        obtain ⟨-, -, hEnd⟩ := atom_eq_ok h
        rw [hAfter] at hEnd
        cases hEnd
      · cases h
    · obtain ⟨rfl, rfl, hEnd⟩ := atom_eq_ok h
      have hAtom := Atom.plain hName (stopsAt_dropWhile isNameChar cs) hEnd
      rw [hSplit] at hAtom
      exact hAtom
  · cases h

theorem readsItems_of_readItems
    (hRead : ∀ {cs f rest}, read levels cs = .ok (f, rest) → Reads levels cs f rest)
    {fuel : Nat} : ∀ {cs : List Char} {items : List Form} {rest : List Char},
      readItems (read levels) fuel cs = .ok (items, rest) → ReadsItems levels cs items rest := by
  induction fuel with
  | zero =>
      intro cs items rest h
      cases h
  | succ fuel ih =>
      intro cs items rest h
      rw [readItems] at h
      split at h
      · rename_i after hClose
        cases h
        obtain ⟨gap, hGap, rfl⟩ := exists_trivia hClose
        exact .close hGap
      · split at h
        · cases h
        · rename_i item after hItem
          split at h
          · rename_i others end' hOthers
            cases h
            rw [read_skipTrivia] at hItem
            exact .item (hRead hItem) (ih hOthers)
          · cases h

/-- What the reader makes of a text is of the grammar. -/
theorem reads_of_read : ∀ {levels : Nat} {cs : List Char} {f : Form} {rest : List Char},
    read levels cs = .ok (f, rest) → Reads levels cs f rest := by
  intro levels
  induction levels with
  | zero =>
      intro cs f rest h
      cases h
  | succ levels ih =>
      intro cs f rest h
      rcases skipTrivia_cases cs with ⟨gap, hGap, hSplit, -⟩ | ⟨-, hNil⟩
      · rw [read] at h
        rw [hSplit]
        obtain ⟨shape, hShape, hRead⟩ := exists_mem_of_firstOf h
        simp only [List.mem_cons, List.not_mem_nil, or_false] at hShape
        rcases hShape with rfl | rfl | rfl | rfl | rfl | rfl | rfl | rfl
        · unfold readQuote at hRead
          split at hRead
          · rename_i inside hQuote
            split at hRead
            · rename_i inner after hInner
              cases hRead
              rw [hQuote]
              exact .quote hGap (ih hInner)
            · cases hRead
          · cases hRead
        · unfold readList at hRead
          split at hRead
          · rename_i inside hOpen
            split at hRead
            · rename_i items after hItems
              cases hRead
              rw [hOpen]
              exact .list hGap (readsItems_of_readItems ih hItems)
            · cases hRead
          · cases hRead
        · exact .atom hGap (atom_of_readHexadecimal hRead)
        · exact .atom hGap (atom_of_readDecimal hRead)
        · exact .atom hGap (atom_of_readBool hRead)
        · exact .atom hGap (atom_of_readString hRead)
        · exact .atom hGap (atom_of_readMark hRead)
        · exact .atom hGap (atom_of_readSymbol hRead)
      · rw [← read_skipTrivia, hNil] at h
        exact absurd h (read_nil_ne_ok (levels + 1))

/-- **The reader reads the grammar.** -/
theorem read_iff : read levels cs = .ok (f, rest) ↔ Reads levels cs f rest :=
  ⟨reads_of_read, read_of_reads⟩

theorem readsAll_of_readAllWith {fuel : Nat} :
    ∀ {cs : List Char} {forms : List Form}, readAllWith fuel cs = .ok forms →
      ReadsAll cs forms := by
  induction fuel with
  | zero =>
      intro cs forms h
      cases h
  | succ fuel ih =>
      intro cs forms h
      rw [readAllWith] at h
      split at h
      · rename_i hNil
        cases h
        exact .done (remainder_iff.mpr hNil)
      · split at h
        · cases h
        · rename_i first after hFirst
          split at h
          · rename_i others hOthers
            cases h
            rw [read_skipTrivia] at hFirst
            exact .form (reads_of_read hFirst) (ih hOthers)
          · cases h

/-- **A text is read to its end** exactly if it is a sequence of forms with spacing and
comments around them. -/
theorem readAll_iff {forms : List Form} : readAll cs = .ok forms ↔ ReadsAll cs forms :=
  ⟨readsAll_of_readAllWith, fun h => readAllWith_of_readsAll h (Nat.lt_succ_self cs.length)⟩

/-- A text is a program, or the error is one of parsing. -/
theorem parseAll_cases (source : String) :
    (∃ forms, parseAll source = .ok forms) ∨ ∃ cause, parseAll source = .error (.parse cause) := by
  rw [parseAll]
  split
  · exact .inl ⟨_, rfl⟩
  · exact .inr ⟨_, rfl⟩

theorem parseAll_iff {source : String} {forms : List Form} :
    parseAll source = .ok forms ↔ ReadsAll source.toList forms := by
  rw [← readAll_iff, parseAll]
  split
  · rename_i read hRead
    rw [hRead]
    constructor <;> (intro h; cases h; rfl)
  · rename_i fault hRead
    rw [hRead]
    constructor <;> (intro h; cases h)

end Form

end ClauseLisp
