import ClauseLisp.Number
import ClauseLisp.Text.Quoted

/-!
# Texts of numbers and strings

The decimal text of a number and the quoted text of a string can be read back.
For a string this also holds in front of any other text: the closing quote is
the first one that is not escaped.

## Main results

* `Number.ofDigits_toDigits` — the value of the digits of a number.
* `Number.text_cases` — a number starts with a digit, or with a minus sign and
  a digit, and holds nothing but digits after it.
* `Text.decode_encode` — reading the inside of a string literal.
-/

namespace ClauseLisp

namespace Number

/-- Reading the digits of a natural number gives the number. -/
theorem ofDigits_toDigits (n : Nat) : ofDigits 10 decimalDigit (Nat.toDigits 10 n) = n := by
  have hStep : (fun (m : Nat) (c : Char) => m * 10 + decimalDigit c) =
      fun m c => 10 * m + (c.toNat - '0'.toNat) := by
    funext m c
    rw [Nat.mul_comm, decimalDigit]
  have hFold : Nat.ofDigitChars 10 (Nat.toDigits 10 n) 0 = _ := Nat.ofDigitChars_eq_foldl
  rw [Nat.ofDigitChars_ten_toDigits] at hFold
  rw [ofDigits, hStep]
  exact hFold.symm

theorem toDigits_injective {m n : Nat} (h : Nat.toDigits 10 m = Nat.toDigits 10 n) : m = n := by
  rw [← ofDigits_toDigits m, h, ofDigits_toDigits]

theorem isDigit_of_mem_toDigits {n : Nat} {c : Char} (h : c ∈ Nat.toDigits 10 n) :
    c.isDigit = true :=
  Nat.isDigit_of_mem_toDigits (by omega) (by omega) h

/-- The digits of a natural number are a digit and more digits. -/
theorem toDigits_eq_cons (n : Nat) :
    ∃ d ds, Nat.toDigits 10 n = d :: ds ∧ d.isDigit = true ∧ ∀ c ∈ ds, c.isDigit = true := by
  cases hText : Nat.toDigits 10 n with
  | nil => exact absurd hText Nat.toDigits_ne_nil
  | cons d ds =>
      have hAll : ∀ c ∈ d :: ds, c.isDigit = true := by
        intro c hc
        rw [← hText] at hc
        exact isDigit_of_mem_toDigits hc
      exact ⟨d, ds, rfl, hAll d (by simp), fun c hc => hAll c (by simp [hc])⟩

/-- A number starts with a digit, or with a minus sign and a digit; after that
there are only digits. -/
theorem text_cases (n : Int) :
    ∃ d ds, d.isDigit = true ∧ (∀ c ∈ ds, c.isDigit = true) ∧
      (text n = d :: ds ∨ text n = '-' :: d :: ds) := by
  cases n with
  | ofNat m =>
      obtain ⟨d, ds, hText, hd, hds⟩ := toDigits_eq_cons m
      exact ⟨d, ds, hd, hds, .inl hText⟩
  | negSucc m =>
      obtain ⟨d, ds, hText, hd, hds⟩ := toDigits_eq_cons (m + 1)
      exact ⟨d, ds, hd, hds, .inr (by rw [text, hText])⟩

/-- A digit is none of the characters that are no digits. -/
theorem ne_of_isDigit {c d : Char} (hc : c.isDigit = true) (hd : d.isDigit = false) : c ≠ d := by
  rintro rfl
  rw [hc] at hd
  cases hd

theorem not_mem_text {n : Int} {c : Char} (hDigit : c.isDigit = false) (hMinus : c ≠ '-') :
    c ∉ text n := by
  obtain ⟨d, ds, hd, hds, hText | hText⟩ := text_cases n
  · rw [hText]
    intro hMem
    rcases List.mem_cons.mp hMem with rfl | hMem
    · exact ne_of_isDigit hd hDigit rfl
    · exact ne_of_isDigit (hds c hMem) hDigit rfl
  · rw [hText]
    intro hMem
    rcases List.mem_cons.mp hMem with rfl | hMem
    · exact hMinus rfl
    · rcases List.mem_cons.mp hMem with rfl | hMem
      · exact ne_of_isDigit hd hDigit rfl
      · exact ne_of_isDigit (hds c hMem) hDigit rfl

/-- Different numbers have different texts. -/
theorem text_injective {m n : Int} (h : text m = text n) : m = n := by
  have hMinus : ∀ k l : Nat, Nat.toDigits 10 k ≠ '-' :: Nat.toDigits 10 l := by
    intro k l hEq
    have hDigit : ('-').isDigit = true :=
      isDigit_of_mem_toDigits (n := k) (by rw [hEq]; exact List.mem_cons_self)
    exact absurd hDigit (by decide)
  cases m with
  | ofNat k =>
      cases n with
      | ofNat l => exact congrArg Int.ofNat (toDigits_injective h)
      | negSucc l => exact absurd h (hMinus k (l + 1))
  | negSucc k =>
      cases n with
      | ofNat l => exact absurd h.symm (hMinus l (k + 1))
      | negSucc l =>
          have hSucc := toDigits_injective (List.cons.inj h).2
          exact congrArg Int.negSucc (by omega)

end Number

namespace Text

/-- A character that needs no escape stands for itself. -/
theorem decodeOnto_plain {c : Char} (hQuote : c ≠ '"') (hEscape : c ≠ '\\') (done rest : List Char) :
    decodeOnto done (c :: rest) = decodeOnto (c :: done) rest := by
  rw [decodeOnto.eq_def]
  split <;> simp_all

theorem decodeOnto_encodeChar (c : Char) (done rest : List Char) :
    decodeOnto done (encodeChar c ++ rest) = decodeOnto (c :: done) rest := by
  unfold encodeChar
  split
  case h_6 hQuote hEscape _ _ _ => exact decodeOnto_plain hQuote hEscape done rest
  all_goals rfl

theorem decodeOnto_encode (cs : List Char) :
    ∀ done rest : List Char,
      decodeOnto done (encode cs ++ '"' :: rest) = some (done.reverse ++ cs, rest) := by
  induction cs with
  | nil => intro done rest; simp [encode, decodeOnto]
  | cons c cs ih =>
      intro done rest
      have hSplit : encode (c :: cs) ++ '"' :: rest =
          encodeChar c ++ (encode cs ++ '"' :: rest) := by
        simp [encode, List.append_assoc]
      rw [hSplit, decodeOnto_encodeChar, ih]
      simp

/-- **Reading a string literal** gives back what was written and what follows
the closing quote. -/
theorem decode_encode (cs rest : List Char) :
    decode (encode cs ++ '"' :: rest) = some (cs, rest) := by
  rw [decode, decodeOnto_encode]
  rfl

end Text

end ClauseLisp
