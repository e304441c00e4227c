import ClauseLisp.Form.Basic

/-!
# Characters of names

A name consists of name characters and does not start like a number or with an
apostrophe.  What the proofs about texts need beyond that is which ASCII signs
are no name characters: the ones that end a name or separate it from what
follows.
-/

namespace ClauseLisp

/-- All characters of a name are name characters. -/
theorem isNameChar_of_isName {cs : List Char} (h : isName cs = true) :
    ∀ c ∈ cs, isNameChar c = true := by
  intro c hc
  unfold isName at h
  split at h
  · cases h
  · rename_i d rest
    rcases List.mem_cons.mp hc with rfl | hRest
    · decide
    · exact List.all_eq_true.mp (Bool.and_eq_true_iff.mp h).2 c hRest
  · exact List.all_eq_true.mp (Bool.and_eq_true_iff.mp h).2 c hc

/-- Digits are name characters. -/
theorem isNameChar_of_isDigit {c : Char} (h : c.isDigit = true) : isNameChar c = true := by
  have hAscii : c.toNat < 0x80 := by
    simp only [Char.isDigit, Bool.and_eq_true, decide_eq_true_eq] at h
    have hUpper : c.val.toNat ≤ '9'.val.toNat := h.2
    exact Nat.lt_of_le_of_lt hUpper (by decide)
  simp [isNameChar, Text.isAlphanumeric, Text.isAsciiAlphanumeric, hAscii, h]

/-- What is no name character does not occur in a name. -/
theorem not_mem_of_isName {cs : List Char} (h : isName cs = true) {c : Char}
    (hc : isNameChar c = false) : c ∉ cs := by
  intro hMem
  rw [isNameChar_of_isName h c hMem] at hc
  cases hc

/-- A name does not start with a digit. -/
theorem isDigit_head_of_isName {c : Char} {cs : List Char} (h : isName (c :: cs) = true) :
    c.isDigit = false := by
  unfold isName at h
  split at h
  · rename_i hNil
    cases hNil
  · rename_i d rest hCons
    cases hCons
    decide
  · rename_i d rest _ hCons
    cases hCons
    simp only [Bool.and_eq_true, Bool.not_eq_true'] at h
    exact h.1.1

/-- A name does not start with a minus sign and a digit. -/
theorem isDigit_second_of_isName {c : Char} {cs : List Char}
    (h : isName ('-' :: c :: cs) = true) : c.isDigit = false := by
  simp only [isName, Bool.and_eq_true, Bool.not_eq_true'] at h
  exact h.1

/-- A name does not start with an apostrophe. -/
theorem head_ne_apostrophe_of_isName {c : Char} {cs : List Char}
    (h : isName (c :: cs) = true) : c ≠ '\'' := by
  rintro rfl
  simp [isName] at h

end ClauseLisp
