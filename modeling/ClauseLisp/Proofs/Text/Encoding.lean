import ClauseLisp.Text.Utf8
import Mathlib.Data.List.Infix

/-!
# Decoding inverts encoding

The decoder guesses the width of a character from its first byte and checks the
bytes afterwards.  It takes a character off a byte stream exactly if the stream
starts with the encoding of that character, so what it takes off one after the
other is the longest start of the stream that is well-formed.

## Main results

* `decodeUtf8_eq_char_iff` — decoding a character inverts encoding it.
* `exists_longestText`, `LongestText.unique` — every byte string starts with one longest
  well-formed text.
-/

namespace ClauseLisp.Text

/-- The bytes that encode a text. -/
def encoded (cs : List Char) : List UInt8 := cs.flatMap String.utf8EncodeChar

@[simp] theorem encoded_nil : encoded [] = [] := rfl

@[simp] theorem encoded_cons (c : Char) (cs : List Char) :
    encoded (c :: cs) = String.utf8EncodeChar c ++ encoded cs := rfl

/-! ## One character -/

theorem toNat_ofNat_of_isValidChar {n : Nat} (h : n.isValidChar) : (Char.ofNat n).toNat = n := by
  rw [Char.ofNat, dif_pos h]
  rfl

theorem byte_eq_iff {n : Nat} {byte : UInt8} : UInt8.ofNat n = byte ↔ n % 256 = byte.toNat := by
  rw [← UInt8.toNat_inj]
  simp

theorem continuation?_bind_eq_some {byte : UInt8} {f : Nat → Option Char} {c : Char} :
    (continuation? byte >>= f) = some c ↔
      (0x80 ≤ byte.toNat ∧ byte.toNat < 0xc0) ∧ f (byte.toNat - 0x80) = some c := by
  unfold continuation?
  dsimp only
  split
  · rename_i h
    simp [h]
  · rename_i h
    simp only [h, false_and, iff_false]
    exact nofun

theorem scalar?_eq_some {least n : Nat} {c : Char} :
    scalar? least n = some c ↔ least ≤ n ∧ c.toNat = n := by
  unfold scalar?
  split
  · rename_i h
    constructor
    · rintro hc
      cases hc
      exact ⟨h.1, toNat_ofNat_of_isValidChar h.2⟩
    · rintro ⟨-, rfl⟩
      rw [Char.ofNat_toNat]
  · rename_i h
    constructor
    · exact nofun
    · rintro ⟨hLeast, rfl⟩
      exact absurd ⟨hLeast, c.valid⟩ h

/-- The first bytes that announce a width, by their numbers. -/
theorem announced?_eq_some {first : UInt8} {width : Nat} :
    announced? first = some width ↔
      (width = 1 ∧ first.toNat < 0x80) ∨ (width = 2 ∧ 0xc0 ≤ first.toNat ∧ first.toNat < 0xe0) ∨
        (width = 3 ∧ 0xe0 ≤ first.toNat ∧ first.toNat < 0xf0) ∨
          (width = 4 ∧ 0xf0 ≤ first.toNat ∧ first.toNat < 0xf8) := by
  unfold announced?
  dsimp only
  repeat' split
  all_goals simp only [Option.some.injEq, reduceCtorEq, false_iff]
  all_goals omega

section

variable {char : Char} {a b c d : UInt8}

/-! The encodings of each width, by the number of the character. -/

theorem utf8EncodeChar_eq_one :
    String.utf8EncodeChar char = [a] ↔ char.toNat < 0x80 ∧ a.toNat = char.toNat := by
  have hNumber : char.val.toNat = char.toNat := rfl
  simp only [String.utf8EncodeChar, hNumber]
  repeat' split
  all_goals simp only [List.cons.injEq, byte_eq_iff, and_true, reduceCtorEq, and_false, false_iff]
  all_goals omega

theorem utf8EncodeChar_eq_two :
    String.utf8EncodeChar char = [a, b] ↔ (0x80 ≤ char.toNat ∧ char.toNat < 0x800) ∧
      a.toNat = 0xc0 + char.toNat / 64 ∧ b.toNat = 0x80 + char.toNat % 64 := by
  have hNumber : char.val.toNat = char.toNat := rfl
  simp only [String.utf8EncodeChar, hNumber]
  repeat' split
  all_goals simp only [List.cons.injEq, byte_eq_iff, and_true, reduceCtorEq, and_false, false_iff]
  all_goals omega

theorem utf8EncodeChar_eq_three :
    String.utf8EncodeChar char = [a, b, c] ↔ (0x800 ≤ char.toNat ∧ char.toNat < 0x10000) ∧
      a.toNat = 0xe0 + char.toNat / 4096 ∧ b.toNat = 0x80 + char.toNat / 64 % 64 ∧
        c.toNat = 0x80 + char.toNat % 64 := by
  have hNumber : char.val.toNat = char.toNat := rfl
  simp only [String.utf8EncodeChar, hNumber]
  repeat' split
  all_goals simp only [List.cons.injEq, byte_eq_iff, and_true, reduceCtorEq, and_false, false_iff]
  all_goals omega

theorem toNat_lt (char : Char) : char.toNat < 0x110000 := by
  rcases char.valid with h | h
  · exact Nat.lt_of_lt_of_le h (by decide)
  · exact h.2

theorem utf8EncodeChar_eq_four :
    String.utf8EncodeChar char = [a, b, c, d] ↔ 0x10000 ≤ char.toNat ∧
      a.toNat = 0xf0 + char.toNat / 262144 ∧ b.toNat = 0x80 + char.toNat / 4096 % 64 ∧
        c.toNat = 0x80 + char.toNat / 64 % 64 ∧ d.toNat = 0x80 + char.toNat % 64 := by
  have hNumber : char.val.toNat = char.toNat := rfl
  have hBound := toNat_lt char
  simp only [String.utf8EncodeChar, hNumber]
  repeat' split
  all_goals simp only [List.cons.injEq, byte_eq_iff, and_true, reduceCtorEq, and_false, false_iff]
  all_goals omega

/-- **Bytes of the width that the first one announces are the character that they encode.** Overlong
bytes are excluded by the least number of their width, and surrogates since no character has their
numbers. -/
theorem utf8Char?_eq_some {first : UInt8} {more : List UInt8}
    (hWidth : announced? first = some (more.length + 1)) :
    utf8Char? (first :: more) = some char ↔ String.utf8EncodeChar char = first :: more := by
  have hBound := toNat_lt char
  rw [announced?_eq_some] at hWidth
  match more, hWidth with
  | [], hWidth =>
    have hFirst : first.toNat < 0x80 := by simpa using hWidth
    have hValid : first.toNat.isValidChar := .inl (by omega)
    rw [utf8EncodeChar_eq_one]
    simp only [utf8Char?, hFirst, if_true, Option.some.injEq]
    constructor
    · rintro rfl
      simp [toNat_ofNat_of_isValidChar hValid, hFirst]
    · rintro ⟨-, hSame⟩
      rw [hSame, Char.ofNat_toNat]
  | [b], hWidth =>
    simp only [utf8EncodeChar_eq_two, utf8Char?, continuation?_bind_eq_some, scalar?_eq_some]
    simp at hWidth
    omega
  | [b, c], hWidth =>
    simp only [utf8EncodeChar_eq_three, utf8Char?, continuation?_bind_eq_some, scalar?_eq_some]
    simp at hWidth
    omega
  | [b, c, d], hWidth =>
    simp only [utf8EncodeChar_eq_four, utf8Char?, continuation?_bind_eq_some, scalar?_eq_some]
    simp at hWidth
    omega
  | _ :: _ :: _ :: _ :: _, hWidth =>
    simp at hWidth

/-- The first byte of an encoding announces its width. -/
theorem announced?_of_utf8EncodeChar {first : UInt8} {more : List UInt8}
    (h : String.utf8EncodeChar char = first :: more) :
    announced? first = some (more.length + 1) := by
  have hBound := toNat_lt char
  have hLength : more.length + 1 ≤ 4 := by
    rw [← List.length_cons, ← h, String.length_utf8EncodeChar]
    exact Char.utf8Size_le_four char
  rw [announced?_eq_some]
  match more, h with
  | [], h =>
    rw [utf8EncodeChar_eq_one] at h
    exact .inl ⟨rfl, by omega⟩
  | [b], h =>
    rw [utf8EncodeChar_eq_two] at h
    exact .inr (.inl ⟨rfl, by omega, by omega⟩)
  | [b, c], h =>
    rw [utf8EncodeChar_eq_three] at h
    exact .inr (.inr (.inl ⟨rfl, by omega, by omega⟩))
  | [b, c, d], h =>
    rw [utf8EncodeChar_eq_four] at h
    exact .inr (.inr (.inr ⟨rfl, by omega, by omega⟩))
  | _ :: _ :: _ :: _ :: _, _ =>
    simp only [List.length_cons] at hLength
    omega

end

theorem decodeUtf8_cons {first : UInt8} {more : List UInt8} {width : Nat}
    (hWidth : announced? first = some (width + 1)) :
    decodeUtf8 (first :: more) =
      if more.length < width then .cut
      else
        match utf8Char? (first :: more.take width) with
        | some c => .char c (more.drop width)
        | none => .invalid (more.drop width) := by
  have hShort : min width more.length < width ↔ more.length < width := by omega
  cases hChar : utf8Char? (first :: more.take width) <;>
    simp only [decodeUtf8, hWidth, List.take_succ_cons, List.length_cons, List.length_take,
      Nat.add_lt_add_iff_right, hShort, List.drop_succ_cons, hChar]

/-- **The decoder takes a character off a byte stream if and only if the stream starts with its
encoding.** -/
theorem decodeUtf8_eq_char_iff {bytes rest : List UInt8} {c : Char} :
    decodeUtf8 bytes = .char c rest ↔ bytes = String.utf8EncodeChar c ++ rest := by
  constructor
  · intro h
    match bytes, h with
    | first :: more, h =>
      cases hAnnounced : announced? first with
      | none => simp [decodeUtf8, hAnnounced] at h
      | some width =>
          obtain ⟨width, rfl⟩ : ∃ w, width = w + 1 := by
            rw [announced?_eq_some] at hAnnounced
            exact ⟨width - 1, by omega⟩
          rw [decodeUtf8_cons hAnnounced] at h
          by_cases hShort : more.length < width
          · simp [hShort] at h
          · rw [if_neg hShort] at h
            have hTaken : (more.take width).length = width := by simp; omega
            split at h
            · rename_i char hChar
              have hEncoded := (utf8Char?_eq_some (by rw [hTaken, hAnnounced])).mp hChar
              cases h
              rw [hEncoded, List.cons_append, List.take_append_drop]
            · cases h
  · rintro rfl
    have hSome : String.utf8EncodeChar c ≠ [] := String.utf8EncodeChar_ne_nil
    obtain ⟨first, more, hEncoded⟩ := List.exists_cons_of_ne_nil hSome
    have hAnnounced := announced?_of_utf8EncodeChar hEncoded
    have hChar := (utf8Char?_eq_some hAnnounced).mpr hEncoded
    rw [hEncoded, List.cons_append, decodeUtf8_cons hAnnounced]
    simp [hChar]

/-- Only at its end the stream is finished. -/
theorem decodeUtf8_ne_finished (first : UInt8) (more : List UInt8) :
    decodeUtf8 (first :: more) ≠ .finished := by
  unfold decodeUtf8
  dsimp only
  repeat' split
  all_goals exact nofun

/-! ## The longest text at the start -/

theorem isValidUTF8_iff {bytes : List UInt8} :
    bytes.toByteArray.IsValidUTF8 ↔ ∃ cs, bytes = encoded cs := by
  have hInjective : ∀ cs, bytes.toByteArray = List.utf8Encode cs ↔ bytes = encoded cs := by
    intro cs
    rw [List.utf8Encode, encoded]
    constructor
    · intro h
      simpa using congrArg (fun b => b.data.toList) h
    · rintro rfl
      rfl
  constructor
  · rintro ⟨cs, h⟩
    exact ⟨cs, (hInjective cs).mp h⟩
  · rintro ⟨cs, h⟩
    exact ⟨cs, (hInjective cs).mpr h⟩

/-- The characters whose encoding is the longest start of some bytes that is well-formed. -/
structure LongestText (content : List UInt8) (cs : List Char) : Prop where
  starts : encoded cs <+: content
  longest : ∀ start, start <+: content → start.toByteArray.IsValidUTF8 → start <+: encoded cs

/-- Text and what follows it, where no further character starts. -/
theorem longestText_of_append {cs : List Char} {after : List UInt8}
    (hAfter : ∀ c rest, decodeUtf8 after ≠ .char c rest) :
    LongestText (encoded cs ++ after) cs where
  starts := List.prefix_append _ _
  longest := by
    intro start hStart hValid
    obtain ⟨ds, rfl⟩ := isValidUTF8_iff.mp hValid
    obtain ⟨rest, hRest⟩ := hStart
    clear hValid
    induction cs generalizing ds with
    | nil =>
        cases ds with
        | nil => exact List.nil_prefix
        | cons d ds =>
            have hChar : decodeUtf8 after = .char d (encoded ds ++ rest) :=
              decodeUtf8_eq_char_iff.mpr (by simpa using hRest.symm)
            exact absurd hChar (hAfter _ _)
    | cons c cs ih =>
        cases ds with
        | nil => exact List.nil_prefix
        | cons d ds =>
            have hFirst : decodeUtf8 (encoded (c :: cs) ++ after) = .char c (encoded cs ++ after) :=
              decodeUtf8_eq_char_iff.mpr (by simp)
            have hOther : decodeUtf8 (encoded (c :: cs) ++ after) = .char d (encoded ds ++ rest) :=
              decodeUtf8_eq_char_iff.mpr (by rw [← hRest, encoded_cons, List.append_assoc])
            obtain ⟨rfl, hSame⟩ := Decoded.char.inj (hFirst.symm.trans hOther)
            rw [encoded_cons, encoded_cons, List.prefix_append_right_inj]
            exact ih ds hSame.symm

/-- **Every byte string starts with a longest text**, and no character starts after it. -/
theorem exists_longestText (content : List UInt8) :
    ∃ cs after, content = encoded cs ++ after ∧ LongestText content cs ∧
      ∀ c rest, decodeUtf8 after ≠ .char c rest := by
  have hSplit : ∃ cs after, content = encoded cs ++ after ∧
      ∀ c rest, decodeUtf8 after ≠ .char c rest := by
    induction hLength : content.length using Nat.strongRecOn generalizing content with
    | ind n ih =>
        by_cases hChar : ∃ c rest, decodeUtf8 content = .char c rest
        · obtain ⟨c, rest, hChar⟩ := hChar
          have hContent := decodeUtf8_eq_char_iff.mp hChar
          have hShorter : rest.length < n := by
            have hSome := List.length_pos_of_ne_nil (String.utf8EncodeChar_ne_nil (c := c))
            rw [← hLength, hContent, List.length_append]
            omega
          obtain ⟨cs, after, hRest, hAfter⟩ := ih _ hShorter rest rfl
          exact ⟨c :: cs, after, by rw [hContent, hRest]; simp, hAfter⟩
        · exact ⟨[], content, rfl, fun c rest h => hChar ⟨c, rest, h⟩⟩
  obtain ⟨cs, after, rfl, hAfter⟩ := hSplit
  exact ⟨cs, after, rfl, longestText_of_append hAfter, hAfter⟩

/-- A text is determined by its bytes. -/
theorem encoded_injective : Function.Injective encoded := by
  intro cs ds h
  induction cs generalizing ds with
  | nil =>
      cases ds with
      | nil => rfl
      | cons d ds => simp [String.utf8EncodeChar_ne_nil] at h
  | cons c cs ih =>
      have hFirst : decodeUtf8 (encoded (c :: cs)) = .char c (encoded cs) :=
        decodeUtf8_eq_char_iff.mpr rfl
      cases ds with
      | nil =>
          rw [h] at hFirst
          cases hFirst
      | cons d ds =>
          have hOther : decodeUtf8 (encoded (c :: cs)) = .char d (encoded ds) :=
            decodeUtf8_eq_char_iff.mpr h
          obtain ⟨rfl, hSame⟩ := Decoded.char.inj (hFirst.symm.trans hOther)
          rw [ih hSame]

theorem isValidUTF8_encoded (cs : List Char) : (encoded cs).toByteArray.IsValidUTF8 :=
  isValidUTF8_iff.mpr ⟨cs, rfl⟩

/-- There is one longest text. -/
theorem LongestText.unique {content : List UInt8} {cs ds : List Char} (h : LongestText content cs)
    (h' : LongestText content ds) : cs = ds := by
  have hBelow := h'.longest _ h.starts (isValidUTF8_encoded cs)
  have hAbove := h.longest _ h'.starts (isValidUTF8_encoded ds)
  exact encoded_injective (hBelow.eq_of_length_le hAbove.length_le)

end ClauseLisp.Text
