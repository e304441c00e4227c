import ClauseLisp.Proofs.RoundTrip.Types

/-!
# A grammar of types

What the reader of types accepts, said without fuel and without the order in
which it tries things: a text is a type and a remainder.  The reader takes the
arguments of a name if it can and leaves the bracket where it stands if it cannot,
so the two agree where the remainder does not start with a bracket; every form
that contains a type asks for that.

## Main results

* `Ty.readWith_of_reads`, `Ty.reads_of_readWith` — the grammar and the reader
  agree on texts in front of which no bracket is left.
* `Ty.Reads.append` — what follows the remainder does not matter.
-/

namespace ClauseLisp

/-! ## Where a run of characters stops -/

theorem stopsAt_cons {p : Char → Bool} {c : Char} (hc : p c = false) (cs : List Char) :
    StopsAt p (c :: cs) := hc

theorem stopsAt_dropWhile (p : Char → Bool) (cs : List Char) : StopsAt p (cs.dropWhile p) := by
  induction cs with
  | nil => exact trivial
  | cons c cs ih =>
      rw [List.dropWhile_cons]
      split
      · exact ih
      · rename_i hc
        exact stopsAt_cons (Bool.eq_false_iff.mpr hc) cs

/-- Where a class of characters stops, a smaller one does. -/
theorem StopsAt.mono {p q : Char → Bool} {cs : List Char} (hStop : StopsAt q cs)
    (h : ∀ {c}, p c = true → q c = true) : StopsAt p cs := by
  cases cs with
  | nil => exact trivial
  | cons c cs =>
      have hc : q c = false := hStop
      refine stopsAt_cons (Bool.eq_false_iff.mpr fun hp => ?_) cs
      rw [h hp] at hc
      cases hc

/-- What cannot start a text cannot follow one that stops there. -/
theorem StopsAt.append {p : Char → Bool} {cs more : List Char} (hStop : StopsAt p cs)
    (hMore : StopsAt p more) : StopsAt p (cs ++ more) := by
  cases cs with
  | nil => exact hMore
  | cons c cs => exact hStop

/-! ## Spacing in front of something -/

/-- Characters that may stand between the parts of a type. -/
def Spacing (gap : List Char) : Prop := ∀ c ∈ gap, Text.isSpacing c = true

theorem dropSpacing_append {gap rest : List Char} (hGap : Spacing gap)
    (hRest : StopsAt Text.isSpacing rest) : Text.dropSpacing (gap ++ rest) = rest :=
  (takeWhile_append_of_stopsAt hGap hRest).2

theorem exists_spacing (cs : List Char) :
    ∃ gap, Spacing gap ∧ cs = gap ++ Text.dropSpacing cs :=
  ⟨cs.takeWhile Text.isSpacing, fun c hc => List.all_eq_true.mp List.all_takeWhile c hc,
    List.takeWhile_append_dropWhile.symm⟩

/-- A text in which something other than a bracket follows the spacing does not start
with a bracket. -/
theorem head?_ne_bracket_of_dropSpacing {c : Char} {cs rest : List Char} (hc : c ≠ '[')
    (h : Text.dropSpacing cs = c :: rest) : cs.head? ≠ some '[' := by
  cases cs with
  | nil => exact nofun
  | cons d cs =>
      intro hBracket
      cases hBracket
      have hDrop : Text.dropSpacing ('[' :: cs) = '[' :: cs := rfl
      rw [hDrop] at h
      exact hc (List.cons.inj h).1.symm

namespace Ty

/-! ## The grammar -/

mutual

/-- **The grammar of types**: `Reads cs t rest` says that the text `cs` is the type `t`
with `rest` after it. -/
inductive Reads : List Char → Ty → List Char → Prop
  /-- A name on its own. -/
  | name {name rest : List Char} {t : Ty} (hNe : name ≠ [])
      (hName : ∀ c ∈ name, isNameChar c = true) (hEnd : Ended rest)
      (hParts : ofParts? (String.ofList name) none = some t) : Reads (name ++ rest) t rest
  /-- A name with arguments in brackets. -/
  | bracketed {name inside rest : List Char} {args : List Ty} {t : Ty} (hNe : name ≠ [])
      (hName : ∀ c ∈ name, isNameChar c = true) (hArgs : ReadsArguments inside args rest)
      (hParts : ofParts? (String.ofList name) (some args) = some t) :
      Reads (name ++ '[' :: inside) t rest

/-- Types behind an opening bracket, up to the closing one. -/
inductive ReadsArguments : List Char → List Ty → List Char → Prop
  | last {gap cs gap' rest : List Char} {t : Ty} (hGap : Spacing gap)
      (hType : Reads cs t (gap' ++ ']' :: rest)) (hGap' : Spacing gap') :
      ReadsArguments (gap ++ cs) [t] rest
  | more {gap cs gap' others rest : List Char} {t : Ty} {ts : List Ty} (hGap : Spacing gap)
      (hType : Reads cs t (gap' ++ ',' :: others)) (hGap' : Spacing gap')
      (hOthers : ReadsArguments others ts rest) : ReadsArguments (gap ++ cs) (t :: ts) rest

end

variable {cs rest : List Char} {t : Ty} {ts : List Ty}

/-- A type starts with a character of a name. -/
theorem Reads.exists_cons (h : Reads cs t rest) :
    ∃ c after, cs = c :: after ∧ isNameChar c = true := by
  have hFirst : ∀ {name : List Char} (after : List Char), name ≠ [] →
      (∀ c ∈ name, isNameChar c = true) →
      ∃ c others, name ++ after = c :: others ∧ isNameChar c = true := by
    intro name after hNe hName
    obtain ⟨c, name', rfl⟩ := List.exists_cons_of_ne_nil hNe
    exact ⟨c, name' ++ after, rfl, hName c List.mem_cons_self⟩
  cases h with
  | name hNe hName _ _ => exact hFirst _ hNe hName
  | bracketed hNe hName _ _ => exact hFirst _ hNe hName

theorem Reads.stopsAt_spacing (h : Reads cs t rest) : StopsAt Text.isSpacing cs := by
  obtain ⟨c, after, rfl, hc⟩ := h.exists_cons
  exact stopsAt_cons (isSpacing_of_isNameChar hc) after

/-! ## What follows does not matter -/

mutual

/-- A type leaves less than there was. -/
theorem Reads.length_lt : ∀ {cs : List Char} {t : Ty} {rest : List Char},
    Reads cs t rest → rest.length < cs.length
  | _, _, _, .name hNe _ _ _ => by
    have hName := List.length_pos_iff.mpr hNe
    rw [List.length_append]
    omega
  | _, _, _, .bracketed _ _ hArgs _ => by
    have hInside := hArgs.length_lt
    rw [List.length_append, List.length_cons]
    omega

theorem ReadsArguments.length_lt : ∀ {cs : List Char} {ts : List Ty} {rest : List Char},
    ReadsArguments cs ts rest → rest.length < cs.length
  | _, _, _, .last _ hType _ => by
    have hFirst := hType.length_lt
    rw [List.length_append, List.length_cons] at hFirst
    rw [List.length_append]
    omega
  | _, _, _, .more _ hType _ hOthers => by
    have hFirst := hType.length_lt
    have hRest := hOthers.length_lt
    rw [List.length_append, List.length_cons] at hFirst
    rw [List.length_append]
    omega

end

theorem ended_append {more : List Char} (hRest : Ended rest) (hMore : Ended more) :
    Ended (rest ++ more) := by
  refine ⟨hRest.1.append hMore.1, ?_⟩
  cases rest with
  | nil => exact hMore.2
  | cons c rest => exact hRest.2

mutual

/-- **What follows a type does not matter**, as long as it could follow one. -/
theorem Reads.append {more : List Char} (hMore : Ended more) :
    ∀ {cs : List Char} {t : Ty} {rest : List Char}, Reads cs t rest →
      Reads (cs ++ more) t (rest ++ more)
  | _, _, _, .name hNe hName hEnd hParts => by
    rw [List.append_assoc]
    exact .name hNe hName (ended_append hEnd hMore) hParts
  | _, _, _, .bracketed hNe hName hArgs hParts => by
    rw [List.append_assoc, List.cons_append]
    exact .bracketed hNe hName (hArgs.append hMore) hParts

theorem ReadsArguments.append {more : List Char} (hMore : Ended more) :
    ∀ {cs : List Char} {ts : List Ty} {rest : List Char}, ReadsArguments cs ts rest →
      ReadsArguments (cs ++ more) ts (rest ++ more)
  | _, _, _, .last hGap hType hGap' => by
    have hFirst := hType.append hMore
    rw [List.append_assoc, List.cons_append] at hFirst
    rw [List.append_assoc]
    exact .last hGap hFirst hGap'
  | _, _, _, .more hGap hType hGap' hOthers => by
    have hFirst := hType.append hMore
    rw [List.append_assoc, List.cons_append] at hFirst
    rw [List.append_assoc]
    exact .more hGap hFirst hGap' (hOthers.append hMore)

end

/-! ## From the grammar to the reader -/

variable {reader : List Char → Reading Ty}

/-- A closing bracket ends the arguments. -/
theorem readMore_close {gap : List Char} (hGap : Spacing gap) (k : Nat) (rest : List Char) :
    readMore reader k (gap ++ ']' :: rest) = .ok ([], gap ++ ']' :: rest) := by
  have hDrop : Text.dropSpacing (gap ++ ']' :: rest) = ']' :: rest :=
    dropSpacing_append hGap (stopsAt_cons (by decide) rest)
  cases k with
  | zero => rfl
  | succ k =>
      rw [readMore, hDrop]
      rfl

mutual

/-- What the grammar makes of a text the reader makes of it, if it has more fuel than
the text has characters. -/
theorem readWith_of_reads : ∀ {cs : List Char} {t : Ty} {rest : List Char} {fuel : Nat},
    Reads cs t rest → cs.length < fuel → readWith fuel cs = .ok (t, rest)
  | _, _, _, fuel + 1, .name hNe hName hEnd hParts, _ => readWith_name hNe hName hEnd hParts
  | _, _, _, fuel + 1, .bracketed hNe hName hArgs hParts, hFuel => by
    rw [List.length_append, List.length_cons] at hFuel
    obtain ⟨t, ts, after, after', rfl, hFirst, -, hMore, hClose⟩ :=
      readMore_of_readsArguments hArgs (show _ < fuel by omega)
    refine readWith_bracketed hNe hName ?_ hParts
    rw [readArguments]
    simp only [hFirst, hMore after.length (Nat.le_refl _), hClose]

/-- The reader takes the first of several types and then the others, up to the closing
bracket. -/
theorem readMore_of_readsArguments :
    ∀ {cs : List Char} {args : List Ty} {rest : List Char} {fuel : Nat},
      ReadsArguments cs args rest → cs.length < fuel →
      ∃ t ts after after', args = t :: ts ∧
        readWith fuel (Text.dropSpacing cs) = .ok (t, after) ∧ after.length < cs.length ∧
        (∀ k, after.length ≤ k → readMore (readWith fuel) k after = .ok (ts, after')) ∧
        Text.dropSpacing after' = ']' :: rest
  | _, _, _, fuel, @ReadsArguments.last gap cs gap' rest t hGap hType hGap', hFuel => by
    rw [List.length_append] at hFuel
    have hFirst := readWith_of_reads hType (show cs.length < fuel by omega)
    have hClose : Text.dropSpacing (gap' ++ ']' :: rest) = ']' :: rest :=
      dropSpacing_append hGap' (stopsAt_cons (by decide) rest)
    have hLength := hType.length_lt
    rw [dropSpacing_append hGap hType.stopsAt_spacing, List.length_append]
    exact ⟨t, [], _, _, rfl, hFirst, by omega, fun k _ => readMore_close hGap' k rest, hClose⟩
  | _, _, _, fuel, @ReadsArguments.more gap cs gap' others _ t _ hGap hType hGap' hOthers,
      hFuel => by
    rw [List.length_append] at hFuel
    have hLength := hType.length_lt
    rw [List.length_append, List.length_cons] at hLength
    have hFirst := readWith_of_reads hType (show cs.length < fuel by omega)
    obtain ⟨u, us, after, after', rfl, hNext, hAfter, hMore, hClose⟩ :=
      readMore_of_readsArguments hOthers (show others.length < fuel by omega)
    have hComma : Text.dropSpacing (gap' ++ ',' :: others) = ',' :: others :=
      dropSpacing_append hGap' (stopsAt_cons (by decide) others)
    rw [dropSpacing_append hGap hType.stopsAt_spacing, List.length_append]
    refine ⟨t, u :: us, _, after', rfl, hFirst, ?_, fun k hk => ?_, hClose⟩
    · rw [List.length_append, List.length_cons]
      omega
    · rw [List.length_append, List.length_cons] at hk
      obtain ⟨k, rfl⟩ : ∃ n, k = n + 1 := ⟨k - 1, by omega⟩
      rw [readMore, hComma]
      simp only [hNext]
      rw [hMore k (by omega)]

end

/-! ## From the reader to the grammar -/

/-- What the reader takes for several types up to a closing bracket are types. -/
theorem readsArguments_of_readMore
    (hReader : ∀ {cs t rest}, reader cs = .ok (t, rest) → rest.head? ≠ some '[' →
      Reads cs t rest) :
    ∀ {k : Nat} {gap cs after after' rest : List Char} {t : Ty} {ts : List Ty}, Spacing gap →
      reader cs = .ok (t, after) → readMore reader k after = .ok (ts, after') →
      Text.dropSpacing after' = ']' :: rest → ReadsArguments (gap ++ cs) (t :: ts) rest := by
  have hLast : ∀ {gap cs after rest : List Char} {t : Ty}, Spacing gap →
      reader cs = .ok (t, after) → Text.dropSpacing after = ']' :: rest →
      ReadsArguments (gap ++ cs) [t] rest := by
    intro gap cs after rest t hGap hFirst hClose
    have hType := hReader hFirst (head?_ne_bracket_of_dropSpacing (by decide) hClose)
    obtain ⟨gap', hGap', hAfter⟩ := exists_spacing after
    rw [hAfter, hClose] at hType
    exact .last hGap hType hGap'
  intro k
  induction k with
  | zero =>
      intro gap cs after after' rest t ts hGap hFirst hMore hClose
      cases hMore
      exact hLast hGap hFirst hClose
  | succ k ih =>
      intro gap cs after after' rest t ts hGap hFirst hMore hClose
      rw [readMore] at hMore
      split at hMore
      · rename_i others hComma
        split at hMore
        · rename_i u end' hNext
          split at hMore
          · rename_i us end'' hOthers
            cases hMore
            have hType := hReader hFirst (head?_ne_bracket_of_dropSpacing (by decide) hComma)
            obtain ⟨gap', hGap', hAfter⟩ := exists_spacing after
            obtain ⟨between, hBetween, hSplit⟩ := exists_spacing others
            rw [hAfter, hComma] at hType
            have hRest := ih hBetween hNext hOthers hClose
            rw [← hSplit] at hRest
            exact .more hGap hType hGap' hRest
          · cases hMore
        · cases hMore
          exact hLast hGap hFirst hClose
        · cases hMore
      · cases hMore
        exact hLast hGap hFirst hClose

theorem readsArguments_of_readArguments
    (hReader : ∀ {cs t rest}, reader cs = .ok (t, rest) → rest.head? ≠ some '[' →
      Reads cs t rest) (h : readArguments reader cs = .ok (ts, rest)) :
    ∃ inside, cs = '[' :: inside ∧ ReadsArguments inside ts rest := by
  unfold readArguments at h
  split at h
  · rename_i inside
    split at h
    · cases h
    · rename_i t after hFirst
      split at h
      · cases h
      · rename_i us after' hMore
        split at h
        · rename_i end' hClose
          cases h
          obtain ⟨gap, hGap, hSplit⟩ := exists_spacing inside
          have hArgs := readsArguments_of_readMore hReader hGap hFirst hMore hClose
          rw [← hSplit] at hArgs
          exact ⟨inside, rfl, hArgs⟩
        · cases h
  · cases h

/-- What the reader makes of a text is of the grammar, unless it gave up at a bracket. -/
theorem reads_of_readWith {fuel : Nat} :
    ∀ {cs : List Char} {t : Ty} {rest : List Char}, readWith fuel cs = .ok (t, rest) →
      rest.head? ≠ some '[' → Reads cs t rest := by
  induction fuel with
  | zero =>
      intro cs t rest h
      cases h
  | succ fuel ih =>
      intro cs t rest h hBracket
      rw [readWith] at h
      have hName : ∀ c ∈ cs.takeWhile isNameChar, isNameChar c = true :=
        fun c hc => List.all_eq_true.mp List.all_takeWhile c hc
      have hSplit : cs = cs.takeWhile isNameChar ++ cs.dropWhile isNameChar :=
        List.takeWhile_append_dropWhile.symm
      split at h
      · cases h
      · rename_i hNe
        replace hNe : cs.takeWhile isNameChar ≠ [] := fun hNil => hNe (by rw [hNil]; rfl)
        split at h
        · rename_i args after hArgs
          simp only at h
          split at h
          · rename_i u hParts
            cases h
            obtain ⟨inside, hInside, hReads⟩ := readsArguments_of_readArguments ih hArgs
            rw [hSplit, hInside]
            exact .bracketed hNe hName hReads hParts
          · cases h
        · simp only at h
          split at h
          · rename_i u hParts
            cases h
            have hReads := Reads.name hNe hName ⟨stopsAt_dropWhile isNameChar cs, hBracket⟩ hParts
            rw [← hSplit] at hReads
            exact hReads
          · cases h
        · cases h

/-- **The reader reads the grammar**: in front of anything but a bracket it makes of a
text what the grammar makes of it. -/
theorem read_iff (h : rest.head? ≠ some '[') : read cs = .ok (t, rest) ↔ Reads cs t rest :=
  ⟨fun hRead => reads_of_readWith hRead h,
    fun hReads => readWith_of_reads hReads (Nat.lt_succ_self _)⟩

theorem read_of_reads (h : Reads cs t rest) : read cs = .ok (t, rest) :=
  readWith_of_reads h (Nat.lt_succ_self _)

end Ty

end ClauseLisp
