import ClauseLisp.Proofs.RoundTrip.Forms

/-!
# Reading and printing are inverse

Whatever the reader accepts is a readable form that nests less deeply than there
are levels, whichever of the ordered shapes it came from: hexadecimal numbers,
`#t`, `list[int]` in place of `:list[int]`, and `(quote x)` have turned into forms
that are written in another way, but are readable.  So the texts of the forms of
a program can be read again, on lines of their own or one by one.

## Main results

* `Form.within_of_read` — what is read is readable and not too deep.
* `Form.reading_inverts_printing` — programs are read back from the texts of their
  forms, and a readable form from its text unless it nests too deeply.
-/

namespace ClauseLisp

namespace Form

/-! ## What each shape makes -/

/-- A form that the reader may give with so many levels left. -/
def Within (levels : Nat) (f : Form) : Prop := f.Readable ∧ f.depth < levels

/-- Several forms that the reader may give with so many levels left. -/
def AllWithin (levels : Nat) (items : List Form) : Prop :=
  AllReadable items ∧ itemsDepth items ≤ levels

theorem eq_of_atom {form f : Form} {cs rest : List Char} (h : atom form cs = .ok (f, rest)) :
    f = form := by
  unfold atom at h
  split at h
  · cases h
    rfl
  · cases h

theorem within_int {n m : Int} (levels : Nat) (h : Number.checked? n = some m) :
    Within (levels + 1) (.int m) := by
  unfold Number.checked? at h
  split at h
  · rename_i hRange
    cases h
    rw [Within, Readable, depth]
    exact ⟨hRange, Nat.succ_pos levels⟩
  · cases h

theorem within_bool (levels : Nat) (b : Bool) : Within (levels + 1) (.bool b) := by
  rw [Within, Readable, depth]
  exact ⟨trivial, Nat.succ_pos levels⟩

theorem within_mark {ty : Ty} (levels : Nat) (h : ty.Readable) : Within (levels + 1) (.mark ty) := by
  rw [Within, Readable, depth]
  exact ⟨h, Nat.succ_pos levels⟩

/-- A name without a type is a truth value or a symbol. -/
theorem within_ofName_none {name : List Char} (levels : Nat) (h : isName name = true) :
    Within (levels + 1) (ofName (String.ofList name) none) := by
  rw [ofName]
  split
  · exact within_bool levels true
  · rename_i hTrue
    split
    · exact within_bool levels false
    · rename_i hFalse
      rw [Within, Readable, depth, String.toList_ofList]
      exact ⟨⟨h, hTrue, hFalse⟩, Nat.succ_pos levels⟩

theorem within_ofName_some {name : List Char} {ty : Ty} (levels : Nat) (h : isName name = true)
    (hTy : ty.Readable) : Within (levels + 1) (ofName (String.ofList name) (some ty)) := by
  rw [ofName, Within, Readable, depth, String.toList_ofList]
  exact ⟨⟨h, hTy⟩, Nat.succ_pos levels⟩

variable {levels : Nat} {cs rest : List Char} {f : Form}

theorem within_of_readHexadecimal (h : readHexadecimal cs = .ok (f, rest)) :
    Within (levels + 1) f := by
  unfold readHexadecimal at h
  split at h
  · simp only at h
    split at h
    · split at h
      · rename_i n hChecked
        rw [eq_of_atom h]
        exact within_int levels hChecked
      · cases h
    · cases h
  · cases h

theorem within_of_readDecimal (h : readDecimal cs = .ok (f, rest)) : Within (levels + 1) f := by
  unfold readDecimal at h
  split at h
  simp only at h
  split at h
  · cases h
  · split at h
    · rename_i n hChecked
      rw [eq_of_atom h]
      exact within_int levels hChecked
    · cases h

theorem within_of_readBool (h : readBool cs = .ok (f, rest)) : Within (levels + 1) f := by
  unfold readBool at h
  split at h
  · rw [eq_of_atom h]
    exact within_bool levels true
  · rw [eq_of_atom h]
    exact within_bool levels false
  · cases h

theorem within_of_readString (h : readString cs = .ok (f, rest)) : Within (levels + 1) f := by
  unfold readString at h
  split at h
  · split at h
    · cases h
      rw [Within, Readable, depth]
      exact ⟨trivial, Nat.succ_pos levels⟩
    · cases h
  · cases h

theorem within_of_readMark (h : readMark cs = .ok (f, rest)) : Within (levels + 1) f := by
  unfold readMark at h
  split at h
  · split at h
    · rename_i ty after hRead
      rw [eq_of_atom h]
      exact within_mark levels (Ty.readable_of_read hRead)
    · cases h
  · cases h

theorem within_of_readSymbol (h : readSymbol cs = .ok (f, rest)) : Within (levels + 1) f := by
  unfold readSymbol at h
  simp only at h
  split at h
  · rename_i hName
    split at h
    · split at h
      · rename_i ty after hRead
        rw [eq_of_atom h]
        exact within_mark levels (Ty.readable_of_read hRead)
      · cases h
    · split at h
      · rename_i ty after hRead
        rw [eq_of_atom h]
        exact within_ofName_some levels hName (Ty.readable_of_read hRead)
      · rw [eq_of_atom h]
        exact within_ofName_none levels hName
      · cases h
    · rw [eq_of_atom h]
      exact within_ofName_none levels hName
  · cases h

/-! ## Lists and quoted forms -/

variable {reader : List Char → Reading Form}

theorem allWithin_cons {item : Form} {items : List Form} (hItem : Within levels item)
    (hItems : AllWithin levels items) : AllWithin levels (item :: items) := by
  rw [AllWithin, AllReadable, itemsDepth]
  exact ⟨⟨hItem.1, hItems.1⟩, Nat.max_le.mpr ⟨hItem.2, hItems.2⟩⟩

theorem allWithin_of_readItems
    (hRead : ∀ {cs f rest}, reader cs = .ok (f, rest) → Within levels f) {fuel : Nat} :
    ∀ {cs : List Char} {items : List Form} {rest : List Char},
      readItems reader fuel cs = .ok (items, rest) → AllWithin levels items := by
  induction fuel with
  | zero =>
      intro cs items rest h
      cases h
  | succ fuel ih =>
      intro cs items rest h
      rw [readItems] at h
      split at h
      · cases h
        rw [AllWithin, AllReadable, itemsDepth]
        exact ⟨trivial, Nat.zero_le levels⟩
      · split at h
        · cases h
        · rename_i item after hItem
          split at h
          · rename_i others end' hOthers
            cases h
            exact allWithin_cons (hRead hItem) (ih hOthers)
          · cases h

/-- The long spelling of a quoted form does not stay a list. -/
theorem within_ofItems {items : List Form} (h : AllWithin levels items) :
    Within (levels + 1) (ofItems items) := by
  unfold ofItems
  split
  · rename_i inner
    rw [AllWithin, AllReadable, AllReadable, itemsDepth, itemsDepth] at h
    obtain ⟨⟨-, hInner, -⟩, hDepth⟩ := h
    rw [Within, Readable, depth]
    exact ⟨hInner, by omega⟩
  · rename_i hQuote
    rw [Within, Readable, depth]
    exact ⟨⟨h.1, fun inner hEq => hQuote inner hEq⟩, Nat.lt_succ_of_le h.2⟩

/-- A reading that one of several shapes has given. -/
theorem exists_mem_of_firstOf {shapes : List (List Char → Reading Form)}
    (h : firstOf shapes cs = .ok (f, rest)) : ∃ shape ∈ shapes, shape cs = .ok (f, rest) := by
  induction shapes with
  | nil => cases h
  | cons shape shapes ih =>
      by_cases hStuck : ∃ at', shape cs = .error (.stuck at')
      · obtain ⟨at', hStuck⟩ := hStuck
        cases shapes with
        | nil =>
            rw [firstOf, hStuck] at h
            cases h
        | cons next shapes =>
            rw [firstOf_of_stuck hStuck] at h
            obtain ⟨other, hOther, hRead⟩ := ih h
            exact ⟨other, List.mem_cons_of_mem shape hOther, hRead⟩
      · rw [firstOf_of_not_stuck _ fun at' hAt => hStuck ⟨at', hAt⟩] at h
        exact ⟨shape, List.mem_cons_self, h⟩

/-- **What is read is readable**, and nests less deeply than there are levels. -/
theorem within_of_read :
    ∀ {levels : Nat} {cs : List Char} {f : Form} {rest : List Char},
      read levels cs = .ok (f, rest) → Within levels f := by
  intro levels
  induction levels with
  | zero =>
      intro cs f rest h
      cases h
  | succ levels ih =>
      intro cs f rest h
      rw [read] at h
      obtain ⟨shape, hShape, hRead⟩ := exists_mem_of_firstOf h
      simp only [List.mem_cons, List.not_mem_nil, or_false] at hShape
      rcases hShape with rfl | rfl | rfl | rfl | rfl | rfl | rfl | rfl
      · unfold readQuote at hRead
        split at hRead
        · split at hRead
          · rename_i inner after hInner
            cases hRead
            have hWithin := ih hInner
            rw [Within, Readable, depth]
            exact ⟨hWithin.1, Nat.succ_lt_succ hWithin.2⟩
          · cases hRead
        · cases hRead
      · unfold readList at hRead
        split at hRead
        · split at hRead
          · rename_i items after hItems
            cases hRead
            exact within_ofItems (allWithin_of_readItems ih hItems)
          · cases hRead
        · cases hRead
      · exact within_of_readHexadecimal hRead
      · exact within_of_readDecimal hRead
      · exact within_of_readBool hRead
      · exact within_of_readString hRead
      · exact within_of_readMark hRead
      · exact within_of_readSymbol hRead

/-! ## Whole texts -/

/-- All forms of a text that has been read are readable and not too deep. -/
theorem within_of_readAllWith {fuel : Nat} :
    ∀ {cs : List Char} {forms : List Form}, readAllWith fuel cs = .ok forms →
      ∀ f ∈ forms, Within maxNesting f := by
  induction fuel with
  | zero =>
      intro cs forms h
      cases h
  | succ fuel ih =>
      intro cs forms h f hf
      rw [readAllWith] at h
      split at h
      · cases h
        cases hf
      · split at h
        · cases h
        · rename_i first after hFirst
          split at h
          · rename_i others hOthers
            cases h
            rcases List.mem_cons.mp hf with rfl | hf
            · exact within_of_read hFirst
            · exact ih hOthers f hf
          · cases h

/-- The texts of several forms, each after the end of a line. -/
def lineChars : List Form → List Char
  | [] => []
  | f :: fs => '\n' :: (f.chars ++ lineChars fs)

theorem follows_lineChars (fs : List Form) : Follows (lineChars fs) := by
  cases fs with
  | nil => trivial
  | cons f fs => exact .inr (.inr rfl)

theorem length_le_lineChars (fs : List Form) : fs.length ≤ (lineChars fs).length := by
  induction fs with
  | nil => exact Nat.le_refl 0
  | cons f fs ih =>
      rw [lineChars, List.length_cons, List.length_cons, List.length_append]
      omega

/-- A readable form at the front of a text is read first. -/
theorem readAllWith_chars {f : Form} (h : f.Readable) (fuel : Nat) {rest : List Char}
    (hRest : Follows rest) :
    readAllWith (fuel + 1) (f.chars ++ rest) =
      if f.depth < maxNesting then
        match readAllWith fuel rest with
        | .ok forms => .ok (f :: forms)
        | .error fault => .error fault
      else .error .tooDeep := by
  obtain ⟨c, cs, hChars, -⟩ := exists_chars_eq_cons h
  rw [readAllWith, skipTrivia_chars h]
  split
  · rename_i hNil
    rw [hChars] at hNil
    cases hNil
  · rw [read_chars f h hRest]
    by_cases hDepth : f.depth < maxNesting
    · cases hTail : readAllWith fuel rest with
      | ok forms => simp only [if_pos hDepth, hTail]
      | error fault => simp only [if_pos hDepth, hTail]
    · simp only [if_neg hDepth]

theorem readAllWith_lineChars {fs : List Form} (h : ∀ f ∈ fs, Within maxNesting f) :
    ∀ {fuel : Nat}, fs.length < fuel → readAllWith fuel (lineChars fs) = .ok fs := by
  induction fs with
  | nil =>
      intro fuel hFuel
      obtain ⟨n, rfl⟩ : ∃ n, fuel = n + 1 := ⟨fuel - 1, by omega⟩
      rfl
  | cons f fs ih =>
      intro fuel hFuel
      rw [List.length_cons] at hFuel
      obtain ⟨n, rfl⟩ : ∃ n, fuel = n + 1 := ⟨fuel - 1, by omega⟩
      have hFirst := h f List.mem_cons_self
      have hOthers := ih (fun g hg => h g (List.mem_cons_of_mem f hg)) (show fs.length < n by omega)
      have hLine : readAllWith (n + 1) (lineChars (f :: fs)) =
          readAllWith (n + 1) (f.chars ++ lineChars fs) := by
        rw [lineChars, readAllWith, readAllWith]
        rfl
      rw [hLine, readAllWith_chars hFirst.1 n (follows_lineChars fs), if_pos hFirst.2, hOthers]

/-- Texts on lines of their own, without an end of line in front of the first. -/
theorem toList_intercalate_text (f : Form) (fs : List Form) :
    ("\n".intercalate ((f :: fs).map text)).toList = f.chars ++ lineChars fs := by
  induction fs generalizing f with
  | nil => simp [text, lineChars]
  | cons g gs ih =>
      rw [List.map_cons, List.map_cons, String.intercalate_cons_cons, ← List.map_cons,
        String.toList_append, ih g, lineChars]
      simp [text]

/-- The text of forms on lines of their own is read as those forms. -/
theorem parseAll_intercalate {fs : List Form} (h : ∀ f ∈ fs, Within maxNesting f) :
    parseAll ("\n".intercalate (fs.map text)) = .ok fs := by
  cases fs with
  | nil => rfl
  | cons f fs =>
      have hFirst := h f List.mem_cons_self
      have hOthers := readAllWith_lineChars (fun g hg => h g (List.mem_cons_of_mem f hg))
        (show fs.length < (f.chars ++ lineChars fs).length by
          obtain ⟨c, cs, hChars, -⟩ := exists_chars_eq_cons hFirst.1
          have hLength := length_le_lineChars fs
          rw [hChars, List.cons_append, List.length_cons, List.length_append]
          omega)
      rw [parseAll, toList_intercalate_text, readAll,
        readAllWith_chars hFirst.1 _ (follows_lineChars fs), if_pos hFirst.2, hOthers]

/-- The text of one readable form is read as it, or refused as too deep. -/
theorem parse_text {f : Form} (h : f.Readable) :
    parse f.text =
      if f.depth < maxNesting then .ok f else .error (.parse (.tooDeep maxNesting)) := by
  obtain ⟨c, cs, hChars, -⟩ := exists_chars_eq_cons h
  have hAll := readAllWith_chars h f.chars.length (show Follows [] from trivial)
  have hEnd : readAllWith f.chars.length [] = .ok [] := by
    rw [hChars]
    rfl
  rw [List.append_nil, hEnd] at hAll
  rw [parse, parseAll, text, String.toList_ofList, readAll, hAll]
  by_cases hDepth : f.depth < maxNesting
  · simp only [if_pos hDepth]
  · simp only [if_neg hDepth, fault]

/-- **Reading and printing are inverse.**  If a text is a program, the texts of its
forms on lines of their own are the same program, and the text of each form alone
is that form.  The text of any readable form is read as that form if it nests less
deeply than there are levels, and is refused as nested too deeply otherwise. -/
theorem reading_inverts_printing :
    (∀ (source : String) (forms : List Form), parseAll source = .ok forms →
      parseAll ("\n".intercalate (forms.map text)) = .ok forms ∧
        ∀ f ∈ forms, parse f.text = .ok f) ∧
    (∀ f : Form, f.Readable →
      (f.depth ≤ maxNesting - 1 → parse f.text = .ok f) ∧
      (maxNesting - 1 < f.depth → parse f.text = .error (.parse (.tooDeep maxNesting)))) ∧
    (ParseCause.tooDeep maxNesting).message =
      "Expression too deeply nested (max depth: 256)" := by
  have hLevels : maxNesting - 1 < maxNesting := by decide
  refine ⟨?_, ?_, ?_⟩
  · intro source forms h
    have hWithin : ∀ f ∈ forms, Within maxNesting f := by
      rw [parseAll] at h
      split at h
      · rename_i read hRead
        cases h
        exact within_of_readAllWith hRead
      · cases h
    refine ⟨parseAll_intercalate hWithin, fun f hf => ?_⟩
    rw [parse_text (hWithin f hf).1, if_pos (hWithin f hf).2]
  · intro f hf
    rw [parse_text hf]
    constructor
    · intro hDepth
      rw [if_pos (by omega)]
    · intro hDepth
      rw [if_neg (by omega)]
  · decide

/-- The empty list behind so many apostrophes. -/
def quotedNil : Nat → Form
  | 0 => .list []
  | n + 1 => .quote (quotedNil n)

theorem readable_quotedNil (n : Nat) : (quotedNil n).Readable := by
  induction n with
  | zero =>
      rw [quotedNil, Readable]
      exact ⟨trivial, nofun⟩
  | succ n ih =>
      rw [quotedNil, Readable]
      exact ih

theorem depth_quotedNil (n : Nat) : (quotedNil n).depth = n := by
  induction n with
  | zero => rw [quotedNil, depth, itemsDepth]
  | succ n ih => rw [quotedNil, depth, ih]

/-- A program in which nothing is written as it would be printed, and the two
sides of the limit on nesting. -/
theorem reading_inverts_printing_of_sample :
    let forms : List Form := [.quote (.sym "x" none), .int 31,
      .list [.sym "f'" none, .sym "n" (some (.arrow [Ty.int] Ty.listAny)), .mark (.list Ty.int),
        .str "a\n", .bool true]]
    parseAll "(quote x) #x1F ; note\n(f' n:func[ int , list[any] ] list[int] \"a\\n\" #t)" =
        .ok forms ∧
      parseAll ("\n".intercalate (forms.map text)) = .ok forms ∧
      parse (quotedNil 255).text = .ok (quotedNil 255) ∧
      parse (quotedNil 256).text = .error (.parse (.tooDeep 256)) := by
  intro forms
  have hRead : parseAll
      "(quote x) #x1F ; note\n(f' n:func[ int , list[any] ] list[int] \"a\\n\" #t)" =
        .ok forms := by rfl
  refine ⟨hRead, (reading_inverts_printing.1 _ forms hRead).1, ?_, ?_⟩
  · refine (reading_inverts_printing.2.1 _ (readable_quotedNil 255)).1 ?_
    rw [depth_quotedNil]
    decide
  · refine (reading_inverts_printing.2.1 _ (readable_quotedNil 256)).2 ?_
    rw [depth_quotedNil]
    decide

end Form

end ClauseLisp
