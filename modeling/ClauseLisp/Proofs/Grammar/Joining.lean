import ClauseLisp.Proofs.Grammar.Forms

/-!
# Reading one text after another

What the reader makes of the front of a text does not depend on what follows it,
as long as that could follow a form: greedy runs of characters stop, atoms end, and
brackets, strings and comments have been closed before.  A comment at the end of a
text is the one thing that goes on, and the end of a line ends it.  So texts that
are put on lines of their own are read one by one.

## Main results

* `Form.Reads.append` — what follows a form does not matter.
* `Form.reading_is_compositional` — a text on the lines after a program is read as
  if it stood alone.
-/

namespace ClauseLisp

namespace Form

/-! ## What follows does not matter -/

variable {levels : Nat} {cs rest more : List Char} {f : Form}

theorem atBoundary_append (hRest : atBoundary rest = true) (hMore : Follows more) :
    atBoundary (rest ++ more) = true := by
  cases rest with
  | nil => exact hMore.atBoundary
  | cons c rest => exact hRest

/-- Each atom has ended before what follows it. -/
theorem Atom.append (hMore : Follows more) (h : Atom cs f rest) :
    Atom (cs ++ more) f (rest ++ more) := by
  cases h with
  | hexadecimal hx hNe hDigits hStop hRange hEnd =>
      rw [List.cons_append, List.cons_append, List.append_assoc]
      exact .hexadecimal hx hNe hDigits
        (hStop.append (hMore.stopsAt (by decide) (by decide) (by decide))) hRange
        (atBoundary_append hEnd hMore)
  | natural hNe hDigits hStop hRange hEnd =>
      rw [List.append_assoc]
      exact .natural hNe hDigits
        (hStop.append (hMore.stopsAt (by decide) (by decide) (by decide))) hRange
        (atBoundary_append hEnd hMore)
  | negative hNe hDigits hStop hRange hEnd =>
      rw [List.cons_append, List.append_assoc]
      exact .negative hNe hDigits
        (hStop.append (hMore.stopsAt (by decide) (by decide) (by decide))) hRange
        (atBoundary_append hEnd hMore)
  | truth hEnd => exact .truth (atBoundary_append hEnd hMore)
  | str h =>
      rw [List.cons_append, List.append_assoc, List.cons_append]
      exact .str h
  | mark h hEnd => exact .mark (h.append hMore.ended) (atBoundary_append hEnd hMore)
  | bracketed hName h hEnd =>
      have hType := h.append hMore.ended
      rw [List.append_assoc, List.cons_append] at hType ⊢
      exact .bracketed hName hType (atBoundary_append hEnd hMore)
  | typed hName h hEnd =>
      rw [List.append_assoc, List.cons_append]
      exact .typed hName (h.append hMore.ended) (atBoundary_append hEnd hMore)
  | plain hName hStop hEnd =>
      rw [List.append_assoc]
      exact .plain hName (hStop.append (hMore.stopsAt (by decide) (by decide) (by decide)))
        (atBoundary_append hEnd hMore)

mutual

/-- **What follows a form does not matter**, as long as it may follow one. -/
theorem Reads.append (hMore : Follows more) :
    ∀ {levels : Nat} {cs : List Char} {f : Form} {rest : List Char}, Reads levels cs f rest →
      Reads levels (cs ++ more) f (rest ++ more)
  | _, _, _, _, .quote hGap h => by
    rw [List.append_assoc, List.cons_append]
    exact .quote hGap (h.append hMore)
  | _, _, _, _, .list hGap h => by
    rw [List.append_assoc, List.cons_append]
    exact .list hGap (h.append hMore)
  | _, _, _, _, .atom hGap h => by
    rw [List.append_assoc]
    exact .atom hGap (h.append hMore)

theorem ReadsItems.append (hMore : Follows more) :
    ∀ {levels : Nat} {cs : List Char} {items : List Form} {rest : List Char},
      ReadsItems levels cs items rest → ReadsItems levels (cs ++ more) items (rest ++ more)
  | _, _, _, _, .close hGap => by
    rw [List.append_assoc, List.cons_append]
    exact .close hGap
  | _, _, _, _, .item h hItems => .item (h.append hMore) (hItems.append hMore)

end

/-- A text is one form and one remainder at most. -/
theorem Reads.unique {g : Form} {rest' : List Char} (h : Reads levels cs f rest)
    (h' : Reads levels cs g rest') : f = g ∧ rest = rest' := by
  have hBoth := (read_of_reads h).symm.trans (read_of_reads h')
  cases hBoth
  exact ⟨rfl, rfl⟩

/-! ## The end of a line -/

theorem Trivia.append {gap gap' : List Char} (h : Trivia gap) (h' : Trivia gap') :
    Trivia (gap ++ gap') := by
  induction h with
  | nil => exact h'
  | spacing hc _ ih => exact .spacing hc ih
  | comment hLine _ ih =>
      rw [List.cons_append, List.append_assoc, List.cons_append]
      exact .comment hLine ih

/-- The end of a line ends what a text ends in. -/
theorem Remainder.trivia_line (h : Remainder cs) : Trivia (cs ++ ['\n']) := by
  cases h with
  | trivia hGap => exact hGap.append (.spacing rfl .nil)
  | comment hGap hLine =>
      rw [List.append_assoc, List.cons_append]
      exact hGap.append (.comment hLine .nil)

/-- Spacing and comments in front of a program do not matter. -/
theorem readsAll_append_iff {gap : List Char} {forms : List Form} (hGap : Trivia gap) :
    ReadsAll (gap ++ cs) forms ↔ ReadsAll cs forms := by
  constructor
  · intro h
    cases h with
    | done h =>
        rw [remainder_iff, skipTrivia_append hGap] at h
        exact .done (remainder_iff.mpr h)
    | form h hForms =>
        rw [← read_iff, read_append hGap] at h
        exact .form (reads_of_read h) hForms
  · intro h
    cases h with
    | done h =>
        rw [remainder_iff, ← skipTrivia_append hGap] at h
        exact .done (remainder_iff.mpr h)
    | form h hForms =>
        rw [← read_iff, ← read_append hGap] at h
        exact .form (reads_of_read h) hForms

/-- **A program on the lines after another one** has the forms of both, and nothing else
has. -/
theorem readsAll_line_iff {forms : List Form} (h : ReadsAll cs forms) :
    ∀ {all : List Form}, ReadsAll (cs ++ '\n' :: more) all ↔
      ∃ others, ReadsAll more others ∧ all = forms ++ others := by
  have hLine : Follows ('\n' :: more) := .inr (.inr rfl)
  induction h with
  | @done cs h =>
      intro all
      have hText : cs ++ '\n' :: more = (cs ++ ['\n']) ++ more := by
        rw [List.append_assoc]
        rfl
      rw [hText, readsAll_append_iff h.trivia_line]
      constructor
      · exact fun hAll => ⟨all, hAll, rfl⟩
      · rintro ⟨others, hOthers, rfl⟩
        exact hOthers
  | @form cs rest f forms h _ ih =>
      intro all
      have hFirst := h.append hLine
      constructor
      · intro hAll
        cases hAll with
        | done hEnd =>
            have hRead := read_of_reads hFirst
            rw [← read_skipTrivia, remainder_iff.mp hEnd] at hRead
            exact absurd hRead (read_nil_ne_ok maxNesting)
        | form h' hForms =>
            obtain ⟨rfl, rfl⟩ := hFirst.unique h'
            obtain ⟨others, hOthers, rfl⟩ := ih.mp hForms
            exact ⟨others, hOthers, rfl⟩
      · rintro ⟨others, hOthers, rfl⟩
        exact .form hFirst (ih.mpr ⟨others, hOthers, rfl⟩)

/-! ## Texts of several lines -/

/-- **Reading is compositional.**  If a text is a program, then a second text on the lines
after it adds its own forms, and if it cannot be read, neither can the two together: the
error is one of parsing. -/
theorem reading_is_compositional {first : String} {forms : List Form}
    (h : parseAll first = .ok forms) (second : String) :
    (∀ others, parseAll second = .ok others →
      parseAll (first ++ "\n" ++ second) = .ok (forms ++ others)) ∧
    (∀ error, parseAll second = .error error →
      ∃ cause, parseAll (first ++ "\n" ++ second) = .error (.parse cause)) := by
  have hText : (first ++ "\n" ++ second).toList = first.toList ++ '\n' :: second.toList := by
    simp
  have hBoth : ∀ {all : List Form}, parseAll (first ++ "\n" ++ second) = .ok all ↔
      ∃ others, parseAll second = .ok others ∧ all = forms ++ others := by
    intro all
    rw [parseAll_iff, hText, readsAll_line_iff (parseAll_iff.mp h)]
    simp only [parseAll_iff]
  constructor
  · intro others hOthers
    exact hBoth.mpr ⟨others, hOthers, rfl⟩
  · intro error hError
    rcases parseAll_cases (first ++ "\n" ++ second) with ⟨all, hAll⟩ | hCause
    · obtain ⟨others, hOthers, -⟩ := hBoth.mp hAll
      rw [hError] at hOthers
      cases hOthers
    · exact hCause

/-- A program that ends in a comment with a quote and parentheses in it, in front of a
second one and in front of a text that is none. -/
theorem reading_is_compositional_of_comment :
    let first := "(f \"(;\\\"\" n:list[ int ]) ; \"(("
    let forms : List Form :=
      [.list [.sym "f" none, .str "(;\"", .sym "n" (some (.list Ty.int))]]
    parseAll first = .ok forms ∧
      parseAll (first ++ "\n" ++ "'x #x1F") = .ok (forms ++ [.quote (.sym "x" none), .int 31]) ∧
      ∃ cause, parseAll (first ++ "\n" ++ ")") = .error (.parse cause) := by
  intro first forms
  have hFirst : parseAll "(f \"(;\\\"\" n:list[ int ]) ; \"((" = .ok forms := by rfl
  exact ⟨hFirst, (reading_is_compositional hFirst "'x #x1F").1 _ rfl,
    (reading_is_compositional hFirst ")").2 _ rfl⟩

end Form

end ClauseLisp
