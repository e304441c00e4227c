import ClauseLisp.Console.Repl
import ClauseLisp.Proofs.Grammar.Forms

/-!
# Balance of complete entries

An interactive session keeps an entry back while a parenthesis or a string is open,
which it finds out character by character, without the reader.  The two agree on
every text that the reader accepts: spacing, comments and atoms leave the balance as
it was, a literal closes the string it opens whatever its escapes are, and a list
closes the parenthesis it opens.  So no complete entry is ever kept back.

## Main results

* `Form.Reads.passes` — a form leaves the balance as it found it.
* `Repl.complete_entries_are_not_kept_back` — an entry that can be read is never
  kept back for another line.
-/

namespace ClauseLisp

namespace Balance

/-! ## Steps -/

/-- Characters that change nothing outside of strings and comments. -/
def Plain (c : Char) : Prop := c ≠ '"' ∧ c ≠ ';' ∧ c ≠ '(' ∧ c ≠ ')'

instance (c : Char) : Decidable (Plain c) := inferInstanceAs (Decidable (_ ∧ _))

@[simp] theorem next_plain {c : Char} (h : Plain c) (d : Int) :
    next { depth := d } c = { depth := d } := by
  obtain ⟨hQuote, hComment, hOpen, hClose⟩ := h
  simp [next, hQuote, hComment, hOpen, hClose]

@[simp] theorem next_open (d : Int) : next { depth := d } '(' = { depth := d + 1 } := rfl

@[simp] theorem next_close (d : Int) : next { depth := d } ')' = { depth := d - 1 } := rfl

@[simp] theorem next_quote (d : Int) :
    next { depth := d } '"' = { depth := d, inString := true } := rfl

@[simp] theorem next_comment (d : Int) :
    next { depth := d } ';' = { depth := d, inComment := true } := rfl

/-! ## Texts that leave the balance as it was -/

/-- The part of a text in front of its remainder leaves the balance as it was. -/
def Passes (cs rest : List Char) : Prop :=
  ∀ d : Int, cs.foldl next { depth := d } = rest.foldl next { depth := d }

theorem Passes.trans {cs between rest : List Char} (h : Passes cs between)
    (h' : Passes between rest) : Passes cs rest := fun d => (h d).trans (h' d)

theorem passes_cons {c : Char} (h : Plain c) (rest : List Char) : Passes (c :: rest) rest := by
  intro d
  rw [List.foldl_cons, next_plain h]

/-- A class of characters without quotes, semicolons and parentheses. -/
def PlainClass (p : Char → Bool) : Prop :=
  p '"' = false ∧ p ';' = false ∧ p '(' = false ∧ p ')' = false

instance (p : Char → Bool) : Decidable (PlainClass p) := inferInstanceAs (Decidable (_ ∧ _))

theorem PlainClass.plain {p : Char → Bool} (hp : PlainClass p) {c : Char} (hc : p c = true) :
    Plain c := by
  have hNe : ∀ {d : Char}, p d = false → c ≠ d := by
    rintro d hd rfl
    rw [hc] at hd
    cases hd
  exact ⟨hNe hp.1, hNe hp.2.1, hNe hp.2.2.1, hNe hp.2.2.2⟩

/-- A run of characters of such a class. -/
theorem passes_run {p : Char → Bool} (hp : PlainClass p) {cs : List Char}
    (h : ∀ c ∈ cs, p c = true) (rest : List Char) : Passes (cs ++ rest) rest := by
  induction cs with
  | nil => exact fun d => rfl
  | cons c cs ih =>
      exact (passes_cons (hp.plain (h c List.mem_cons_self)) (cs ++ rest)).trans
        (ih fun e he => h e (List.mem_cons_of_mem c he))

/-- A comment ends with its line. -/
theorem foldl_comment {line : List Char} (h : '\n' ∉ line) (d : Int) :
    line.foldl next { depth := d, inComment := true } = { depth := d, inComment := true } := by
  induction line with
  | nil => rfl
  | cons c line ih =>
      have hc : (c != '\n') = true := bne_iff_ne.mpr fun hEq => h (hEq ▸ List.mem_cons_self)
      rw [List.foldl_cons, next, if_pos rfl, hc]
      exact ih fun hMem => h (List.mem_cons_of_mem c hMem)

/-- Inside a string only its closing quote counts. -/
theorem foldl_literal {inside s : List Char} (h : Text.Literal inside s) (d : Int) :
    inside.foldl next { depth := d, inString := true } = { depth := d, inString := true } := by
  induction h with
  | nil => rfl
  | plain hQuote hEscape _ ih =>
      rw [List.foldl_cons, next]
      simp only [hQuote, hEscape]
      exact ih
  | escaped _ _ ih =>
      rw [List.foldl_cons, List.foldl_cons]
      exact ih

theorem passes_literal {inside s : List Char} (h : Text.Literal inside s) (rest : List Char) :
    Passes ('"' :: (inside ++ '"' :: rest)) rest := by
  intro d
  rw [List.foldl_cons, List.foldl_append, next_quote, foldl_literal h]
  rfl

end Balance

open Balance

/-! ## Types -/

namespace Ty

theorem passes_spacing {gap : List Char} (h : Spacing gap) (rest : List Char) :
    Passes (gap ++ rest) rest := passes_run (by decide) h rest

mutual

theorem Reads.passes : ∀ {cs : List Char} {t : Ty} {rest : List Char}, Reads cs t rest →
    Passes cs rest
  | _, _, rest, .name _ hName _ _ => passes_run (by decide) hName rest
  | _, _, _, @Reads.bracketed _ inside _ _ _ _ hName hArgs _ =>
    (passes_run (by decide) hName ('[' :: inside)).trans
      ((passes_cons (by decide) inside).trans hArgs.passes)

theorem ReadsArguments.passes : ∀ {cs : List Char} {ts : List Ty} {rest : List Char},
    ReadsArguments cs ts rest → Passes cs rest
  | _, _, rest, .last hGap hType hGap' =>
    (passes_spacing hGap _).trans (hType.passes.trans
      ((passes_spacing hGap' _).trans (passes_cons (by decide) rest)))
  | _, _, _, .more hGap hType hGap' hOthers =>
    (passes_spacing hGap _).trans (hType.passes.trans
      ((passes_spacing hGap' _).trans ((passes_cons (by decide) _).trans hOthers.passes)))

end

end Ty

/-! ## Forms -/

namespace Form

theorem passes_trivia {gap : List Char} (h : Trivia gap) (rest : List Char) :
    Passes (gap ++ rest) rest := by
  induction h with
  | nil => exact fun d => rfl
  | spacing hc _ ih =>
      have hClass : PlainClass Text.isSpacing := by decide
      exact (passes_cons (hClass.plain hc) _).trans ih
  | @comment line gap hLine _ ih =>
      intro d
      rw [List.cons_append, List.append_assoc, List.cons_append, List.foldl_cons, next_comment,
        List.foldl_append, foldl_comment hLine]
      exact ih d

theorem Atom.passes {cs rest : List Char} {f : Form} (h : Atom cs f rest) : Passes cs rest := by
  cases h with
  | @hexadecimal x digits _ _ hx _ hDigits =>
      have hSign : Plain x := by rcases hx with rfl | rfl <;> decide
      exact (passes_cons (by decide) _).trans ((passes_cons hSign _).trans
        (passes_run (by decide) hDigits rest))
  | natural _ hDigits => exact passes_run (by decide) hDigits rest
  | negative _ hDigits =>
      exact (passes_cons (by decide) _).trans
        (passes_run (by decide) hDigits rest)
  | @truth b =>
      have hLetter : Plain (if b then 't' else 'f') := by cases b <;> decide
      exact (passes_cons (by decide) _).trans (passes_cons hLetter rest)
  | str h => exact passes_literal h rest
  | mark h => exact (passes_cons (by decide) _).trans h.passes
  | bracketed _ h => exact h.passes
  | typed hName h =>
      exact (passes_run (by decide) (isNameChar_of_isName hName) _).trans
        ((passes_cons (by decide) _).trans h.passes)
  | plain hName =>
      exact passes_run (by decide) (isNameChar_of_isName hName) rest

mutual

/-- **A form leaves the balance as it found it.** -/
theorem Reads.passes : ∀ {levels : Nat} {cs : List Char} {f : Form} {rest : List Char},
    Reads levels cs f rest → Passes cs rest
  | _, _, _, _, .quote hGap h =>
    (passes_trivia hGap _).trans ((passes_cons (by decide) _).trans h.passes)
  | _, _, _, rest, @Reads.list _ gap cs _ _ hGap h => by
    intro d
    rw [passes_trivia hGap, List.foldl_cons, next_open, h.closes, Int.add_sub_cancel]
  | _, _, _, _, .atom hGap h => (passes_trivia hGap _).trans h.passes

/-- The items of a list close the parenthesis in front of them. -/
theorem ReadsItems.closes :
    ∀ {levels : Nat} {cs : List Char} {items : List Form} {rest : List Char},
      ReadsItems levels cs items rest → ∀ d : Int,
        cs.foldl next { depth := d } = rest.foldl next { depth := d - 1 }
  | _, _, _, _, .close hGap, d => by
    rw [passes_trivia hGap, List.foldl_cons, next_close]
  | _, _, _, _, .item h hItems, d => by
    rw [h.passes, hItems.closes]

end

/-- At the end of a program everything has been closed, up to a comment that goes on. -/
theorem ReadsAll.balance {cs : List Char} {forms : List Form} (h : ReadsAll cs forms) (d : Int) :
    ∃ comment, cs.foldl next { depth := d } = { depth := d, inComment := comment } := by
  induction h with
  | done h =>
      cases h with
      | @trivia gap h =>
          have hEnd := passes_trivia h [] d
          rw [List.append_nil] at hEnd
          exact ⟨false, hEnd⟩
      | comment h hLine =>
          refine ⟨true, ?_⟩
          rw [passes_trivia h, List.foldl_cons, next_comment, foldl_comment hLine]
  | form h _ ih =>
      rw [h.passes]
      exact ih

theorem goesOn_of_parseAll {source : String} {forms : List Form}
    (h : parseAll source = .ok forms) : goesOn source.toList = false := by
  obtain ⟨comment, hBalance⟩ := (parseAll_iff.mp h).balance 0
  rw [goesOn, show ({} : Balance) = { depth := 0 } from rfl, hBalance]
  rfl

end Form

/-! ## Entries -/

namespace Repl

/-- An entry that has been worked on is not pending any more. -/
theorem pending_of_enter {fuel : Nat} {state : State} {entry text : String} {repl : Repl}
    (h : enter fuel state entry = .say text repl) : repl.pending = "" := by
  unfold enter at h
  split at h
  · cases h
    rfl
  · cases h
    rfl
  · cases h

/-- A complete entry is worked on, whatever is pending. -/
theorem feed_of_complete {fuel : Nat} {repl : Repl} {line : String}
    (hPending : repl.pending ≠ "")
    (hComplete : Balance.goesOn (repl.pending ++ line ++ "\n").toList = false) :
    feed fuel repl line = enter fuel repl.state (repl.pending ++ line ++ "\n") := by
  have hNotEmpty : repl.pending.isEmpty = false := by
    rw [Bool.eq_false_iff, Ne, String.isEmpty_iff]
    exact hPending
  rw [feed]
  simp only [hNotEmpty, hComplete, Bool.false_eq_true, if_false]

/-- Nothing is pending after a line that completes an entry. -/
theorem pending_of_feed {fuel : Nat} {repl after : Repl} {line text : String}
    (hComplete : Balance.goesOn (repl.pending ++ line ++ "\n").toList = false)
    (h : feed fuel repl line = .say text after) : after.pending = "" := by
  by_cases hPending : repl.pending = ""
  · have hProceed : enter fuel repl.state (repl.pending ++ line ++ "\n") = .say text after →
        after.pending = "" := pending_of_enter
    have hEmpty : repl.pending.isEmpty = true := String.isEmpty_iff.mpr hPending
    rw [feed] at h
    simp only [hEmpty, hComplete, Bool.false_eq_true, if_false, if_true] at h
    split at h
    · cases h
      exact hPending
    · cases h
      exact hPending
    · cases h
      exact hPending
    · cases h
      exact hPending
    · cases h
    · cases h
    · exact hProceed h
  · rw [feed_of_complete hPending hComplete] at h
    exact pending_of_enter h

/-- **No complete entry is kept back.**  Nothing is open at the end of a text that the reader
accepts; so every text that would be continued is one that it refuses.  When a line
completes an entry, the entry is worked on at once, and afterwards nothing is pending. -/
theorem complete_entries_are_not_kept_back :
    (∀ (source : String) (forms : List Form), Form.parseAll source = .ok forms →
      Balance.goesOn source.toList = false) ∧
    (∀ source : String, Balance.goesOn source.toList = true →
      ∃ cause, Form.parseAll source = .error (.parse cause)) ∧
    (∀ (fuel : Nat) (repl : Repl) (line : String) (forms : List Form),
      Form.parseAll (repl.pending ++ line ++ "\n") = .ok forms →
        (repl.pending ≠ "" →
          feed fuel repl line = enter fuel repl.state (repl.pending ++ line ++ "\n")) ∧
        ∀ text after, feed fuel repl line = .say text after → after.pending = "") := by
  refine ⟨fun source forms h => Form.goesOn_of_parseAll h, ?_, ?_⟩
  · intro source hOpen
    rcases Form.parseAll_cases source with ⟨forms, hForms⟩ | hCause
    · rw [Form.goesOn_of_parseAll hForms] at hOpen
      cases hOpen
    · exact hCause
  · intro fuel repl line forms h
    have hComplete := Form.goesOn_of_parseAll h
    exact ⟨fun hPending => feed_of_complete hPending hComplete,
      fun text after hFeed => pending_of_feed hComplete hFeed⟩

/-- A text in which quotes, parentheses and semicolons stand inside one another, one that
is kept back, and an entry that its second line completes. -/
theorem complete_entries_are_not_kept_back_of_sample :
    let repl : Repl := { pending := "(+ 1 ; (\"\n" }
    Balance.goesOn "(f' \"(;\\\"\" '(a ; \"((\n)) ; (\"".toList = false ∧
      Balance.goesOn repl.pending.toList = true ∧
      (∃ cause, Form.parseAll repl.pending = .error (.parse cause)) ∧
      feed 100 repl "2)" = enter 100 repl.state "(+ 1 ; (\"\n2)\n" := by
  intro repl
  have hOpen : Balance.goesOn "(+ 1 ; (\"\n".toList = true := by decide
  refine ⟨complete_entries_are_not_kept_back.1 _
      [.list [.sym "f'" none, .str "(;\"", .quote (.list [.sym "a" none])]] rfl, hOpen,
    complete_entries_are_not_kept_back.2.1 _ hOpen, ?_⟩
  have hEntry : Form.parseAll ("(+ 1 ; (\"\n" ++ "2)" ++ "\n") =
      .ok [.list [.sym "+" none, .int 1, .int 2]] := rfl
  exact (complete_entries_are_not_kept_back.2.2 100 repl "2)" _ hEntry).1 (by decide)

end Repl

end ClauseLisp
