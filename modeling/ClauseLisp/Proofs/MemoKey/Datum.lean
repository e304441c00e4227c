import ClauseLisp.Proofs.Text.Literals
import ClauseLisp.Proofs.Text.Names
import ClauseLisp.Value.Printer

/-!
# Data and their keys

A datum is what a value amounts to once every lazy list in it has been worked
out: numbers, truth values, text, functions, lists of data, and data under a
tag.  Nothing of how a list is represented is left.

The key of a datum mixes all these kinds in one flat text without lengths.  It
can be taken apart again all the same: its first characters show the kind, and
each kind has an end of its own.

## Main results

* `Datum.kindOf_key` — the first characters of a key show the kind.
* `Datum.key_append_inj` — a key and a space can be split off what follows.
* `Datum.keys_injective` — different tuples of data have different keys.
-/

namespace ClauseLisp

/-- What a value amounts to when all its lists are worked out. -/
inductive Datum where
  | int (n : Int)
  | bool (b : Bool)
  | str (s : String)
  | func (name : String)
  | lambda (closure : Nat)
  | list (items : List Datum)
  | tagged (tag : String) (datum : Datum)

namespace Datum

/-- How the key of a function starts. -/
def functionMark : List Char := ['#', '<', 'f', 'u', 'n', 'c', 't', 'i', 'o', 'n', ' ']

/-- How the key of a lambda starts. -/
def lambdaMark : List Char := ['#', '<', 'l', 'a', 'm', 'b', 'd', 'a', ' ']

mutual

/-- The characters of the key of a datum. -/
def key : Datum → List Char
  | .int n => Number.text n
  | .bool b => '#' :: boolChars b
  | .str s => Text.quoted s.toList
  | .func name => functionMark ++ (name.toList ++ ['>'])
  | .lambda closure => lambdaMark ++ (Nat.toDigits 10 closure ++ ['>'])
  | .list items => '(' :: (keys items ++ [')'])
  | .tagged tag datum => tag.toList ++ ':' :: key datum

/-- The keys of several data, each followed by a space. -/
def keys : List Datum → List Char
  | [] => []
  | datum :: data => key datum ++ ' ' :: keys data

end

mutual

/-- The tags and functions in a datum have names that can be read. -/
def Named : Datum → Prop
  | .func name => isName name.toList = true
  | .list items => AllNamed items
  | .tagged tag datum => isName tag.toList = true ∧ Named datum
  | _ => True

/-- `Named`, for several data. -/
def AllNamed : List Datum → Prop
  | [] => True
  | datum :: data => Named datum ∧ AllNamed data

end

/-! ## The first characters of a key -/

/-- The kinds of data. -/
inductive Kind where
  | int
  | bool
  | str
  | func
  | lambda
  | list
  | tagged
deriving DecidableEq

/-- The kind of a datum. -/
def kind : Datum → Kind
  | .int _ => .int
  | .bool _ => .bool
  | .str _ => .str
  | .func _ => .func
  | .lambda _ => .lambda
  | .list _ => .list
  | .tagged _ _ => .tagged

/-- The kind of datum whose key starts a text; none for the end of a list. -/
def kindOf : List Char → Option Kind
  | [] => none
  | ')' :: _ => none
  | '"' :: _ => some .str
  | '(' :: _ => some .list
  | '#' :: '<' :: 'f' :: _ => some .func
  | '#' :: '<' :: _ => some .lambda
  | '#' :: _ => some .bool
  | '-' :: c :: _ => some (if c.isDigit then .int else .tagged)
  | c :: _ => some (if c.isDigit then .int else .tagged)

theorem kindOf_text (n : Int) (rest : List Char) :
    kindOf (Number.text n ++ rest) = some .int := by
  obtain ⟨d, ds, hd, -, hText | hText⟩ := Number.text_cases n
  · have hNe : ∀ c : Char, c.isDigit = false → d ≠ c := fun c => Number.ne_of_isDigit hd
    rw [hText, List.cons_append]
    unfold kindOf
    split <;> simp_all
  · rw [hText, List.cons_append, List.cons_append]
    simp [kindOf, hd]

theorem kindOf_name {cs : List Char} (h : isName cs = true) (rest : List Char) :
    kindOf (cs ++ ':' :: rest) = some .tagged := by
  cases cs with
  | nil => cases h
  | cons c cs =>
      have hc : isNameChar c = true := isNameChar_of_isName h c List.mem_cons_self
      have hNe : ∀ d : Char, isNameChar d = false → c ≠ d := by
        rintro d hd rfl
        rw [hc] at hd
        cases hd
      have hDigit := isDigit_head_of_isName h
      by_cases hMinus : c = '-'
      · subst hMinus
        cases cs with
        | nil => rfl
        | cons d ds =>
            have hSecond := isDigit_second_of_isName h
            simp [kindOf, hSecond]
      · have hClose := hNe ')' (by decide)
        have hQuote := hNe '"' (by decide)
        have hOpen := hNe '(' (by decide)
        have hHash := hNe '#' (by decide)
        rw [List.cons_append]
        unfold kindOf
        split <;> simp_all

/-- **The first characters of a key show its kind**, whatever follows it. -/
theorem kindOf_key {datum : Datum} (h : datum.Named) (rest : List Char) :
    kindOf (datum.key ++ ' ' :: rest) = some datum.kind := by
  cases datum with
  | int n =>
      rw [key]
      exact kindOf_text n _
  | bool b =>
      rw [key]
      cases b <;> rfl
  | str s =>
      rw [key]
      rfl
  | func name =>
      rw [key]
      rfl
  | lambda closure =>
      rw [key]
      rfl
  | list items =>
      rw [key]
      rfl
  | tagged tag datum =>
      rw [Named] at h
      rw [key, List.append_assoc]
      exact kindOf_name h.1 _

/-! ## Taking keys apart -/

/-- Two texts up to the first separator agree if the whole texts do. -/
private theorem append_cons_inj_of_separator {sep : Char} :
    ∀ {a b : List Char}, sep ∉ a → sep ∉ b → ∀ {r r' : List Char},
      a ++ sep :: r = b ++ sep :: r' → a = b ∧ r = r' := by
  intro a
  induction a with
  | nil =>
      intro b _ hb r r' hEq
      cases b with
      | nil => exact ⟨rfl, (List.cons.inj hEq).2⟩
      | cons c b =>
          have hHead : sep = c := (List.cons.inj hEq).1
          exact absurd (hHead ▸ List.mem_cons_self) hb
  | cons d a ih =>
      intro b ha hb r r' hEq
      cases b with
      | nil =>
          have hHead : d = sep := (List.cons.inj hEq).1
          exact absurd (hHead ▸ List.mem_cons_self) ha
      | cons c b =>
          obtain ⟨hHead, hTail⟩ := List.cons.inj hEq
          obtain ⟨hRest, hAfter⟩ := ih (fun h => ha (List.mem_cons_of_mem d h))
            (fun h => hb (List.mem_cons_of_mem c h)) hTail
          exact ⟨by rw [hHead, hRest], hAfter⟩

/-- Between a mark and a closing bracket stands a text without spaces, so it can
be split off. -/
private theorem bracketed_inj {a b r r' : List Char} (ha : ' ' ∉ a) (hb : ' ' ∉ b)
    (hEq : (a ++ ['>']) ++ ' ' :: r = (b ++ ['>']) ++ ' ' :: r') : a = b ∧ r = r' := by
  have hNotMem : ∀ {x : List Char}, ' ' ∉ x → ' ' ∉ x ++ ['>'] := by
    intro x hx hMem
    rcases List.mem_append.mp hMem with h | h
    · exact hx h
    · exact absurd h (by decide)
  obtain ⟨hText, hRest⟩ := append_cons_inj_of_separator (hNotMem ha) (hNotMem hb) hEq
  exact ⟨List.append_cancel_right hText, hRest⟩

private theorem not_mem_toDigits_space (n : Nat) : ' ' ∉ Nat.toDigits 10 n := by
  intro hMem
  exact absurd (Number.isDigit_of_mem_toDigits hMem) (by decide)

mutual

/-- **A key and a space can be split off a text in one way only.** -/
theorem key_append_inj :
    ∀ (d d' : Datum) {r r' : List Char}, d.Named → d'.Named →
      d.key ++ ' ' :: r = d'.key ++ ' ' :: r' → d = d' ∧ r = r'
  | d, d', r, r', hNamed, hNamed', hEq => by
    -- Keys of different kinds differ in their first characters, so seven cases remain.
    have hKind : some d.kind = some d'.kind := by
      rw [← kindOf_key hNamed r, ← kindOf_key hNamed' r', hEq]
    replace hKind := Option.some.inj hKind
    match d, d', hKind with
    | .int m, .int n, _ =>
      rw [key, key] at hEq
      obtain ⟨hText, hRest⟩ := append_cons_inj_of_separator
        (Number.not_mem_text (by decide) (by decide))
        (Number.not_mem_text (by decide) (by decide)) hEq
      exact ⟨congrArg Datum.int (Number.text_injective hText), hRest⟩
    | .bool b, .bool c, _ =>
      rw [key, key] at hEq
      cases b <;> cases c <;> simp_all [boolChars]
    | .str s, .str t, _ =>
      rw [key, key] at hEq
      have hInside : Text.encode s.toList ++ '"' :: ' ' :: r =
          Text.encode t.toList ++ '"' :: ' ' :: r' := by
        simpa [Text.quoted] using hEq
      have hRead := Text.decode_encode s.toList (' ' :: r)
      rw [hInside, Text.decode_encode] at hRead
      simp only [Option.some.injEq, Prod.mk.injEq, List.cons.injEq, true_and] at hRead
      exact ⟨congrArg Datum.str (String.toList_inj.mp hRead.1.symm), hRead.2.symm⟩
    | .func f, .func g, _ =>
      rw [key, key, List.append_assoc functionMark, List.append_assoc functionMark] at hEq
      rw [Named] at hNamed hNamed'
      obtain ⟨hName, hRest⟩ := bracketed_inj (not_mem_of_isName hNamed (by decide))
        (not_mem_of_isName hNamed' (by decide)) (List.append_cancel_left hEq)
      exact ⟨congrArg Datum.func (String.toList_inj.mp hName), hRest⟩
    | .lambda m, .lambda n, _ =>
      rw [key, key, List.append_assoc lambdaMark, List.append_assoc lambdaMark] at hEq
      obtain ⟨hDigits, hRest⟩ := bracketed_inj (not_mem_toDigits_space m)
        (not_mem_toDigits_space n) (List.append_cancel_left hEq)
      exact ⟨congrArg Datum.lambda (Number.toDigits_injective hDigits), hRest⟩
    | .list ds, .list ds', _ =>
      rw [Named] at hNamed hNamed'
      rw [key, key] at hEq
      have hInside : keys ds ++ ')' :: ' ' :: r = keys ds' ++ ')' :: ' ' :: r' := by
        simpa using hEq
      obtain ⟨hItems, hRest⟩ := keys_append_inj ds ds' hNamed hNamed' hInside
      exact ⟨congrArg Datum.list hItems, (List.cons.inj hRest).2⟩
    | .tagged tag d, .tagged tag' d', _ =>
      rw [Named] at hNamed hNamed'
      rw [key, key, List.append_assoc, List.append_assoc] at hEq
      obtain ⟨hTag, hInner⟩ := append_cons_inj_of_separator
        (not_mem_of_isName hNamed.1 (by decide)) (not_mem_of_isName hNamed'.1 (by decide)) hEq
      obtain ⟨rfl, hRest⟩ := key_append_inj d d' hNamed.2 hNamed'.2 hInner
      exact ⟨by rw [String.toList_inj.mp hTag], hRest⟩

/-- The keys of several data can be split off at the bracket that closes them. -/
theorem keys_append_inj :
    ∀ (ds ds' : List Datum) {r r' : List Char}, AllNamed ds → AllNamed ds' →
      keys ds ++ ')' :: r = keys ds' ++ ')' :: r' → ds = ds' ∧ r = r'
  | [], [], _, _, _, _, hEq => by
    rw [keys] at hEq
    exact ⟨rfl, (List.cons.inj hEq).2⟩
  | [], d' :: ds', r, r', _, hNamed', hEq => by
    rw [AllNamed] at hNamed'
    rw [keys, keys, List.append_assoc] at hEq
    have hKind := kindOf_key hNamed'.1 (keys ds' ++ ')' :: r')
    rw [List.nil_append, List.cons_append] at hEq
    rw [← hEq] at hKind
    cases hKind
  | d :: ds, [], r, r', hNamed, _, hEq => by
    rw [AllNamed] at hNamed
    rw [keys, keys, List.append_assoc] at hEq
    have hKind := kindOf_key hNamed.1 (keys ds ++ ')' :: r)
    rw [List.nil_append, List.cons_append] at hEq
    rw [hEq] at hKind
    cases hKind
  | d :: ds, d' :: ds', r, r', hNamed, hNamed', hEq => by
    rw [AllNamed] at hNamed hNamed'
    rw [keys, keys, List.append_assoc, List.append_assoc, List.cons_append,
      List.cons_append] at hEq
    obtain ⟨hHead, hTail⟩ := key_append_inj d d' hNamed.1 hNamed'.1 hEq
    obtain ⟨hItems, hRest⟩ := keys_append_inj ds ds' hNamed.2 hNamed'.2 hTail
    exact ⟨by rw [hHead, hItems], hRest⟩

end

/-- **Different tuples of data have different keys.** -/
theorem keys_injective {ds ds' : List Datum} (hNamed : AllNamed ds) (hNamed' : AllNamed ds')
    (hEq : keys ds = keys ds') : ds = ds' := by
  -- Nothing follows a tuple; a closing bracket may as well do so on both sides.
  have hClosed : keys ds ++ [')'] = keys ds' ++ [')'] := by rw [hEq]
  exact (keys_append_inj ds ds' hNamed hNamed' hClosed).1

end Datum

end ClauseLisp
