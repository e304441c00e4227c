import ClauseLisp.Program.Lowering
import ClauseLisp.Proofs.Equality.Contents
import ClauseLisp.Proofs.RoundTrip.Inverse
import ClauseLisp.Value.Printer

/-!
# Data print as literals of themselves

Data are numbers, truth values, strings and strict lists of data, with tags anywhere on
them.  The text of such a value is that of a form without symbols, so behind an
apostrophe it is read as that form and becomes a literal again.  Tags are not printed
and the cells of the literal know other types, but nothing that equality looks at is
lost.  The apostrophe takes a level, and the innermost atoms stand on one, so two of the
levels that forms may stand on are not there for lists.

## Main results

* `Value.reprWith_of_isData` — the text of a datum is that of a readable form.
* `Value.data_print_as_literals` — a datum is the value of its own text behind an
  apostrophe, unless it nests too deeply, and then the reader says so.
-/

namespace ClauseLisp

open Ty (Registry)

namespace Value

/-! ## Data -/

mutual

/-- Numbers, truth values, strings and strict lists of data, with tags on any of them. -/
inductive IsData : Value → Prop
  | int {n : Int} (h : Number.inRange n = true) : IsData (.int n)
  | bool (b : Bool) : IsData (.bool b)
  | str (s : String) : IsData (.str s)
  | list {v : Value} (h : IsStrictList v) : IsData v
  | tagged (tag : String) {v : Value} (h : IsData v) (hOnce : v.untagged = v) :
      IsData (.tagged tag v)

/-- Cells up to the empty list, without tags between them. -/
inductive IsStrictList : Value → Prop
  | nil : IsStrictList .nil
  | cell {head tail : Value} (elem : ElemType) (hHead : IsData head) (hTail : IsStrictList tail) :
      IsStrictList (.cell head tail elem)

end

/-- How deeply the lists of a value nest: atoms and the empty list not at all. -/
def nesting : Value → Nat
  | .cell head tail _ => max (nesting head + 1) (nesting tail)
  | .tagged _ value => nesting value
  | _ => 0

mutual

/-- The form whose text the text of a datum is. -/
def toForm : Value → Form
  | .int n => .int n
  | .bool b => .bool b
  | .str s => .str s
  | .tagged _ value => toForm value
  | .cell head tail _ => .list (toForm head :: toForms tail)
  | _ => .list []

/-- The forms of the elements of a list. -/
def toForms : Value → List Form
  | .cell head tail _ => toForm head :: toForms tail
  | _ => []

end

variable {v : Value}

/-- A list is the form of its elements. -/
theorem IsStrictList.toForm_eq (h : v.IsStrictList) : v.toForm = .list v.toForms := by
  cases h with
  | nil => rfl
  | cell elem _ _ => rw [toForm, toForms]

/-! ## Text -/

theorem intersperse_flatten_chars (items : List Form) :
    ((items.map Form.chars).intersperse [' ']).flatten = Form.itemChars items := by
  induction items with
  | nil => rfl
  | cons item items ih =>
      cases items with
      | nil => simp [Form.itemChars]
      | cons next items =>
          rw [Form.itemChars]
          · simp only [List.map_cons, List.intersperse_cons_cons, List.flatten_cons] at ih ⊢
            rw [ih]
            simp
          · exact nofun

variable (expand : List (List Char) → Nat → List (List Char))

theorem reprWith_cell (head tail : Value) (elem : ElemType) :
    reprWith expand (.cell head tail elem) =
      parenthesized (itemsWith expand [reprWith expand head] tail).reverse := rfl

theorem itemsWith_cell (done : List (List Char)) (head tail : Value) (elem : ElemType) :
    itemsWith expand done (.cell head tail elem) =
      itemsWith expand (reprWith expand head :: done) tail := rfl

mutual

/-- **The text of a datum is the text of its form**, whatever is known of lazy lists. -/
theorem reprWith_of_isData : ∀ {v : Value}, v.IsData → reprWith expand v = v.toForm.chars
  | _, .int _ => rfl
  | _, .bool _ => rfl
  | _, .str _ => rfl
  | _, .list h => reprWith_of_isStrictList h
  | _, .tagged _ h _ => by
    have hInner := reprWith_of_isData h
    exact hInner

theorem reprWith_of_isStrictList : ∀ {v : Value}, v.IsStrictList →
    reprWith expand v = v.toForm.chars
  | .nil, .nil => rfl
  | .cell head tail elem, .cell _ hHead hTail => by
    rw [reprWith_cell, itemsWith_of_isStrictList hTail, reprWith_of_isData hHead, toForm,
      Form.chars, ← intersperse_flatten_chars, parenthesized]
    simp

/-- The texts of the elements of a list are put in front of others, last first. -/
theorem itemsWith_of_isStrictList : ∀ {v : Value} {done : List (List Char)}, v.IsStrictList →
    itemsWith expand done v = (v.toForms.map Form.chars).reverse ++ done
  | .nil, done, .nil => rfl
  | .cell head tail elem, done, .cell _ hHead hTail => by
    rw [itemsWith_cell, itemsWith_of_isStrictList hTail, reprWith_of_isData hHead, toForms]
    simp

end

theorem repr_of_isData {v : Value} (h : v.IsData) (nodes : LazyNodes) :
    v.repr nodes = v.toForm.text := by
  rw [repr, reprWith_of_isData _ h, Form.text]

/-! ## Forms of data -/

/-- A form without symbols is no long spelling of a quoted form. -/
theorem toForm_ne_sym : ∀ (v : Value) (name : String) (ty : Option Ty), v.toForm ≠ .sym name ty
  | .tagged _ value, name, ty => by
    rw [toForm]
    exact toForm_ne_sym value name ty
  | .int _, _, _ => nofun
  | .bool _, _, _ => nofun
  | .str _, _, _ => nofun
  | .nil, _, _ => nofun
  | .cell _ _ _, _, _ => nofun
  | .lazy _, _, _ => nofun
  | .func _, _, _ => nofun
  | .lambda _, _, _ => nofun

theorem toForms_ne_quote (v : Value) (inner : Form) :
    v.toForms ≠ [.sym "quote" none, inner] := by
  cases v with
  | cell head tail elem =>
      intro hEq
      rw [toForms] at hEq
      exact toForm_ne_sym head _ _ (List.cons.inj hEq).1
  | _ => exact nofun

mutual

theorem readable_toForm : ∀ {v : Value}, v.IsData → v.toForm.Readable
  | _, .int h => h
  | _, .bool _ => trivial
  | _, .str _ => trivial
  | v, .list h => by
    rw [h.toForm_eq, Form.Readable]
    exact ⟨allReadable_toForms h, toForms_ne_quote v⟩
  | _, .tagged _ h _ => by
    have hInner := readable_toForm h
    exact hInner

theorem allReadable_toForms : ∀ {v : Value}, v.IsStrictList → Form.AllReadable v.toForms
  | .nil, .nil => trivial
  | .cell head tail elem, .cell _ hHead hTail => by
    rw [toForms, Form.AllReadable]
    exact ⟨readable_toForm hHead, allReadable_toForms hTail⟩

end

mutual

/-- The form of a datum nests as deeply as the datum. -/
theorem depth_toForm : ∀ {v : Value}, v.IsData → v.toForm.depth = v.nesting
  | _, .int _ => rfl
  | _, .bool _ => rfl
  | _, .str _ => rfl
  | _, .list h => by rw [h.toForm_eq, Form.depth, itemsDepth_toForms h]
  | _, .tagged _ h _ => by
    have hInner := depth_toForm h
    exact hInner

theorem itemsDepth_toForms : ∀ {v : Value}, v.IsStrictList →
    Form.itemsDepth v.toForms = v.nesting
  | .nil, .nil => rfl
  | .cell head tail elem, .cell _ hHead hTail => by
    rw [toForms, Form.itemsDepth, depth_toForm hHead, itemsDepth_toForms hTail, nesting]

end

/-! ## The value of the literal -/

theorem ofList_cons (r : Registry) (item : Value) (items : List Value) :
    ofList r (item :: items) = cons r item (ofList r items) := rfl

/-- A value that is a datum with the contents and the form of another one. -/
structure Restores (w v : Value) : Prop where
  isData : w.IsData
  contents : w.contents = v.contents
  toForm : w.toForm = v.toForm

variable (r : Registry)

mutual

/-- **The literal that the form of a datum is** has its contents and its form. -/
theorem restores_datum : ∀ {v : Value}, v.IsData → Restores (Form.datum r v.toForm) v
  | _, .int h => ⟨.int h, rfl, rfl⟩
  | _, .bool b => ⟨.bool b, rfl, rfl⟩
  | _, .str s => ⟨.str s, rfl, rfl⟩
  | _, .list h => by
    obtain ⟨hList, hContents, hForms⟩ := restores_datums h
    rw [h.toForm_eq, Form.datum]
    exact ⟨.list hList, hContents, by rw [hList.toForm_eq, h.toForm_eq, hForms]⟩
  | _, .tagged _ h _ => by
    obtain ⟨hData, hContents, hForm⟩ := restores_datum h
    exact ⟨hData, hContents, hForm⟩

/-- The same for the elements of a list. -/
theorem restores_datums : ∀ {v : Value}, v.IsStrictList →
    (ofList r (Form.datums r v.toForms)).IsStrictList ∧
      (ofList r (Form.datums r v.toForms)).contents = v.contents ∧
      (ofList r (Form.datums r v.toForms)).toForms = v.toForms
  | .nil, .nil => ⟨.nil, rfl, rfl⟩
  | .cell head tail _, .cell _ hHead hTail => by
    obtain ⟨hData, hContents, hForm⟩ := restores_datum hHead
    obtain ⟨hList, hContents', hForms⟩ := restores_datums hTail
    rw [toForms, Form.datums, ofList_cons, cons]
    refine ⟨.cell _ hData hList, ?_, ?_⟩
    · rw [contents_cell, contents_cell, hContents, hContents']
    · rw [toForms, hForm, hForms]

end

mutual

theorem IsData.onceTagged : ∀ {v : Value}, v.IsData → v.OnceTagged
  | _, .int _ => trivial
  | _, .bool _ => trivial
  | _, .str _ => trivial
  | _, .list h => h.onceTagged
  | _, .tagged _ h hOnce => ⟨hOnce, h.onceTagged⟩

theorem IsStrictList.onceTagged : ∀ {v : Value}, v.IsStrictList → v.OnceTagged
  | _, .nil => trivial
  | _, .cell _ hHead hTail => ⟨hHead.onceTagged, hTail.onceTagged⟩

end

/-! ## Data as literals -/

/-- The text of a datum behind an apostrophe is that of its quoted form. -/
theorem quote_repr {v : Value} (h : v.IsData) (nodes : LazyNodes) :
    "'" ++ v.repr nodes = (Form.quote v.toForm).text := by
  rw [repr_of_isData h, Form.text, Form.text, Form.chars]
  apply String.toList_injective
  simp

/-- **Data print as literals of themselves.**  The text of a datum behind an apostrophe is
read as a form and lowered to a literal, as long as its lists nest less deeply by two than
forms may; the value of the literal is the same as the datum and has the same text.  Data
that nest more deeply are refused for that. -/
theorem data_print_as_literals {v : Value} (h : v.IsData) (nodes : LazyNodes) (r : Registry)
    (allowSet : Bool) :
    (v.nesting ≤ Form.maxNesting - 2 →
      ∃ f w, Form.parse ("'" ++ v.repr nodes) = .ok f ∧ f.expr r allowSet = .ok (.lit w) ∧
        w.same v = true ∧ v.same w = true ∧ ∀ nodes', w.repr nodes' = v.repr nodes) ∧
    (Form.maxNesting - 2 < v.nesting →
      Form.parse ("'" ++ v.repr nodes) = .error (.parse (.tooDeep Form.maxNesting))) := by
  have hReadable : (Form.quote v.toForm).Readable := readable_toForm h
  have hDepth : (Form.quote v.toForm).depth = v.nesting + 1 := by rw [Form.depth, depth_toForm h]
  have hLevels : Form.maxNesting = 256 := rfl
  rw [quote_repr h, Form.parse_text hReadable, hDepth]
  constructor
  · intro hNesting
    obtain ⟨hData, hContents, hForm⟩ := restores_datum r h
    refine ⟨.quote v.toForm, Form.datum r v.toForm, if_pos (by omega), ?_, ?_, ?_, ?_⟩
    · rw [Form.expr]
    · exact (same_iff hData.onceTagged h.onceTagged).mpr hContents
    · exact (same_iff h.onceTagged hData.onceTagged).mpr hContents.symm
    · intro nodes'
      rw [repr_of_isData hData, repr_of_isData h, hForm]
  · intro hNesting
    exact if_neg (by omega)

/-- The empty list in so many lists. -/
def wrappedNil : Nat → Value
  | 0 => .nil
  | n + 1 => .cell (wrappedNil n) .nil (.pending none)

theorem isStrictList_wrappedNil (n : Nat) : (wrappedNil n).IsStrictList := by
  induction n with
  | zero => exact .nil
  | succ n ih => exact .cell _ (.list ih) .nil

theorem nesting_wrappedNil (n : Nat) : (wrappedNil n).nesting = n := by
  induction n with
  | zero => rfl
  | succ n ih =>
      show max ((wrappedNil n).nesting + 1) 0 = n + 1
      rw [ih, Nat.max_zero]

/-- A tagged list with a tagged number, an escaped string and a list in it, and the two sides
of the limit on nesting. -/
theorem data_print_as_literals_of_sample :
    let sample : Value := .tagged "entry" (.cell (.tagged "age" (.int (-7)))
      (.cell (.str "a \"(;\n") (.cell (.cell (.bool true) .nil (.fixed Ty.bool)) .nil
        (.pending none)) (.pending (some 3))) (.pending none))
    sample.repr #[] = "(-7 \"a \\\"(;\\n\" (true))" ∧
      (∃ f w, Form.parse ("'" ++ sample.repr #[]) = .ok f ∧ f.expr {} false = .ok (.lit w) ∧
        w.same sample = true ∧ sample.same w = true ∧
        ∀ nodes', w.repr nodes' = sample.repr #[]) ∧
      (∃ f w, Form.parse ("'" ++ (wrappedNil 254).repr #[]) = .ok f ∧
        f.expr {} false = .ok (.lit w) ∧ w.same (wrappedNil 254) = true ∧
        (wrappedNil 254).same w = true ∧
        ∀ nodes', w.repr nodes' = (wrappedNil 254).repr #[]) ∧
      Form.parse ("'" ++ (wrappedNil 255).repr #[]) = .error (.parse (.tooDeep 256)) := by
  intro sample
  have hInner : IsData (.cell (.bool true) .nil (.fixed Ty.bool)) :=
    .list (.cell _ (.bool true) .nil)
  have hSample : sample.IsData :=
    .tagged "entry" (.list (.cell _ (.tagged "age" (.int (by decide)) rfl)
      (.cell _ (.str _) (.cell _ hInner .nil)))) rfl
  refine ⟨by rfl, (data_print_as_literals hSample #[] {} false).1 (by decide), ?_, ?_⟩
  · refine (data_print_as_literals (.list (isStrictList_wrappedNil 254)) #[] {} false).1 ?_
    rw [nesting_wrappedNil]
    decide
  · refine (data_print_as_literals (.list (isStrictList_wrappedNil 255)) #[] {} false).2 ?_
    rw [nesting_wrappedNil]
    decide

end Value

end ClauseLisp
