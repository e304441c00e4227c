import ClauseLisp.Operation.Builtin
import ClauseLisp.Proofs.Loading.Steps

/-!
# Properties that values hand on

Every value of the language is an atom, or has been made of other values in one of
three ways: as a cell in front of a list, by tagging a value that satisfies the type
behind the tag, or by taking one of these apart again.  A property is `Hereditary` if
atoms have it and each of these ways hands it on.

Operations on evaluated arguments and quoted forms make values in no other way, so
what they make has every hereditary property that their arguments have.

## Main results

* `Value.Hereditary` — what it takes for a property to be handed on.
* `Form.datum_hereditary` — quoted forms have it.
* `Builtin.operation_hereditary` — so has what builtins make of arguments that have it.
-/

namespace ClauseLisp

open Ty (Registry)

/-- A property of values, with given declared types, that every way to make a value
hands on.  Nothing has to be known of the element types of lists but that no
declaration to come can change them. -/
structure Value.Hereditary (r : Registry) (P : Value → Prop) : Prop where
  int : ∀ n, P (.int n)
  bool : ∀ b, P (.bool b)
  str : ∀ s, P (.str s)
  nil : P .nil
  lazy : ∀ node, P (.lazy node)
  func : ∀ name, P (.func name)
  lambda : ∀ closure, P (.lambda closure)
  untagged : ∀ {v : Value}, P v → P v.untagged
  bare : ∀ {v : Value}, P v → v.untagged.untagged = v.untagged
  head : ∀ {head tail : Value} {elem : ElemType}, P (.cell head tail elem) → P head
  tail : ∀ {head tail : Value} {elem : ElemType}, P (.cell head tail elem) → P tail
  fixed : ∀ {head tail : Value} {elem : ElemType}, P (.cell head tail elem) → ∃ ty, elem = .fixed ty
  cons : ∀ {head tail : Value}, P head → P tail → tail.isList = true →
    P (Value.cons r head tail.untagged)
  tag : ∀ {name : String} {parent : Ty} {v : Value} {asked : AskedTypes},
    r.parent? name = some parent → P v → (v.conforms r parent Dict.empty asked).1.1 = true →
    P (v.tag name)

/-- All of several values have a property. -/
abbrev AllHave (P : Value → Prop) (values : List Value) : Prop := ∀ v ∈ values, P v

section

variable {r : Registry} {P : Value → Prop} (h : Value.Hereditary r P)

include h

/-! ## Lists -/

namespace Value

/-- A list in front of another one is a list without a tag. -/
theorem append_hereditary {items : List Value} (hItems : AllHave P items) {tail : Value}
    (hTail : P tail) (hList : tail.isList = true) :
    P (append r items tail.untagged) ∧ (append r items tail.untagged).isList = true ∧
      (append r items tail.untagged).untagged = append r items tail.untagged := by
  induction items with
  | nil =>
      refine ⟨h.untagged hTail, ?_, h.bare hTail⟩
      show tail.untagged.isList = true
      rw [isList, h.bare hTail]
      exact hList
  | cons item items ih =>
      obtain ⟨hItem, hOthers⟩ := List.forall_mem_cons.mp hItems
      obtain ⟨hRest, hRestList, hBare⟩ := ih hOthers
      have hCell := h.cons hItem hRest hRestList
      rw [hBare] at hCell
      exact ⟨hCell, rfl, rfl⟩

theorem ofList_hereditary {items : List Value} (hItems : AllHave P items) : P (ofList r items) :=
  (append_hereditary h hItems h.nil rfl).1

theorem strictPart_hereditary :
    ∀ {v : Value} {done : List Value}, P v → AllHave P done → AllHave P (strictPart done v).1 := by
  intro v
  induction v with
  | cell head tail elem _ ih =>
      intro done hv hDone
      exact ih (h.tail hv) (List.forall_mem_cons.mpr ⟨h.head hv, hDone⟩)
  | _ => exact fun _ hDone => hDone

theorem items?_hereditary {v : Value} {items : List Value} (hv : P v)
    (hItems : v.items? = some items) : AllHave P items := by
  have hPart : AllHave P (strictPart [] v.untagged).1 :=
    strictPart_hereditary h (h.untagged hv) (List.forall_mem_nil P)
  unfold items? at hItems
  split at hItems
  · rename_i done hStrict
    cases hItems
    rw [hStrict] at hPart
    exact fun item hMem => hPart item (List.mem_reverse.mp hMem)
  · cases hItems

end Value

end

/-! ## Quoted forms -/

namespace Form

variable {r : Registry} {P : Value → Prop}

mutual

/-- **Quoted forms have every hereditary property.** -/
theorem datum_hereditary (h : Value.Hereditary r P) : ∀ form : Form, P (datum r form)
  | .int n => h.int n
  | .bool b => h.bool b
  | .str s => h.str s
  | .sym _ _ => h.str _
  | .mark _ => h.str _
  | .list items => Value.ofList_hereditary h (datums_hereditary h items)
  | .quote inner => by
    refine Value.ofList_hereditary h fun v hMem => ?_
    rcases List.mem_cons.mp hMem with rfl | hMem
    · exact h.str "quote"
    · rw [List.mem_singleton.mp hMem]
      exact datum_hereditary h inner

theorem datums_hereditary (h : Value.Hereditary r P) : ∀ forms : List Form, AllHave P (datums r forms)
  | [] => List.forall_mem_nil P
  | form :: forms =>
    List.forall_mem_cons.mpr ⟨datum_hereditary h form, datums_hereditary h forms⟩

end

end Form

/-! ## Operations -/

/-- What an operation makes of arguments with a property has it. -/
def Operation.HandsOn (r : Registry) (P : Value → Prop) (operation : Operation) : Prop :=
  ∀ (view : View) (args : List Value) (v : Value), view.types = r → AllHave P args →
    operation view args = .ok v → P v

namespace Operation

/-- Arguments of any kind are taken as they are. -/
theorem arguments_value (view : View) :
    ∀ (args : List Value) (position : Nat), arguments Value view position args = .ok args := by
  intro args
  induction args with
  | nil => exact fun _ => rfl
  | cons arg args ih =>
      intro position
      rw [arguments, ih (position + 1)]
      rfl

section

variable {r : Registry} {P : Value → Prop} {α β : Type} [Argument α] [Argument β]

theorem handsOn_rest0 {f : View → List α → Except Error Value}
    (hf : ∀ view xs v, f view xs = .ok v → P v) : HandsOn r P (rest0 f) := by
  intro view args v hView hArgs hOk
  obtain ⟨xs, -, hOk⟩ := except_bind_ok hOk
  exact hf view xs v hOk

theorem handsOn_rest1 {f : View → α → List β → Except Error Value}
    (hf : ∀ view x xs v, f view x xs = .ok v → P v) : HandsOn r P (rest1 f) := by
  intro view args v hView hArgs hOk
  cases args with
  | nil => cases hOk
  | cons first args =>
      obtain ⟨x, -, hOk⟩ := except_bind_ok hOk
      obtain ⟨xs, -, hOk⟩ := except_bind_ok hOk
      exact hf view x xs v hOk

theorem handsOn_fixed1 {f : View → α → Except Error Value}
    (hf : ∀ view x v, f view x = .ok v → P v) : HandsOn r P (fixed1 f) := by
  intro view args v hView hArgs hOk
  unfold fixed1 at hOk
  split at hOk
  · obtain ⟨x, -, hOk⟩ := except_bind_ok hOk
    exact hf _ x v hOk
  · cases hOk

theorem handsOn_fixed2 {f : View → α → β → Except Error Value}
    (hf : ∀ view x y v, f view x y = .ok v → P v) : HandsOn r P (fixed2 f) := by
  intro view args v hView hArgs hOk
  unfold fixed2 at hOk
  split at hOk
  · obtain ⟨x, -, hOk⟩ := except_bind_ok hOk
    obtain ⟨y, -, hOk⟩ := except_bind_ok hOk
    exact hf _ x y v hOk
  · cases hOk

end

section

variable {r : Registry} {P : Value → Prop} (h : Value.Hereditary r P)

include h

theorem intResult_hereditary {x : Except Error Int} {v : Value} (hOk : intResult x = .ok v) :
    P v := by
  cases x with
  | error error => cases hOk
  | ok n =>
      cases hOk
      exact h.int n

theorem list_handsOn : HandsOn r P list := by
  rintro view args v rfl hArgs hOk
  unfold list rest0 at hOk
  rw [arguments_value] at hOk
  cases hOk
  exact Value.ofList_hereditary h hArgs

theorem cons_handsOn : HandsOn r P cons := by
  rintro view args v rfl hArgs hOk
  unfold cons fixed2 at hOk
  split at hOk
  · rename_i first second
    obtain ⟨hFirst, hSecond⟩ := List.forall_mem_cons.mp hArgs
    replace hOk : (if second.isList then
      Except.ok (Value.cons view.types first second.untagged)
      else .error (view.argumentError "list" second 1)) = Except.ok v := hOk
    by_cases hList : second.isList = true
    · rw [if_pos hList] at hOk
      cases hOk
      exact h.cons hFirst (List.forall_mem_singleton.mp hSecond) hList
    · rw [if_neg hList] at hOk
      cases hOk
  · cases hOk

theorem comparison_handsOn (holds : Int → Int → Bool) : HandsOn r P (comparison holds) :=
  handsOn_rest1 fun _ _ _ _ hOk => by
    cases hOk
    exact h.bool _

end

end Operation

/-- **What builtins make of arguments has every hereditary property** that the arguments
have. -/
theorem Builtin.operation_hereditary {r : Registry} {P : Value → Prop} (h : Value.Hereditary r P) :
    ∀ b ∈ Builtin.table, ∀ operation, b.body = .operation operation →
      Operation.HandsOn r P operation := by
  have hAdd : Operation.HandsOn r P Operation.add :=
    Operation.handsOn_rest0 fun _ _ _ hOk => Operation.intResult_hereditary h hOk
  have hSub : Operation.HandsOn r P Operation.sub :=
    Operation.handsOn_rest1 fun _ _ _ _ hOk => Operation.intResult_hereditary h hOk
  have hMul : Operation.HandsOn r P Operation.mul :=
    Operation.handsOn_rest1 fun _ _ _ _ hOk => Operation.intResult_hereditary h hOk
  have hDiv : Operation.HandsOn r P Operation.div :=
    Operation.handsOn_fixed2 fun _ _ _ _ hOk => Operation.intResult_hereditary h hOk
  have hMod : Operation.HandsOn r P Operation.mod :=
    Operation.handsOn_fixed2 fun _ _ _ _ hOk => Operation.intResult_hereditary h hOk
  have hNot : Operation.HandsOn r P Operation.negation :=
    Operation.handsOn_fixed1 fun _ _ _ hOk => by
      cases hOk
      exact h.bool _
  have hStr : Operation.HandsOn r P Operation.str :=
    Operation.handsOn_rest0 fun _ _ _ hOk => by
      cases hOk
      exact h.str _
  have hError : Operation.HandsOn r P Operation.error :=
    Operation.handsOn_rest0 fun _ _ _ hOk => nomatch hOk
  simp only [Builtin.table, List.forall_mem_cons, List.not_mem_nil, false_implies, implies_true,
    Builtin.Body.operation.injEq, forall_eq', reduceCtorEq, and_true, true_and]
  exact ⟨hAdd, hSub, hMul, hDiv, hMod, Operation.comparison_handsOn h _,
    Operation.comparison_handsOn h _, Operation.comparison_handsOn h _,
    Operation.comparison_handsOn h _, hNot, Operation.list_handsOn h, Operation.cons_handsOn h,
    hStr, hError⟩

end ClauseLisp
