import ClauseLisp.Proofs.Values.Elements

/-!
# Element types that are kept

The element type of a list is worked out once.  A cell knows it from the start, or it has
a place in a table where the type is written down when somebody asks for it; the cells of
a list share what they know with all lists that they are the rest of.  Types may be
declared at any time, before a cell is asked for its type or after that.

None of this can be seen in the answers.  Whatever has been asked before, and whatever has
been declared between the questions, the type of a list is the join of the types of its
strict elements with the declarations as they are now, each of them worked out anew.

What makes this so is an invariant of the table.  Each type in it is the join, worked out
anew, for the cell whose place it is, and all names in it are taken, so that declarations
to come cannot change the join.

## Main results

* `Value.Known.typeOf` — asking a value gives its type and keeps the table right.
* `Asked.right` — the table is right after every history of questions and declarations.
* `Session.element_types_transparent` — what is kept cannot be seen.
-/

namespace ClauseLisp

open Ty (Registry Bindings)

/-! ## Joins of known types -/

namespace Ty.Registry

variable {r r' : Registry}

theorem knows_join (hr : r.Reached) {a b : Ty} (ha : r.knows a = true) (hb : r.knows b = true) :
    r.knows (r.join a b) = true := by
  obtain ⟨ty, hJoin, hUp⟩ := exists_fixedJoin? hr ha hb
  rw [← Value.fixedJoin?_eq hJoin]
  exact hUp.known ha hb

theorem knows_joinAll (hr : r.Reached) :
    ∀ {ts : List Ty}, (∀ t ∈ ts, r.knows t = true) → r.knows (r.joinAll ts) = true := by
  intro ts
  induction ts with
  | nil => exact fun _ => rfl
  | cons t ts ih =>
      intro hKnown
      rw [List.forall_mem_cons] at hKnown
      by_cases hEmpty : ts = []
      · subst hEmpty
        exact hKnown.1
      · rw [joinAll_cons r t hEmpty]
        exact knows_join hr hKnown.1 (ih hKnown.2)

/-- **Joins of several known types do not change.** -/
theorem Declares.joinAll (h : r.Declares r') (hr : r.Reached) :
    ∀ {ts : List Ty}, (∀ t ∈ ts, r.knows t = true) → r'.joinAll ts = r.joinAll ts := by
  intro ts
  induction ts with
  | nil => exact fun _ => rfl
  | cons t ts ih =>
      intro hKnown
      rw [List.forall_mem_cons] at hKnown
      by_cases hEmpty : ts = []
      · subst hEmpty
        rfl
      · rw [joinAll_cons r t hEmpty, joinAll_cons r' t hEmpty, ih hKnown.2,
          h.join hr hKnown.1 (knows_joinAll hr hKnown.2)]

end Ty.Registry

/-! ## Types worked out anew -/

mutual

/-- The type of a value, worked out without anything that is kept. -/
def Value.uncachedType (r : Registry) : Value → Ty
  | .cell head tail _ => .list (r.joinAll (uncachedType r head :: headTypes r tail))
  | value => value.plainType

/-- The types of the elements of the strict part of a list, in order. -/
def Value.headTypes (r : Registry) : Value → List Ty
  | .cell head tail _ => uncachedType r head :: headTypes r tail
  | _ => []

end

namespace Value

/-- A cell in front of no cell knows the type of its head, if that is fixed. -/
theorem elemTypeOf_of_not_cell {tail : Value} (hCell : tail.isCell = false) (r : Registry)
    (head : Value) :
    elemTypeOf r head tail = head.fixedType?.elim (.pending none) ElemType.fixed := by
  cases tail with
  | cell next rest elem => cases hCell
  | _ => cases hFirst : head.fixedType? <;> simp [elemTypeOf, hFirst]

theorem headTypes_of_not_cell {tail : Value} (hCell : tail.isCell = false) (r : Registry) :
    tail.headTypes r = [] := by
  cases tail with
  | cell next rest elem => cases hCell
  | _ => rfl

/-- The type of a cell is made of the types of the elements from there on, of which there are
some. -/
theorem uncachedType_of_isCell {v : Value} (hCell : v.isCell = true) (r : Registry) :
    v.uncachedType r = .list (r.joinAll (v.headTypes r)) ∧ v.headTypes r ≠ [] := by
  cases v with
  | cell head tail elem => exact ⟨rfl, List.cons_ne_nil _ _⟩
  | _ => cases hCell

/-- A new cell that knows its element type is the last one, or joins the type of its head to
what the next cell knows. -/
theorem exists_of_elemTypeOf {r : Registry} {head tail : Value} {ty : Ty}
    (h : elemTypeOf r head tail = .fixed ty) :
    ∃ first, head.fixedType? = some first ∧
      ((tail.isCell = false ∧ ty = first) ∨
        ∃ others, tail.isCell = true ∧ tail.fixedType? = some (.list others) ∧
          ty = r.join first others) := by
  cases hCell : tail.isCell with
  | false =>
      rw [elemTypeOf_of_not_cell hCell] at h
      cases hFirst : head.fixedType? with
      | none =>
          rw [hFirst] at h
          cases h
      | some first =>
          rw [hFirst] at h
          cases h
          exact ⟨ty, rfl, .inl ⟨rfl, rfl⟩⟩
  | true =>
      cases tail with
      | cell next rest elem =>
          rcases elemTypeOf_cell r head next rest elem with
            hNone | ⟨first, others, hFirst, rfl, hSome⟩
          · rw [hNone] at h
            cases h
          · rw [hSome] at h
            cases h
            exact ⟨first, hFirst, .inr ⟨others, rfl, rfl, rfl⟩⟩
      | _ => cases hCell

/-- Declarations to come change nothing in what a new cell knows, if it is made of what is
known. -/
theorem elemTypeOf_declares {r r' : Registry} (hMore : r.Declares r') (hr : r.Reached)
    {head tail : Value} (hHead : ∀ t, head.fixedType? = some t → r.knows t = true)
    (hTail : ∀ t, tail.fixedType? = some t → r.knows t = true) :
    elemTypeOf r' head tail = elemTypeOf r head tail := by
  cases hCell : tail.isCell with
  | false => rw [elemTypeOf_of_not_cell hCell, elemTypeOf_of_not_cell hCell]
  | true =>
      cases tail with
      | cell next rest elem =>
          cases elem with
          | pending place => cases hFirst : head.fixedType? <;> simp only [elemTypeOf, hFirst]
          | fixed others =>
              cases hFirst : head.fixedType? with
              | none => simp only [elemTypeOf, hFirst]
              | some first =>
                  have hKnown : r.knows first = true := hHead first hFirst
                  have hKnown' : r.knows others = true := hTail (.list others) rfl
                  have hSame : r'.fixedJoin? first others = r.fixedJoin? first others := by
                    rw [Registry.fixedJoin?, Registry.fixedJoin?, hMore.join hr hKnown hKnown',
                      hMore.knows hKnown, hMore.knows hKnown', hKnown, hKnown']
                  simp only [elemTypeOf, hFirst, hSame]
      | _ => cases hCell

end Value

/-- Which cell has a place in the table, as its head and its tail. -/
abbrev Places := Nat → Option (Value × Value)

namespace Value

/-- Values in which all tags are names that are taken, and in which the cells that know their
element type would know it if they were made now. -/
inductive Known (places : Places) (r : Registry) : Value → Prop
  | int (n : Int) : Known places r (.int n)
  | bool (b : Bool) : Known places r (.bool b)
  | str (s : String) : Known places r (.str s)
  | nil : Known places r .nil
  | lazy (node : Nat) : Known places r (.lazy node)
  | func (name : String) : Known places r (.func name)
  | lambda (closure : Nat) : Known places r (.lambda closure)
  | fixed {head tail : Value} {ty : Ty} :
      Known places r head → Known places r tail → elemTypeOf r head tail = .fixed ty →
      Known places r (.cell head tail (.fixed ty))
  | pending {head tail : Value} {place : Option Nat} :
      Known places r head → Known places r tail →
      (∀ p, place = some p → places p = some (head, tail)) →
      Known places r (.cell head tail (.pending place))
  | tagged {name : String} {v : Value} :
      r.isTaken name = true → Known places r v → Known places r (.tagged name v)

namespace Known

variable {places : Places} {r : Registry} {v : Value}

theorem untagged (h : v.Known places r) : v.untagged.Known places r := by
  cases h with
  | tagged _ hInner => exact hInner
  | int n => exact .int n
  | bool b => exact .bool b
  | str s => exact .str s
  | nil => exact .nil
  | lazy node => exact .lazy node
  | func name => exact .func name
  | lambda closure => exact .lambda closure
  | fixed hHead hTail hElem => exact .fixed hHead hTail hElem
  | pending hHead hTail hPlace => exact .pending hHead hTail hPlace

/-- The names in the types of a known value are taken. -/
theorem knows (h : v.Known places r) (hr : r.Reached) :
    r.knows (v.uncachedType r) = true ∧ ∀ t ∈ v.headTypes r, r.knows t = true := by
  have hCell : ∀ {head tail : Value} {elem : ElemType}, r.knows (head.uncachedType r) = true →
      (∀ t ∈ tail.headTypes r, r.knows t = true) →
      r.knows ((Value.cell head tail elem).uncachedType r) = true ∧
        ∀ t ∈ (Value.cell head tail elem).headTypes r, r.knows t = true := by
    intro head tail elem hHead hTail
    have hAll : ∀ t ∈ head.uncachedType r :: tail.headTypes r, r.knows t = true :=
      List.forall_mem_cons.mpr ⟨hHead, hTail⟩
    exact ⟨Registry.knows_joinAll hr hAll, hAll⟩
  induction h with
  | fixed _ _ _ ihHead ihTail => exact hCell ihHead.1 ihTail.2
  | pending _ _ _ ihHead ihTail => exact hCell ihHead.1 ihTail.2
  | tagged hTaken _ => exact ⟨hTaken, List.forall_mem_nil _⟩
  | _ => exact ⟨rfl, List.forall_mem_nil _⟩

/-- **What a cell knows from the start** is its type worked out anew. -/
theorem eq_of_fixedType? (h : v.Known places r) :
    ∀ {t : Ty}, v.fixedType? = some t → t = v.uncachedType r := by
  induction h with
  | @fixed head tail ty _ _ hElem ihHead ihTail =>
      intro t hType
      cases hType
      obtain ⟨first, hFirst, ⟨hLast, rfl⟩ | ⟨others, hCell, hOthers, rfl⟩⟩ :=
        exists_of_elemTypeOf hElem
      · rw [uncachedType, headTypes_of_not_cell hLast, ihHead hFirst]
        rfl
      · obtain ⟨hType, hSome⟩ := uncachedType_of_isCell hCell r
        have hRest : Ty.list others = .list (r.joinAll (tail.headTypes r)) :=
          (ihTail hOthers).trans hType
        rw [Ty.list.injEq] at hRest
        rw [uncachedType, Registry.joinAll_cons r _ hSome, ← hRest, ihHead hFirst]
  | pending => exact nofun
  | _ =>
    intro t hType
    cases hType
    rfl

theorem fixed_knows (h : v.Known places r) (hr : r.Reached) {t : Ty} (hType : v.fixedType? = some t) :
    r.knows t = true := by
  rw [h.eq_of_fixedType? hType]
  exact (h.knows hr).1

/-- A cell in front of a list. -/
theorem cons {head tail : Value} (hHead : head.Known places r) (hTail : tail.Known places r) :
    (Value.cons r head tail).Known places r := by
  rw [Value.cons]
  cases hElem : elemTypeOf r head tail with
  | fixed ty => exact .fixed hHead hTail hElem
  | pending place =>
      refine .pending hHead hTail fun p hPlace => ?_
      subst hPlace
      exact absurd hElem (by unfold elemTypeOf; grind)

section

variable {r' : Registry} (hMore : r.Declares r') (hr : r.Reached)

include hMore hr

/-- Declarations to come leave a value known. -/
theorem declares (h : v.Known places r) : v.Known places r' := by
  induction h with
  | int n => exact .int n
  | bool b => exact .bool b
  | str s => exact .str s
  | nil => exact .nil
  | lazy node => exact .lazy node
  | func name => exact .func name
  | lambda closure => exact .lambda closure
  | tagged hTaken _ ih => exact .tagged (hMore.isTaken hTaken) ih
  | pending _ _ hPlace ihHead ihTail => exact .pending ihHead ihTail hPlace
  | fixed hHead hTail hElem ihHead ihTail =>
      have hSame := elemTypeOf_declares hMore hr (fun _ => hHead.fixed_knows hr)
        (fun _ => hTail.fixed_knows hr)
      exact .fixed ihHead ihTail (hSame.trans hElem)

/-- **Declarations to come leave the types of a known value as they are.** -/
theorem uncachedType_declares (h : v.Known places r) :
    v.uncachedType r' = v.uncachedType r ∧ v.headTypes r' = v.headTypes r := by
  have hCell : ∀ {head tail : Value} {elem : ElemType}, head.Known places r → tail.Known places r →
      head.uncachedType r' = head.uncachedType r → tail.headTypes r' = tail.headTypes r →
      (Value.cell head tail elem).uncachedType r' = (Value.cell head tail elem).uncachedType r ∧
        (Value.cell head tail elem).headTypes r' = (Value.cell head tail elem).headTypes r := by
    intro head tail elem hHead hTail hFirst hOthers
    have hKnown : ∀ t ∈ head.uncachedType r :: tail.headTypes r, r.knows t = true :=
      List.forall_mem_cons.mpr ⟨(hHead.knows hr).1, (hTail.knows hr).2⟩
    rw [uncachedType, uncachedType, headTypes, headTypes, hFirst, hOthers, hMore.joinAll hr hKnown]
    exact ⟨rfl, rfl⟩
  induction h with
  | fixed hHead hTail _ ihHead ihTail => exact hCell hHead hTail ihHead.1 ihTail.2
  | pending hHead hTail _ ihHead ihTail => exact hCell hHead hTail ihHead.1 ihTail.2
  | _ => exact ⟨rfl, rfl⟩

end

end Known

/-! ## The table -/

/-- The element type of a cell, worked out anew. -/
abbrev elementType (r : Registry) (head tail : Value) : Ty :=
  r.joinAll (head.uncachedType r :: tail.headTypes r)

end Value

/-- A table is right: what is written down for a cell is its element type, and stays so. -/
structure RightTable (places : Places) (r : Registry) (asked : AskedTypes) : Prop where
  reached : r.Reached
  noted : ∀ (p : Nat) (ty : Ty), asked[p]? = some (some ty) →
    ∀ head tail : Value, places p = some (head, tail) →
      head.Known places r ∧ tail.Known places r ∧ ty = Value.elementType r head tail

namespace RightTable

variable {places : Places} {r : Registry} {asked : AskedTypes}

theorem empty (hr : r.Reached) : RightTable places r #[] := ⟨hr, nofun⟩

/-- Declarations to come leave a table right. -/
theorem declares (h : RightTable places r asked) {r' : Registry} (hMore : r.Declares r') :
    RightTable places r' asked := by
  refine ⟨hMore.reached h.reached, fun p ty hNoted head tail hPlace => ?_⟩
  obtain ⟨hHead, hTail, rfl⟩ := h.noted p ty hNoted head tail hPlace
  have hKnown : ∀ t ∈ head.uncachedType r :: tail.headTypes r, r.knows t = true :=
    List.forall_mem_cons.mpr ⟨(hHead.knows h.reached).1, (hTail.knows h.reached).2⟩
  refine ⟨hHead.declares hMore h.reached, hTail.declares hMore h.reached, ?_⟩
  rw [Value.elementType, Value.elementType, (hHead.uncachedType_declares hMore h.reached).1,
    (hTail.uncachedType_declares hMore h.reached).2, hMore.joinAll h.reached hKnown]

/-- A place for a cell of which nothing is known yet. -/
theorem push (h : RightTable places r asked) : RightTable places r (asked.push none) := by
  refine ⟨h.reached, fun p ty hNoted => h.noted p ty ?_⟩
  rw [Array.getElem?_push] at hNoted
  split at hNoted
  · cases hNoted
  · exact hNoted

/-- Places are added at the end of the table. -/
theorem place (v : Value) :
    ∀ {asked : AskedTypes}, RightTable places r asked → RightTable places r (v.place asked).2 := by
  induction v with
  | cell head tail elem _ ih =>
      intro asked hTable
      cases elem with
      | fixed ty => exact hTable
      | pending place =>
          cases place with
          | none => exact (ih hTable).push
          | some p => exact hTable
  | _ => exact fun hTable => hTable

/-- Writing down the element type of a cell leaves the table right. -/
theorem note (h : RightTable places r asked) {head tail : Value} (hHead : head.Known places r)
    (hTail : tail.Known places r) {place : Option Nat}
    (hPlace : ∀ p, place = some p → places p = some (head, tail)) :
    RightTable places r ((ElemType.pending place).note (Value.elementType r head tail) asked).2 := by
  cases place with
  | none => exact h
  | some place =>
      refine ⟨h.reached, fun p ty hNoted head' tail' hOwner => ?_⟩
      replace hNoted : (asked.modify place fun _ => some (Value.elementType r head tail))[p]? =
        some (some ty) := hNoted
      rw [Array.getElem?_modify] at hNoted
      split at hNoted
      · rename_i hSame
        subst hSame
        rw [hPlace place rfl] at hOwner
        cases hOwner
        obtain ⟨_, -, hNoted⟩ := Option.map_eq_some_iff.mp hNoted
        cases hNoted
        exact ⟨hHead, hTail, rfl⟩
      · exact h.noted p ty hNoted head' tail' hOwner

theorem known? (h : RightTable places r asked) {head tail : Value} {place : Option Nat}
    (hPlace : ∀ p, place = some p → places p = some (head, tail)) {ty : Ty}
    (hKnown : (ElemType.pending place).known? asked = some ty) :
    ty = Value.elementType r head tail := by
  cases place with
  | none => cases hKnown
  | some p =>
      have hNoted : asked[p]? = some (some ty) := Option.join_eq_some_iff.mp hKnown
      exact (h.noted p ty hNoted head tail (hPlace p rfl)).2.2

end RightTable

/-! ## Questions -/

namespace Value

section

variable {r : Registry} {asked : AskedTypes} {head tail : Value} {place : Option Nat}

/-- A cell whose type has been written down. -/
theorem typeOf_noted {ty : Ty} (h : (ElemType.pending place).known? asked = some ty) :
    (Value.cell head tail (.pending place)).typeOf r asked = (.list ty, asked) := by
  rw [typeOf]
  simp only [bind, StateT.bind, get, getThe, MonadStateOf.get, StateT.get, pure, h]
  rfl

/-- What a cell takes for its type, once its rest and its head have been asked. -/
def joined (r : Registry) (tail : Value) (after first : Ty) : Ty :=
  match tail, after with
  | .cell _ _ _, .list others => r.join first others
  | _, _ => first

/-- A cell whose type has not been written down asks its rest, and then its head. -/
theorem typeOf_unnoted (h : (ElemType.pending place).known? asked = none) :
    (Value.cell head tail (.pending place)).typeOf r asked =
      let after := tail.typeOf r asked
      let first := head.typeOf r after.2
      (.list (joined r tail after.1 first.1),
        ((ElemType.pending place).note (joined r tail after.1 first.1) first.2).2) := by
  rw [typeOf]
  simp only [bind, StateT.bind, get, getThe, MonadStateOf.get, StateT.get, pure, h]
  rfl

theorem joined_eq (r : Registry) (head tail : Value) :
    joined r tail (tail.uncachedType r) (head.uncachedType r) = elementType r head tail := by
  cases tail with
  | cell next rest elem => rfl
  | _ => rfl

end

/-- **Asking a known value gives its type worked out anew**, and keeps the table right. -/
theorem Known.typeOf {places : Places} {r : Registry} {v : Value} (h : v.Known places r) :
    ∀ {asked : AskedTypes}, RightTable places r asked →
      (v.typeOf r asked).1 = v.uncachedType r ∧ RightTable places r (v.typeOf r asked).2 := by
  have hFixed : ∀ {v : Value} {t : Ty}, v.Known places r → v.fixedType? = some t →
      ∀ {asked : AskedTypes}, RightTable places r asked →
        (v.typeOf r asked).1 = v.uncachedType r ∧ RightTable places r (v.typeOf r asked).2 := by
    intro v t h hType asked hTable
    rw [typeOf_of_fixedType? hType]
    exact ⟨h.eq_of_fixedType? hType, hTable⟩
  induction h with
  | @pending head tail place hHead hTail hPlace ihHead ihTail =>
      intro asked hTable
      cases hNoted : (ElemType.pending place).known? asked with
      | some ty =>
          rw [typeOf_noted hNoted, hTable.known? hPlace hNoted]
          exact ⟨rfl, hTable⟩
      | none =>
          obtain ⟨hAfter, hMiddle⟩ := ihTail hTable
          obtain ⟨hFirst, hLast⟩ := ihHead hMiddle
          rw [typeOf_unnoted hNoted]
          dsimp only
          rw [hAfter, hFirst, joined_eq]
          exact ⟨rfl, hLast.note hHead hTail hPlace⟩
  | fixed hHead hTail hElem => exact hFixed (.fixed hHead hTail hElem) rfl
  | int n => exact hFixed (.int n) rfl
  | bool b => exact hFixed (.bool b) rfl
  | str s => exact hFixed (.str s) rfl
  | nil => exact hFixed .nil rfl
  | lazy node => exact hFixed (.lazy node) rfl
  | func name => exact hFixed (.func name) rfl
  | lambda closure => exact hFixed (.lambda closure) rfl
  | tagged hTaken hInner => exact hFixed (.tagged hTaken hInner) rfl

/-- Whether a value satisfies a type is found out by asking for its own type. -/
theorem conforms_asked (r : Registry) (declared : Ty) (v : Value) (b : Bindings)
    (asked : AskedTypes) : (v.conforms r declared b asked).2 = (v.typeOf r asked).2 := by
  cases hCell : v.isCell with
  | true =>
      cases v with
      | cell head tail elem =>
          obtain ⟨ty, asked', hType⟩ := typeOf_cell r head tail elem asked
          rw [conforms_of_isCell rfl hType, hType]
      | _ => cases hCell
  | false =>
      rw [conforms_of_not_cell hCell, typeOf_of_fixedType? (fixedType?_of_not_cell hCell)]

end Value

/-! ## Histories -/

/-- Values that the language makes: atoms, what is put together and taken apart, and what has
been made before more types were declared.  The cells of a list may have places. -/
inductive Value.Built (places : Places) : Registry → Value → Prop
  | int {r : Registry} (n : Int) : Built places r (.int n)
  | bool {r : Registry} (b : Bool) : Built places r (.bool b)
  | str {r : Registry} (s : String) : Built places r (.str s)
  | nil {r : Registry} : Built places r .nil
  | lazy {r : Registry} (node : Nat) : Built places r (.lazy node)
  | func {r : Registry} (name : String) : Built places r (.func name)
  | lambda {r : Registry} (closure : Nat) : Built places r (.lambda closure)
  | cons {r : Registry} {head tail : Value} :
      Built places r head → Built places r tail → Built places r (Value.cons r head tail)
  | pending {r : Registry} {head tail : Value} {place : Option Nat} :
      Built places r head → Built places r tail →
      (∀ p, place = some p → places p = some (head, tail)) →
      Built places r (.cell head tail (.pending place))
  | tag {r : Registry} {name : String} {v : Value} :
      r.isTaken name = true → Built places r v → Built places r (v.tag name)
  | untagged {r : Registry} {v : Value} : Built places r v → Built places r v.untagged
  | head {r : Registry} {head tail : Value} {elem : ElemType} :
      Built places r (.cell head tail elem) → Built places r head
  | tail {r : Registry} {head tail : Value} {elem : ElemType} :
      Built places r (.cell head tail elem) → Built places r tail
  | later {r r' : Registry} {v : Value} :
      r.Reached → r.Declares r' → Built places r v → Built places r' v

theorem Value.Built.known {places : Places} {r : Registry} {v : Value} (h : v.Built places r) :
    v.Known places r := by
  induction h with
  | int n => exact .int n
  | bool b => exact .bool b
  | str s => exact .str s
  | nil => exact .nil
  | lazy node => exact .lazy node
  | func name => exact .func name
  | lambda closure => exact .lambda closure
  | cons _ _ ihHead ihTail => exact .cons ihHead ihTail
  | pending _ _ hPlace ihHead ihTail => exact .pending ihHead ihTail hPlace
  | tag hTaken _ ih => exact .tagged hTaken ih.untagged
  | untagged _ ih => exact ih.untagged
  | head _ ih => cases ih <;> assumption
  | tail _ ih => cases ih <;> assumption
  | later hr hMore _ ih => exact ih.declares hMore hr

/-- What a session makes is known, whichever cells have places. -/
theorem Value.Remade.known {r : Registry} {v : Value} (h : v.Remade r) (places : Places) :
    v.Known places r := by
  induction h with
  | int n => exact .int n
  | bool b => exact .bool b
  | str s => exact .str s
  | nil => exact .nil
  | lazy node => exact .lazy node
  | func name => exact .func name
  | lambda closure => exact .lambda closure
  | cell _ _ hElem _ ihHead ihTail => exact .fixed ihHead ihTail hElem
  | tagged _ _ hTaken ih => exact .tagged hTaken ih

/-- The declared types and the table after a history: values of the language have been given
places, asked for their types and compared with types, in any order, and types have been
declared in between. -/
inductive Asked (places : Places) : Registry → AskedTypes → Prop
  | start {r : Registry} : r.Reached → Asked places r #[]
  | place {r : Registry} {asked : AskedTypes} {v : Value} :
      Asked places r asked → (v.place asked).1.Built places r → Asked places r (v.place asked).2
  | typeOf {r : Registry} {asked : AskedTypes} {v : Value} :
      Asked places r asked → v.Built places r → Asked places r (v.typeOf r asked).2
  | conforms {r : Registry} {asked : AskedTypes} {v : Value} (declared : Ty) (b : Bindings) :
      Asked places r asked → v.Built places r → Asked places r (v.conforms r declared b asked).2
  | declares {r r' : Registry} {asked : AskedTypes} :
      Asked places r asked → r.Declares r' → Asked places r' asked

/-- **The table is right after every history.** -/
theorem Asked.right {places : Places} {r : Registry} {asked : AskedTypes}
    (h : Asked places r asked) : RightTable places r asked := by
  induction h with
  | start hr => exact .empty hr
  | place _ _ ih => exact ih.place _
  | typeOf _ hBuilt ih => exact (hBuilt.known.typeOf ih).2
  | conforms declared b _ hBuilt ih =>
      rw [Value.conforms_asked]
      exact (hBuilt.known.typeOf ih).2
  | declares _ hMore ih => exact ih.declares hMore

namespace Session

/-- **What is kept of element types cannot be seen.**  After every history of questions and
declarations, the type of a value of the language is what it is when it is worked out anew:
for a list, the join of the types of its strict elements from the last to the first, with the
declarations as they are now.  For the values that sessions make, which know their types from
the start, this is so whatever is in the table. -/
theorem element_types_transparent :
    (∀ (places : Places) (r : Registry) (asked : AskedTypes), Asked places r asked →
      ∀ v : Value, v.Built places r → (v.typeOf r asked).1 = v.uncachedType r) ∧
    ∀ (s : State) (v : Value) (asked : AskedTypes), Makes s v →
      (v.typeOf s.program.types asked).1 = v.uncachedType s.program.types := by
  refine ⟨fun places r asked hAsked v hBuilt => (hBuilt.known.typeOf hAsked.right).1, ?_⟩
  intro s v asked hMakes
  obtain ⟨hr, hRemade⟩ := hMakes.remade
  -- Cells that know their types have no places, so any table is right for them.
  have hTable : RightTable (fun _ => none) s.program.types asked := ⟨hr, nofun⟩
  exact ((hRemade.known _).typeOf hTable).1

/-- The result of a text or a run is a value that the session makes. -/
theorem Makes.result {s : State} {use : Use} {v : Value} (h : Plain s)
    (hResult : (use.perform s).1 = .ok v) : Makes (use.perform s).2 v :=
  .used use h (Prod.ext hResult rfl)

/-- The rest of a list, with the first place. -/
def restPlaced : Value := .cell (.int 2) .nil (.pending (some 0))

/-- The list, with a length in front and the second place. -/
def wholePlaced : Value := .cell (.tagged "metre" (.int 1)) restPlaced (.pending (some 1))

/-- The places of the two cells. -/
def twoPlaces : Places
  | 0 => some (.int 2, .nil)
  | 1 => some (.tagged "metre" (.int 1), restPlaced)
  | _ => none

theorem declares_lengths : Registry.Declares {} Registry.lengths := by
  have hMetre : Registry.declare {} "metre" Ty.int = .ok { parents := ⟨[("metre", Ty.int)]⟩ } := rfl
  have hLengths : Registry.declare { parents := ⟨[("metre", Ty.int)]⟩ } "lengths"
      (.list (.named "metre")) = .ok Registry.lengths := rfl
  exact .declare (.declare .refl hMetre) hLengths

/-- A session in which nothing has been loaded. -/
def unused : State := { Session.start {} with files := default, hosts := {} }

/-- A text that makes a list of lists. -/
def nesting : Use := .text (fun path => .error (.unread path)) 30 "(list (list 1) (list 2))"

/-- The rest is asked for its type, `metre` and `lengths` are declared, and the whole list is
asked; and a session makes a list of lists. -/
theorem element_types_transparent_of_rest :
    let asked : AskedTypes := #[some Ty.int]
    Asked twoPlaces Registry.lengths (asked.push none) ∧
      wholePlaced.Built twoPlaces Registry.lengths ∧
      (wholePlaced.typeOf Registry.lengths (asked.push none)).1 = .list Ty.int ∧
      ∃ v, Makes (nesting.perform unused).2 v ∧ (v.typeOf {} #[]).1 = .list (.list Ty.int) := by
  intro asked
  have hRest : restPlaced.Built twoPlaces {} := .pending (.int 2) .nil (by rintro p ⟨⟩; rfl)
  have hWhole : wholePlaced.Built twoPlaces Registry.lengths :=
    .pending (.tag (v := .int 1) rfl (.int 1)) (.later .empty declares_lengths hRest)
      (by rintro p ⟨⟩; rfl)
  have hFirst : Asked twoPlaces {} #[none] :=
    .place (v := .cell (.int 2) .nil (.pending none)) (.start .empty) hRest
  have hThen : Asked twoPlaces Registry.lengths asked := .declares (.typeOf hFirst hRest) declares_lengths
  have hSecond : Asked twoPlaces Registry.lengths (asked.push none) :=
    .place (v := .cell (.tagged "metre" (.int 1)) restPlaced (.pending none)) hThen hWhole
  refine ⟨hSecond, hWhole, ?_, ?_⟩
  · rw [element_types_transparent.1 _ _ _ hSecond _ hWhole]
    decide
  · have hResult : (nesting.perform unused).1 =
        .ok (Value.ofList {} [Value.ofList {} [.int 1], Value.ofList {} [.int 2]]) := by cbv
    have hTypes : (nesting.perform unused).2.program.types = {} := by cbv
    have hPlain : Plain unused := .start _ .empty
    have hMakes := Makes.result hPlain hResult
    have hType := element_types_transparent.2 _ _ #[] hMakes
    rw [hTypes] at hType
    exact ⟨_, hMakes, hType.trans (by decide)⟩

end Session

end ClauseLisp
