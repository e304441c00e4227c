import ClauseLisp.Proofs.Types.JoinAll
import ClauseLisp.Proofs.Types.Stability
import ClauseLisp.Proofs.Values.Canonical

/-!
# Lists and their elements

Whether a strict list satisfies a list type is not found out from its elements one
by one.  Their types have been joined to one type, and that one is matched.  So the list
is what its elements are as far as the join says no more and no less than its types.

It says less in two ways.  A blank element, which satisfies every list type, counts as
a list of `any`, so nothing but that is left of the lists beside it.  And the join may
overlook what its types have in common.  It says more in one way: bare `func` is matched
with every signature, whichever signatures it has been joined from.

A cell may have been made long before it is asked.  It knows what a new cell would know
(`Value.Remade`), so for lists that a session makes it is enough to look at lists that
are made now.

## Main results

* `Value.typeOf_ofList` — the type of a strict list is the join of those of its elements.
* `Value.conforms_iff` — what satisfies a type without variables.
* `Value.remade_lasting` — what a session makes knows what it would know if it were made now.
* `Session.lists_elementwise` — how far strict lists are what their elements are.
-/

namespace ClauseLisp

open Ty (Registry Bindings)

namespace Value

/-- Whether a value is an empty list or a lazy one, which satisfies every list type. -/
def isBlank : Value → Bool
  | .nil => true
  | .lazy _ => true
  | _ => false

/-- The type of a value, with the types that have been asked for. -/
abbrev typeIn (r : Registry) (asked : AskedTypes) (v : Value) : Ty := (v.typeOf r asked).1

/-! ## The type of a strict list -/

theorem fixedJoin?_eq {r : Registry} {a b t : Ty} (h : r.fixedJoin? a b = some t) :
    t = r.join a b := by
  unfold Registry.fixedJoin? at h
  split at h
  · rename_i hSame
    cases h
    subst hSame
    exact (Registry.join_of_le (Registry.le_self r a)).symm
  · split at h
    · cases h
      rfl
    · cases h

/-- A cell in front of a cell knows the join of two types that are fixed, or nothing. -/
theorem elemTypeOf_cell (r : Registry) (head next rest : Value) (elem : ElemType) :
    elemTypeOf r head (.cell next rest elem) = .pending none ∨
      ∃ first others, head.fixedType? = some first ∧ elem = .fixed others ∧
        elemTypeOf r head (.cell next rest elem) = .fixed (r.join first others) := by
  cases hFixed : head.fixedType? with
  | none => cases elem <;> simp [elemTypeOf, hFixed]
  | some first =>
      cases elem with
      | pending place => simp [elemTypeOf, hFixed]
      | fixed others =>
          cases hJoin : r.fixedJoin? first others with
          | none => simp [elemTypeOf, hFixed, hJoin]
          | some ty =>
              refine .inr ⟨first, others, rfl, rfl, ?_⟩
              rw [← fixedJoin?_eq hJoin]
              simp [elemTypeOf, hFixed, hJoin]

/-- A cell without a place works its type out anew: the tail comes first, then the head. -/
theorem typeOf_unplaced (r : Registry) (head tail : Value) (asked : AskedTypes) :
    (Value.cell head tail (.pending none)).typeOf r asked =
      (.list
        (match tail, (tail.typeOf r asked).1 with
          | .cell _ _ _, .list others => r.join (head.typeOf r (tail.typeOf r asked).2).1 others
          | _, _ => (head.typeOf r (tail.typeOf r asked).2).1),
        (head.typeOf r (tail.typeOf r asked).2).2) := by
  rw [typeOf]
  rfl

section

variable {r : Registry} {asked : AskedTypes} {head tail : Value} {first : Ty}
  (hHead : head.typeOf r asked = (first, asked))

include hHead

theorem eq_of_fixedType? {t : Ty} (h : head.fixedType? = some t) : t = first := by
  rw [typeOf_of_fixedType? h] at hHead
  exact (Prod.mk.inj hHead).1

/-- A new cell in front of the empty list has the type of its head as element type. -/
theorem typeOf_cons_nil : (cons r head .nil).typeOf r asked = (.list first, asked) := by
  cases hFixed : head.fixedType? with
  | some t =>
      have hElem : elemTypeOf r head .nil = .fixed t := by simp [elemTypeOf, hFixed]
      rw [cons, hElem, eq_of_fixedType? hHead hFixed]
      rfl
  | none =>
      have hElem : elemTypeOf r head .nil = .pending none := by simp [elemTypeOf, hFixed]
      rw [cons, hElem, typeOf_unplaced]
      show (Ty.list (head.typeOf r asked).1, (head.typeOf r asked).2) = _
      rw [hHead]

/-- A new cell in front of a cell joins the type of its head to the element type that follows. -/
theorem typeOf_cons_cell {others : Ty} (hCell : tail.isCell = true)
    (hTail : tail.typeOf r asked = (.list others, asked)) :
    (cons r head tail).typeOf r asked = (.list (r.join first others), asked) := by
  cases tail with
  | cell next rest elem =>
      rcases elemTypeOf_cell r head next rest elem with hElem | ⟨t, known, hFixed, rfl, hElem⟩
      · -- A cell that is not fixed works out the same join when it is asked.
        rw [cons, hElem, typeOf_unplaced, hTail]
        show (Ty.list (r.join (head.typeOf r asked).1 others), (head.typeOf r asked).2) = _
        rw [hHead]
      · cases hTail
        rw [cons, hElem, eq_of_fixedType? hHead hFixed]
        rfl
  | _ => cases hCell

end

/-- **The type of a strict list is the join of the types of its elements**, if asking for these
leaves what has been asked for as it is. -/
theorem typeOf_ofList {r : Registry} {asked : AskedTypes} :
    ∀ {items : List Value}, items ≠ [] → (∀ x ∈ items, (x.typeOf r asked).2 = asked) →
      (ofList r items).typeOf r asked = (.list (r.joinAll (items.map (typeIn r asked))), asked) := by
  intro items
  induction items with
  | nil => exact fun h => absurd rfl h
  | cons x xs ih =>
      intro _ hSettled
      rw [List.forall_mem_cons] at hSettled
      have hHead : x.typeOf r asked = (x.typeIn r asked, asked) := Prod.ext rfl hSettled.1
      cases xs with
      | nil => exact typeOf_cons_nil hHead
      | cons y ys => exact typeOf_cons_cell hHead rfl (ih nofun hSettled.2)

/-! ## What satisfies a type without variables -/

theorem typeOf_cell (r : Registry) (head tail : Value) (elem : ElemType) (asked : AskedTypes) :
    ∃ ty asked', (Value.cell head tail elem).typeOf r asked = (.list ty, asked') := by
  rw [typeOf]
  simp only [bind, StateT.bind, get, getThe, MonadStateOf.get, StateT.get, pure]
  -- What the cell knows is its type, or else it is worked out.
  cases elem.known? asked <;> exact ⟨_, _, rfl⟩

/-- A list that starts with a strict cell satisfies a list type if its element type does. -/
theorem conforms_of_isCell {r : Registry} {v : Value} (hCell : v.isCell = true)
    {asked asked' : AskedTypes} {ty : Ty} (h : v.typeOf r asked = (.list ty, asked'))
    (declared : Ty) (b : Bindings) :
    v.conforms r declared b asked =
      ((match declared with
        | .list d => r.unify d ty b
        | declared => r.unify declared (.list ty) b), asked') := by
  cases v with
  | cell head tail elem =>
      unfold conforms
      simp only [bind, StateT.bind, h]
      cases declared <;> rfl
  | _ => cases hCell

/-- A value that is no list satisfies what its type does. -/
theorem conforms_of_not_blank {v : Value} (hCell : v.isCell = false) (hBlank : v.isBlank = false)
    (r : Registry) (declared : Ty) (b : Bindings) (asked : AskedTypes) :
    v.conforms r declared b asked = (r.unify declared v.plainType b, asked) := by
  cases v with
  | cell head tail elem => cases hCell
  | nil => cases hBlank
  | lazy node => cases hBlank
  | _ => cases declared <;> rfl

theorem typeIn_of_isBlank {v : Value} (h : v.isBlank = true) (r : Registry) (asked : AskedTypes) :
    v.typeIn r asked = Ty.listAny := by
  cases v with
  | nil => rfl
  | lazy node => rfl
  | _ => cases h

/-- **What satisfies a type without variables**: what is of a type below it, and where it is a
list type, blank lists. -/
theorem conforms_iff {r : Registry} (hr : r.Reached) {asked : AskedTypes} {v : Value}
    {declared : Ty} (b : Bindings) (hClosed : declared.hasVars = false)
    (hLow : r.fullHeight (v.typeIn r asked) < Ty.maxDepth) :
    (v.conforms r declared b asked).1.1 = true ↔
      (v.isBlank = true ∧ ∃ d, declared = .list d) ∨ r.Below (v.typeIn r asked) declared := by
  have hUnify : (r.unify declared (v.typeIn r asked) b).1 = true ↔
      r.Below (v.typeIn r asked) declared := Registry.unify_eq_true_iff_below hr hClosed hLow
  cases hCell : v.isCell with
  | true =>
      cases v with
      | cell head tail elem =>
          obtain ⟨ty, asked', hType⟩ := typeOf_cell r head tail elem asked
          rw [typeIn, hType] at hLow hUnify ⊢
          rw [conforms_of_isCell rfl hType, or_iff_right (fun h => nomatch h.1)]
          cases declared with
          | list d =>
              rw [Registry.fullHeight_list] at hLow
              rw [Registry.Below.list_iff]
              exact Registry.unify_eq_true_iff_below hr hClosed (by omega)
          | _ => exact hUnify
      | _ => cases hCell
  | false =>
      have hType : v.typeIn r asked = v.plainType := by
        rw [typeIn, typeOf_of_fixedType? (fixedType?_of_not_cell hCell)]
      rw [hType] at hUnify ⊢
      cases hBlank : v.isBlank with
      | true =>
          have hPlain : v.plainType = Ty.listAny :=
            hType.symm.trans (typeIn_of_isBlank hBlank r asked)
          rw [hPlain] at hUnify
          rw [conforms_of_not_cell hCell, hPlain]
          cases declared with
          | list d => exact iff_of_true rfl (.inl ⟨rfl, d, rfl⟩)
          | _ => exact hUnify.trans (or_iff_right nofun).symm
      | false =>
          rw [conforms_of_not_blank hCell hBlank]
          exact hUnify.trans (or_iff_right nofun).symm

/-! ## Lists made anew -/

/-- Values whose cells know what they would know if they were made now, and what no declaration
to come can change. -/
inductive Remade (r : Registry) : Value → Prop
  | int (n : Int) : Remade r (.int n)
  | bool (b : Bool) : Remade r (.bool b)
  | str (s : String) : Remade r (.str s)
  | nil : Remade r .nil
  | lazy (node : Nat) : Remade r (.lazy node)
  | func (name : String) : Remade r (.func name)
  | lambda (closure : Nat) : Remade r (.lambda closure)
  | cell {head tail : Value} {ty : Ty} :
      Remade r head → Remade r tail → elemTypeOf r head tail = .fixed ty → r.knows ty = true →
      Remade r (.cell head tail (.fixed ty))
  | tagged {name : String} {v : Value} :
      Remade r v → v.untagged = v → r.isTaken name = true → Remade r (.tagged name v)

namespace Remade

variable {r : Registry} {v : Value}

theorem untagged (h : v.Remade r) : v.untagged.Remade r := by
  cases h with
  | tagged hInner => exact hInner
  | cell hHead hTail hElem hKnown => exact .cell hHead hTail hElem hKnown
  | int n => exact .int n
  | bool b => exact .bool b
  | str s => exact .str s
  | nil => exact .nil
  | lazy node => exact .lazy node
  | func name => exact .func name
  | lambda closure => exact .lambda closure

theorem bare (h : v.Remade r) : v.untagged.untagged = v.untagged := by
  cases h with
  | tagged _ hBare => exact hBare
  | _ => rfl

theorem typed (h : v.Remade r) : ∃ t, v.fixedType? = some t ∧ r.knows t = true := by
  cases h with
  | @cell _ _ ty _ _ _ hKnown => exact ⟨.list ty, rfl, hKnown⟩
  | @tagged name _ _ _ hTaken => exact ⟨.named name, rfl, hTaken⟩
  | _ => exact ⟨_, rfl, rfl⟩

/-- Declarations to come leave what a cell would know as it is. -/
theorem declares (h : v.Remade r) (hr : r.Reached) {r' : Registry} (hMore : r.Declares r') :
    v.Remade r' := by
  induction h with
  | int n => exact .int n
  | bool b => exact .bool b
  | str s => exact .str s
  | nil => exact .nil
  | lazy node => exact .lazy node
  | func name => exact .func name
  | lambda closure => exact .lambda closure
  | tagged _ hBare hTaken ih => exact .tagged ih hBare (hMore.isTaken hTaken)
  | @cell head tail ty hHead hTail hElem hKnown ihHead ihTail =>
      refine .cell ihHead ihTail ?_ (hMore.knows hKnown)
      obtain ⟨first, hFirst, hFirstKnown⟩ := hHead.typed
      cases hTail with
      | @cell next rest others _ _ _ hOthersKnown =>
          have hSame : r'.fixedJoin? first others = r.fixedJoin? first others := by
            rw [Registry.fixedJoin?, Registry.fixedJoin?, hMore.join hr hFirstKnown hOthersKnown,
              hMore.knows hFirstKnown, hMore.knows hOthersKnown, hFirstKnown, hOthersKnown]
          simp only [elemTypeOf, hFirst] at hElem ⊢
          rw [hSame]
          exact hElem
      | _ => simpa only [elemTypeOf, hFirst] using hElem

/-- A cell in front of a list without a tag. -/
theorem cons (hr : r.Reached) {head tail : Value} (hHead : head.Remade r) (hTail : tail.Remade r) :
    (Value.cons r head tail).Remade r := by
  obtain ⟨first, hFirst, hKnown⟩ := hHead.typed
  have hMade : ∀ {ty : Ty}, elemTypeOf r head tail = .fixed ty → r.knows ty = true →
      (Value.cons r head tail).Remade r := by
    intro ty hElem hKnown
    rw [Value.cons, hElem]
    exact .cell hHead hTail hElem hKnown
  cases hTail with
  | @cell next rest others _ _ _ hOthersKnown =>
      obtain ⟨ty, hJoin, hUp⟩ := Registry.exists_fixedJoin? hr hKnown hOthersKnown
      exact hMade (by simp [elemTypeOf, hFirst, hJoin]) (hUp.known hKnown hOthersKnown)
  | _ => exact hMade (by simp [elemTypeOf, hFirst]) hKnown

/-- A strict chain is made of its heads, one cell in front of the other. -/
theorem eq_ofList : ∀ {v : Value} {done rev : List Value}, v.Remade r →
    strictPart done v = (rev, .nil) →
    ∃ items, rev = items.reverse ++ done ∧ v = ofList r items ∧ ∀ x ∈ items, x.Remade r := by
  intro v
  induction v with
  | nil =>
      intro done rev _ h
      cases h
      exact ⟨[], rfl, rfl, List.forall_mem_nil _⟩
  | cell head tail elem _ ih =>
      intro done rev hv h
      cases hv with
      | cell hHead hTail hElem _ =>
          obtain ⟨items, rfl, rfl, hItems⟩ := ih hTail h
          refine ⟨head :: items, by simp, ?_, List.forall_mem_cons.mpr ⟨hHead, hItems⟩⟩
          rw [← hElem]
          rfl
  | _ =>
    intro done rev _ h
    cases h

end Remade

/-- **Values that are made by the language know what they would know if they were made now.** -/
theorem remade_lasting : Value.Lasting fun r v => r.Reached ∧ v.Remade r where
  declares h hMore := ⟨hMore.reached h.1, h.2.declares h.1 hMore⟩
  hereditary hr :=
    { int := fun n => ⟨hr, .int n⟩
      bool := fun b => ⟨hr, .bool b⟩
      str := fun s => ⟨hr, .str s⟩
      nil := ⟨hr, .nil⟩
      lazy := fun node => ⟨hr, .lazy node⟩
      func := fun name => ⟨hr, .func name⟩
      lambda := fun closure => ⟨hr, .lambda closure⟩
      untagged := fun h => ⟨hr, h.2.untagged⟩
      bare := fun h => h.2.bare
      head := fun h => by
        cases h.2 with
        | cell hHead => exact ⟨hr, hHead⟩
      tail := fun h => by
        cases h.2 with
        | cell _ hTail => exact ⟨hr, hTail⟩
      fixed := fun h => by
        cases h.2 with
        | cell => exact ⟨_, rfl⟩
      cons := fun hHead hTail _ => ⟨hr, .cons hr hHead.2 hTail.2.untagged⟩
      tag := fun hParent hv _ =>
        ⟨hr, .tagged hv.2.untagged hv.2.bare (Registry.isTaken_of_parent? hParent)⟩ }

/-! ## Lists and their elements -/

/-- Whether a value satisfies a type, with the types that have been asked for. -/
abbrev satisfies (r : Registry) (asked : AskedTypes) (ty : Ty) (b : Bindings) (v : Value) : Bool :=
  (v.conforms r ty b asked).1.1

/-- What the type of a strict list and the types of its elements say of one another, for types
without variables. -/
structure Elementwise (r : Registry) (asked : AskedTypes) (items : List Value) (v : Value) :
    Prop where
  /-- The list is judged by the join of the types of its elements. -/
  joined : items ≠ [] → ∀ (ty : Ty) (b : Bindings), ty.hasVars = false →
    v.satisfies r asked (.list ty) b = r.le (r.joinAll (items.map (typeIn r asked))) ty
  /-- The elements satisfy what the list does, unless the join is bare `func` and so says nothing
  of their signatures. -/
  elements : ∀ (ty : Ty) (b : Bindings), ty.hasVars = false →
    ((r.joinAll (items.map (typeIn r asked))).isFuncTower = true → ty.isArrowTower = false) →
    v.satisfies r asked (.list ty) b = true → ∀ x ∈ items, x.satisfies r asked ty b = true
  /-- The list satisfies what its elements do, unless the join overlooks something or an element
  is blank. -/
  list : ∀ (ty : Ty) (b : Bindings), ty.hasVars = false →
    r.JoinsSeen (items.map (typeIn r asked)) →
    (∀ elem, ty = .list elem → elem ≠ Ty.any → ∀ x ∈ items, x.isBlank = false) →
    (∀ x ∈ items, x.satisfies r asked ty b = true) → v.satisfies r asked (.list ty) b = true
  /-- Beside a blank element, no list is known for more than a list of `any`. -/
  blank : ∀ (elem : Ty) (b : Bindings), elem.hasVars = false → elem ≠ Ty.any →
    ∀ x ∈ items, x.isBlank = true → v.satisfies r asked (.list (.list elem)) b = false

/-- What is above all lists is below lists of `any` only. -/
theorem eq_any_of_below_list {r : Registry} (hr : r.Reached) {t elem : Ty}
    (hAbove : r.Below Ty.listAny t) (hBelow : r.Below t (.list elem)) : elem = Ty.any := by
  have hNot : Ty.isFuncTower t = false := by
    cases hAbove with
    | refl => rfl
    | top => rfl
    | list hAny =>
        rw [hAny.eq_any hr]
        rfl
  exact Registry.Below.eq_any hr (Registry.Below.list_iff.mp (hAbove.trans hr hNot hBelow))

section

variable {r : Registry} (hr : r.Reached) {asked : AskedTypes} {items : List Value}
  (hLow : ∀ x ∈ items, r.fullHeight (x.typeIn r asked) < Ty.maxDepth)

include hr hLow

theorem fullHeight_joinAll_items_lt :
    r.fullHeight (r.joinAll (items.map (typeIn r asked))) < Ty.maxDepth :=
  Registry.fullHeight_joinAll_lt hr (List.forall_mem_map.mpr hLow)

omit hr in
theorem height_items_lt : ∀ t ∈ items.map (typeIn r asked), r.height t < Ty.maxDepth :=
  List.forall_mem_map.mpr fun x hx =>
    Nat.lt_of_le_of_lt (Registry.height_le_fullHeight r _) (hLow x hx)

/-- The type of an element is below the join. -/
theorem below_joinAll_items :
    ∀ x ∈ items, r.Below (x.typeIn r asked) (r.joinAll (items.map (typeIn r asked))) :=
  fun _ hx => Registry.below_joinAll hr (height_items_lt hLow) _ (List.mem_map_of_mem hx)

/-- Elements satisfy what is above the join, unless bare `func` is in between. -/
theorem satisfies_of_joinAll_below {ty : Ty} (b : Bindings) (hClosed : ty.hasVars = false)
    (hSigned : (r.joinAll (items.map (typeIn r asked))).isFuncTower = true →
      ty.isArrowTower = false)
    (hJoin : r.Below (r.joinAll (items.map (typeIn r asked))) ty) :
    ∀ x ∈ items, x.satisfies r asked ty b = true := by
  intro x hx
  have hAbove := below_joinAll_items hr hLow x hx
  refine (conforms_iff hr b hClosed (hLow x hx)).mpr (.inr ?_)
  cases hBare : (r.joinAll (items.map (typeIn r asked))).isFuncTower with
  | false => exact hAbove.trans hr hBare hJoin
  | true =>
      rcases Registry.widens_or_isArrowTower hBare hJoin with hWidens | hArrow
      · exact hWidens _ hAbove
      · rw [hSigned hBare] at hArrow
        cases hArrow

/-- The join is below what all elements satisfy, unless they satisfy it because they are blank. -/
theorem joinAll_below_of_satisfies (hItems : items ≠ []) {ty : Ty} (b : Bindings)
    (hClosed : ty.hasVars = false) (hSeen : r.JoinsSeen (items.map (typeIn r asked)))
    (hFull : ∀ elem, ty = .list elem → elem ≠ Ty.any → ∀ x ∈ items, x.isBlank = false)
    (hSat : ∀ x ∈ items, x.satisfies r asked ty b = true) :
    r.Below (r.joinAll (items.map (typeIn r asked))) ty := by
  refine Registry.joinAll_below hr (by simpa using hItems) (height_items_lt hLow) hSeen
    (List.forall_mem_map.mpr fun x hx => ?_)
  rcases (conforms_iff hr b hClosed (hLow x hx)).mp (hSat x hx) with ⟨hBlank, elem, rfl⟩ | hBelow
  · -- A blank element satisfies every list type, but its own type is `list` of `any`.
    by_cases hAny : elem = Ty.any
    · subst hAny
      rw [typeIn_of_isBlank hBlank]
      exact .refl _
    · rw [hFull elem rfl hAny x hx] at hBlank
      cases hBlank
  · exact hBelow

variable (hSettled : ∀ x ∈ items, (x.typeOf r asked).2 = asked)

include hSettled

/-- **A strict list satisfies the list types whose elements are above the join** of the types of
its elements. -/
theorem satisfies_ofList_iff (hItems : items ≠ []) {ty : Ty} (b : Bindings)
    (hClosed : ty.hasVars = false) :
    (ofList r items).satisfies r asked (.list ty) b = true ↔
      r.Below (r.joinAll (items.map (typeIn r asked))) ty := by
  have hType := typeOf_ofList hItems hSettled
  have hJoin := fullHeight_joinAll_items_lt hr hLow
  obtain ⟨first, others, rfl⟩ := List.exists_cons_of_ne_nil hItems
  rw [satisfies, conforms_of_isCell rfl hType]
  exact Registry.unify_eq_true_iff_below hr hClosed hJoin

/-- **Strict lists and their elements**, if asking for the types of the elements leaves what has
been asked for as it is. -/
theorem elementwise_ofList : (ofList r items).Elementwise r asked items where
  joined hItems ty b hClosed := by
    have hJoin := fullHeight_joinAll_items_lt hr hLow
    rw [Bool.eq_iff_iff, satisfies_ofList_iff hr hLow hSettled hItems b hClosed,
      Registry.le_eq_true_iff_below hr]
    exact Nat.lt_of_le_of_lt (Registry.height_le_fullHeight r _) hJoin
  elements ty b hClosed hSigned hSat x hx := by
    have hItems : items ≠ [] := List.ne_nil_of_mem hx
    have hJoin := (satisfies_ofList_iff hr hLow hSettled hItems b hClosed).mp hSat
    exact satisfies_of_joinAll_below hr hLow b hClosed hSigned hJoin x hx
  list ty b hClosed hSeen hFull hSat := by
    by_cases hItems : items = []
    · subst hItems
      rfl
    · refine (satisfies_ofList_iff hr hLow hSettled hItems b hClosed).mpr ?_
      exact joinAll_below_of_satisfies hr hLow hItems b hClosed hSeen hFull hSat
  blank elem b hClosed hElem x hx hBlank := by
    rw [Bool.eq_false_iff]
    intro hSat
    have hItems : items ≠ [] := List.ne_nil_of_mem hx
    have hClosed' : (Ty.list elem).hasVars = false := hClosed
    have hJoin := (satisfies_ofList_iff hr hLow hSettled hItems b hClosed').mp hSat
    have hAbove := below_joinAll_items hr hLow x hx
    rw [typeIn_of_isBlank hBlank] at hAbove
    exact hElem (eq_any_of_below_list hr hAbove hJoin)

end

end Value

namespace Session

/-- The values of sessions to which the host adds nothing: what the machine contains, and
the results of texts, of runs and of whatever form is evaluated. -/
inductive Makes : State → Value → Prop
  | contained {s : State} {v : Value} : Plain s → s.Contains v → Makes s v
  | used {s s' : State} {v : Value} (use : Use) :
      Plain s → use.perform s = (.ok v, s') → Makes s' v
  | worked {s s' : State} {v : Value} {task : Task} {allowSet : Bool} (fuel level : Nat) :
      Plain s → Form.Lowered s.program.types allowSet task.expr →
      exec fuel level (.work task) s = (.ok v, s') → Makes s' v

theorem Makes.remade {s : State} {v : Value} (h : Makes s v) :
    s.program.types.Reached ∧ v.Remade s.program.types := by
  cases h with
  | contained hPlain hv =>
      have hSound := hPlain.sound Value.remade_lasting
      exact hSound.carries.contains (Value.remade_lasting.hereditary hSound.reached) hv
  | used use hPlain hRun =>
      have hResult := (perform_sound Value.remade_lasting (hPlain.sound Value.remade_lasting) use).2
      rw [hRun] at hResult
      exact hResult v rfl
  | worked fuel level hPlain hTask hRun =>
      have hSound := hPlain.sound Value.remade_lasting
      have hResult := (work_sound Value.remade_lasting hSound hTask fuel level).2
      rw [hRun] at hResult
      exact hResult v rfl

/-- **Strict lists and their elements.**  The lists are those that are made with a registry
which declarations lead to, from values that have been asked for their types, and all strict
lists that a session makes.  The types of the elements are no higher than a match follows. -/
theorem lists_elementwise {r : Registry} (hr : r.Reached) :
    (∀ (items : List Value) (asked : AskedTypes),
      (∀ x ∈ items, (x.typeOf r asked).2 = asked) →
      (∀ x ∈ items, r.fullHeight (x.typeIn r asked) < Ty.maxDepth) →
      (Value.ofList r items).Elementwise r asked items) ∧
      ∀ (s : State) (v : Value) (items : List Value) (asked : AskedTypes),
        Makes s v → s.program.types = r → v.untagged = v → v.items? = some items →
        (∀ x ∈ items, r.fullHeight (x.typeIn r asked) < Ty.maxDepth) →
        v.Elementwise r asked items := by
  refine ⟨fun items asked hSettled hLow => Value.elementwise_ofList hr hLow hSettled, ?_⟩
  rintro s v items asked hMakes rfl hBare hItems hLow
  obtain ⟨-, hRemade⟩ := hMakes.remade
  rw [Value.items?, hBare] at hItems
  split at hItems
  · rename_i rev hStrict
    cases hItems
    obtain ⟨items, rfl, rfl, hParts⟩ := hRemade.eq_ofList hStrict
    simp only [List.append_nil, List.reverse_reverse] at hLow ⊢
    refine Value.elementwise_ofList hr hLow fun x hx => ?_
    obtain ⟨t, hFixed, -⟩ := (hParts x hx).typed
    rw [Value.typeOf_of_fixedType? hFixed]
  · cases hItems

/-- A list of a list of lengths and a list of a number: both are lists of numbers, so
it is a list of such lists. -/
theorem lists_elementwise_of_lengths :
    Registry.lengths.Reached ∧
      (Value.ofList Registry.lengths
        [Value.ofList Registry.lengths [.tagged "metre" (.int 1)],
          Value.ofList Registry.lengths [.int 2]]).satisfies Registry.lengths #[]
          (.list (.list Ty.int)) {} = true := by
  refine ⟨Registry.reached_lengths, ?_⟩
  have hLists := (lists_elementwise Registry.reached_lengths).1
    [Value.ofList Registry.lengths [.tagged "metre" (.int 1)],
      Value.ofList Registry.lengths [.int 2]] #[] (by decide) (by decide)
  refine hLists.list _ _ rfl ⟨?_, trivial⟩ ?_ (by decide)
  · -- The join goes from lists to their elements, and `metre` is below `int`.
    rintro (_ | _ | hElem | _)
    rcases hElem with _ | _ | _ | ⟨hMetre, -, hUp⟩
    cases hMetre
    rcases hUp with _ | _ | _ | ⟨hInt, -, -⟩
    cases hInt
  · intro elem hElem _ x hx
    rcases List.mem_cons.mp hx with rfl | hx
    · rfl
    · rw [List.mem_singleton.mp hx]
      rfl

/-- The registry with `handler` below the functions from numbers to numbers. -/
def handlers : Registry :=
  { parents := ⟨[("handler", .arrow [Ty.int] Ty.int)]⟩ }

theorem reached_handlers : handlers.Reached := by
  have hHandler : Registry.declare {} "handler" (.arrow [Ty.int] Ty.int) = .ok handlers := rfl
  exact .declare .empty hHandler

/-- **Lists that are not what their elements are.**  Both elements are lists of numbers, but
one is empty; both are lists, but their join overlooks it; and two functions have bare `func`
in common, so the list passes for one of functions on text, which an element is not. -/
theorem lists_not_elementwise :
    Registry.lengths.Reached ∧ handlers.Reached ∧
      (let items := [Value.ofList Registry.lengths [.int 1], .nil];
        (∀ x ∈ items, x.satisfies Registry.lengths #[] (.list Ty.int) {} = true) ∧
          (Value.ofList Registry.lengths items).satisfies Registry.lengths #[]
            (.list (.list Ty.int)) {} = false) ∧
      (let items := [Value.ofList Registry.lengths [.str "a"],
          .tagged "lengths" (Value.ofList Registry.lengths [.tagged "metre" (.int 1)])];
        (∀ x ∈ items, x.satisfies Registry.lengths #[] Ty.listAny {} = true) ∧
          (Value.ofList Registry.lengths items).satisfies Registry.lengths #[]
            (.list Ty.listAny) {} = false) ∧
      (let items := [Value.func "f", .tagged "handler" (.func "f")];
        (Value.ofList handlers items).satisfies handlers #[]
            (.list (.arrow [Ty.str] Ty.str)) {} = true ∧
          ∃ x ∈ items, x.satisfies handlers #[] (.arrow [Ty.str] Ty.str) {} = false) :=
  ⟨Registry.reached_lengths, reached_handlers, by decide, by decide, by decide⟩

end Session

end ClauseLisp
