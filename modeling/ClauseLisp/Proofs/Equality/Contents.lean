import ClauseLisp.Value.Basic

/-!
# Contents of values

Equality of strict data looks through tags and takes no notice of what the cells know
of their types.  `Value.contents` is what it does look at, and two values are the same
exactly if their contents are equal.  It follows that sameness is an equivalence
relation, which the recursion on one of the two values does not show.

A tag is put on a value in place of the tag that it has, so no value carries two;
`Value.same` relies on this.

## Main results

* `Value.same_iff` — values are the same exactly if their contents are equal.
* `Value.same_equivalence` — sameness is an equivalence relation.
-/

namespace ClauseLisp

namespace Value

/-! ## What equality looks at -/

/-- A value without its tags and without what its cells know of their types. -/
def contents : Value → Value
  | .tagged _ value => contents value
  | .cell head tail _ => .cell (contents head) (contents tail) (.pending none)
  | value => value

/-- Whether a value is neither a list nor tagged. -/
def isAtom : Value → Bool
  | .int _ => true
  | .bool _ => true
  | .str _ => true
  | .func _ => true
  | .lambda _ => true
  | _ => false

/-- No part of the strict part of a value carries two tags. -/
def OnceTagged : Value → Prop
  | .tagged _ value => value.untagged = value ∧ OnceTagged value
  | .cell head tail _ => OnceTagged head ∧ OnceTagged tail
  | _ => True

variable {v w : Value}

@[simp] theorem contents_tagged (tag : String) (v : Value) :
    (Value.tagged tag v).contents = v.contents := rfl

@[simp] theorem contents_cell (head tail : Value) (elem : ElemType) :
    (Value.cell head tail elem).contents = .cell head.contents tail.contents (.pending none) := rfl

@[simp] theorem contents_untagged (v : Value) : v.untagged.contents = v.contents := by
  cases v <;> rfl

theorem OnceTagged.untagged (h : v.OnceTagged) : v.untagged.OnceTagged := by
  cases v with
  | tagged tag value => exact h.2
  | _ => exact h

/-- A tag is not its own content. -/
theorem ne_tagged_of_untagged_eq (h : v.untagged = v) (tag : String) (value : Value) :
    v ≠ .tagged tag value := by
  rintro rfl
  have hSize := congrArg sizeOf h
  simp only [Value.untagged, tagged.sizeOf_spec] at hSize
  omega

/-- Under its tag a value carries none. -/
theorem OnceTagged.untagged_ne (h : v.OnceTagged) (tag : String) (value : Value) :
    v.untagged ≠ .tagged tag value := by
  cases v with
  | tagged tag' value' => exact ne_tagged_of_untagged_eq h.1 tag value
  | _ => exact ne_tagged_of_untagged_eq rfl tag value

/-- Whether a value is a list does not depend on its tag. -/
theorem OnceTagged.isList_tagged {tag : String} (h : (Value.tagged tag v).OnceTagged) :
    (Value.tagged tag v).isList = v.isList := by
  rw [isList, isList, Value.untagged, h.1]

theorem OnceTagged.isList_contents (h : v.OnceTagged) : v.contents.isList = v.isList := by
  induction v with
  | tagged tag value ih => rw [contents_tagged, ih h.2, h.isList_tagged]
  | _ => rfl

/-! ## Sameness -/

/-- **Values are the same exactly if their contents are equal.** -/
theorem same_iff (hv : v.OnceTagged) (hw : w.OnceTagged) :
    v.same w = true ↔ v.contents = w.contents := by
  induction v generalizing w with
  | tagged tag value ih => exact ih hv.2 hw
  | cell head tail elem ihHead ihTail =>
      have hInner := hw.untagged
      rw [← contents_untagged w, same]
      cases hUntagged : w.untagged with
      | cell head' tail' elem' =>
          rw [hUntagged] at hInner
          simp only [Bool.and_eq_true, ihHead hv.1 hInner.1, ihTail hv.2 hInner.2, contents_cell,
            cell.injEq, and_true]
      | tagged tag value => exact absurd hUntagged (hw.untagged_ne tag value)
      | _ => simp [contents]
  | nil =>
      rw [← contents_untagged w, same, isNil]
      cases hUntagged : w.untagged with
      | tagged tag value => exact absurd hUntagged (hw.untagged_ne tag value)
      | _ => simp [contents]
  | _ =>
      rw [← contents_untagged w, same]
      cases hUntagged : w.untagged with
      | tagged tag value => exact absurd hUntagged (hw.untagged_ne tag value)
      | _ => simp [contents]

/-- **Sameness is an equivalence relation** on values that carry no two tags. -/
theorem same_equivalence :
    (∀ v : Value, v.OnceTagged → v.same v = true) ∧
    (∀ v w : Value, v.OnceTagged → w.OnceTagged → v.same w = true → w.same v = true) ∧
    (∀ v w u : Value, v.OnceTagged → w.OnceTagged → u.OnceTagged →
      v.same w = true → w.same u = true → v.same u = true) := by
  refine ⟨fun v hv => (same_iff hv hv).mpr rfl, fun v w hv hw h => ?_,
    fun v w u hv hw hu h h' => ?_⟩
  · exact (same_iff hw hv).mpr ((same_iff hv hw).mp h).symm
  · exact (same_iff hv hu).mpr (((same_iff hv hw).mp h).trans ((same_iff hw hu).mp h'))

end Value

end ClauseLisp
