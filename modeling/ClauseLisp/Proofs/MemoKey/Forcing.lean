import ClauseLisp.Machine.Eval
import ClauseLisp.Proofs.MemoKey.Datum
import ClauseLisp.Proofs.Run

/-!
# Keys of calls

Working a value out forces its lazy lists one after the other, element by
element, and each forced node may change the state.  `Forces` says what datum
comes of it and in which state it leaves the machine; there is no fuel in it,
so a value that is related to a datum is finite at every level and all its
iterators answer.

The key of a call is the text of the data that its arguments amount to, so two
keys agree exactly if the data do.

## Main results

* `valueKey_of_forces`, `forces_of_valueKey` — the key of a value is that of its
  datum, and values without a datum have no key.
* `callKey_eq_iff_same_data` — two calls have the same key if and only if their arguments
  amount to the same data.
-/

namespace ClauseLisp

open Run

/-- Working a value out from a state gives a datum and leaves a state.  Tails
carry no tags of their own: what is consed onto a tagged list is a plain one. -/
inductive Forces (call : Caller) : State → Value → Datum → State → Prop
  | int (s : State) (n : Int) : Forces call s (.int n) (.int n) s
  | bool (s : State) (b : Bool) : Forces call s (.bool b) (.bool b) s
  | str (s : State) (text : String) : Forces call s (.str text) (.str text) s
  | func (s : State) (name : String) : Forces call s (.func name) (.func name) s
  | lambda (s : State) (closure : Nat) : Forces call s (.lambda closure) (.lambda closure) s
  | tagged {s s' : State} {value : Value} {datum : Datum} (tag : String) :
      Forces call s value datum s' → Forces call s (.tagged tag value) (.tagged tag datum) s'
  | nil (s : State) : Forces call s .nil (.list []) s
  | cell {s s₁ s₂ : State} {head tail : Value} {datum : Datum} {data : List Datum}
      (elem : ElemType) :
      Forces call s head datum s₁ → Forces call s₁ tail.untagged (.list data) s₂ →
        Forces call s (.cell head tail elem) (.list (datum :: data)) s₂
  | ended {s s' : State} {node : Nat} :
      force call node s = (.ok .ended, s') → Forces call s (.lazy node) (.list []) s'
  | item {s s₁ s₂ s₃ : State} {node : Nat} {head next : Value} {datum : Datum}
      {data : List Datum} :
      force call node s = (.ok (.item head next), s₁) → Forces call s₁ head datum s₂ →
        Forces call s₂ next.untagged (.list data) s₃ →
        Forces call s (.lazy node) (.list (datum :: data)) s₃

/-- Working several values out, one after the other. -/
inductive ForcesAll (call : Caller) : State → List Value → List Datum → State → Prop
  | nil (s : State) : ForcesAll call s [] [] s
  | cons {s s₁ s₂ : State} {value : Value} {values : List Value} {datum : Datum}
      {data : List Datum} :
      Forces call s value datum s₁ → ForcesAll call s₁ values data s₂ →
        ForcesAll call s (value :: values) (datum :: data) s₂

variable {call : Caller}

/-! ## Head and tail -/

theorem uncons_nil {context : String} {value : Value} (h : value.untagged = .nil) (s : State) :
    uncons call context value s = (.ok none, s) := by
  unfold uncons
  rw [h]
  rfl

theorem uncons_cell {context : String} {value head tail : Value} {elem : ElemType}
    (h : value.untagged = .cell head tail elem) (s : State) :
    uncons call context value s = (.ok (some (head, tail)), s) := by
  unfold uncons
  rw [h]
  rfl

theorem uncons_ended {context : String} {value : Value} {node : Nat} {s s' : State}
    (h : value.untagged = .lazy node) (hForce : force call node s = (.ok .ended, s')) :
    uncons call context value s = (.ok none, s') := by
  unfold uncons
  rw [h]
  exact bind_apply_ok hForce

theorem uncons_item {context : String} {value head next : Value} {node : Nat} {s s' : State}
    (h : value.untagged = .lazy node)
    (hForce : force call node s = (.ok (.item head next), s')) :
    uncons call context value s = (.ok (some (head, next)), s') := by
  unfold uncons
  rw [h]
  exact bind_apply_ok hForce

/-- A list that has no head amounts to the empty list. -/
theorem forces_of_uncons_none {context : String} {value : Value} {s s' : State}
    (h : uncons call context value s = (.ok none, s')) :
    Forces call s value.untagged (.list []) s' := by
  cases hShape : value.untagged with
  | nil =>
      rw [uncons_nil hShape] at h
      cases h
      exact .nil s
  | cell head tail elem =>
      rw [uncons_cell hShape] at h
      cases h
  | lazy node =>
      unfold uncons at h
      rw [hShape] at h
      obtain ⟨outcome, s₁, hForce, hRest⟩ := bind_eq_ok h
      cases outcome with
      | ended =>
          cases hRest
          exact .ended hForce
      | item head next => cases hRest
  | _ =>
      unfold uncons at h
      rw [hShape] at h
      cases h

/-- A list amounts to what its head amounts to and what its tail amounts to. -/
theorem forces_of_uncons_some {context : String} {value head tail : Value} {s s₁ s₂ s₃ : State}
    {datum : Datum} {data : List Datum}
    (h : uncons call context value s = (.ok (some (head, tail)), s₁))
    (hHead : Forces call s₁ head datum s₂)
    (hTail : Forces call s₂ tail.untagged (.list data) s₃) :
    Forces call s value.untagged (.list (datum :: data)) s₃ := by
  cases hShape : value.untagged with
  | nil =>
      rw [uncons_nil hShape] at h
      cases h
  | cell head' tail' elem =>
      rw [uncons_cell hShape] at h
      cases h
      exact .cell elem hHead hTail
  | lazy node =>
      unfold uncons at h
      rw [hShape] at h
      obtain ⟨outcome, s', hForce, hRest⟩ := bind_eq_ok h
      cases outcome with
      | ended => cases hRest
      | item head' next =>
          cases hRest
          exact .item hForce hHead hTail
  | _ =>
      unfold uncons at h
      rw [hShape] at h
      cases h

/-! ## From data to keys -/

/-- The key of a datum as a string. -/
def Datum.keyText (datum : Datum) : String := String.ofList datum.key

/-- The keys of several data as a string. -/
def Datum.keysText (data : List Datum) : String := String.ofList (Datum.keys data)

theorem Datum.keysText_nil : Datum.keysText [] = "" := by
  rw [Datum.keysText, Datum.keys, String.ofList_nil]

theorem Datum.append_keysText_cons (done : String) (datum : Datum) (data : List Datum) :
    done ++ Datum.keysText (datum :: data) =
      done ++ datum.keyText ++ " " ++ Datum.keysText data := by
  apply String.toList_inj.mp
  simp [Datum.keysText, Datum.keyText, Datum.keys]

theorem Datum.keyText_list (data : List Datum) :
    (Datum.list data).keyText = "(" ++ Datum.keysText data ++ ")" := by
  apply String.toList_inj.mp
  simp [Datum.keysText, Datum.keyText, Datum.key]

/-- With enough fuel, the key of a value is that of a datum. -/
def KeyedAs (call : Caller) (s : State) (value : Value) (datum : Datum) (s' : State) : Prop :=
  ∃ enough, ∀ fuel, enough ≤ fuel → valueKey call fuel value s = (.ok datum.keyText, s')

/-- With enough fuel, the elements of a list have the keys of some data. -/
def ItemsKeyedAs (call : Caller) (s : State) (list : Value) (data : List Datum) (s' : State) :
    Prop :=
  ∃ enough, ∀ fuel fuel', enough ≤ fuel → enough ≤ fuel' →
    ∀ (done : String) (value : Value), value.untagged = list →
      listKeyOnto call (valueKey call fuel) fuel' done value s =
        (.ok (done ++ Datum.keysText data), s')

/-- The key of a value that is no list and has no tag does not depend on the
state. -/
theorem keyedAs_atom {value : Value} {datum : Datum} {s : State}
    (h : ∀ fuel, valueKey call (fuel + 1) value s = (.ok datum.keyText, s)) :
    KeyedAs call s value datum s := by
  refine ⟨1, fun fuel hFuel => ?_⟩
  obtain ⟨n, rfl⟩ : ∃ n, fuel = n + 1 := ⟨fuel - 1, by omega⟩
  exact h n

theorem itemsKeyedAs_none {list : Value} {s s' : State}
    (h : ∀ value : Value, value.untagged = list → uncons call "memo" value s = (.ok none, s')) :
    ItemsKeyedAs call s list [] s' := by
  refine ⟨1, fun fuel fuel' _ hFuel' done value hValue => ?_⟩
  obtain ⟨n, rfl⟩ : ∃ n, fuel' = n + 1 := ⟨fuel' - 1, by omega⟩
  rw [listKeyOnto, bind_apply_ok (h value hValue), Datum.keysText_nil, String.append_empty]
  rfl

theorem itemsKeyedAs_some {list head tail : Value} {s s₁ s₂ s₃ : State} {datum : Datum}
    {data : List Datum}
    (h : ∀ value : Value, value.untagged = list →
      uncons call "memo" value s = (.ok (some (head, tail)), s₁))
    (hHead : KeyedAs call s₁ head datum s₂)
    (hTail : ItemsKeyedAs call s₂ tail.untagged data s₃) :
    ItemsKeyedAs call s list (datum :: data) s₃ := by
  obtain ⟨enough, hHead⟩ := hHead
  obtain ⟨enough', hTail⟩ := hTail
  refine ⟨enough + enough' + 1, fun fuel fuel' hFuel hFuel' done value hValue => ?_⟩
  obtain ⟨n, rfl⟩ : ∃ n, fuel' = n + 1 := ⟨fuel' - 1, by omega⟩
  have hKey := hHead fuel (by omega)
  have hRest := hTail fuel n (by omega) (by omega) (done ++ datum.keyText ++ " ") tail rfl
  rw [listKeyOnto, bind_apply_ok (h value hValue)]
  show (valueKey call fuel head >>= _) s₁ = _
  rw [bind_apply_ok hKey, hRest, Datum.append_keysText_cons]

/-- The key of a list without a tag goes through its elements. -/
theorem valueKey_list {list : Value} (hList : list.isList = true)
    (hPlain : list.untagged = list) (fuel : Nat) :
    valueKey call (fuel + 1) list =
      (listKeyOnto call (valueKey call fuel) fuel "(" list >>=
        fun items => pure (items ++ ")")) := by
  unfold Value.isList at hList
  rw [hPlain] at hList
  cases list with
  | nil => rfl
  | cell head tail elem => rfl
  | lazy node => rfl
  | _ => cases hList

/-- A list is keyed by its elements between parentheses. -/
theorem keyedAs_list {list : Value} {s s' : State} {data : List Datum}
    (hList : list.isList = true) (hPlain : list.untagged = list)
    (h : ItemsKeyedAs call s list data s') :
    KeyedAs call s list (.list data) s' := by
  obtain ⟨enough, h⟩ := h
  refine ⟨enough + 1, fun fuel hFuel => ?_⟩
  obtain ⟨n, rfl⟩ : ∃ n, fuel = n + 1 := ⟨fuel - 1, by omega⟩
  have hItems := h n n (by omega) (by omega) "(" list hPlain
  rw [valueKey_list hList hPlain, bind_apply_ok hItems, Datum.keyText_list]
  rfl

/-- What is said below of a list without a tag. -/
private theorem keyedAs_list_and_items {list : Value} {s s' : State} {data : List Datum}
    (hList : list.isList = true) (hPlain : list.untagged = list)
    (h : ItemsKeyedAs call s list data s') :
    KeyedAs call s list (.list data) s' ∧
      ∀ data', Datum.list data = .list data' → ItemsKeyedAs call s list data' s' := by
  refine ⟨keyedAs_list hList hPlain h, fun data' hData => ?_⟩
  cases hData
  exact h

/-- The two halves of the next theorem go together: the elements of a list are
values, and their keys make up the key of the list. -/
private theorem keyedAs_and_itemsKeyedAs {s s' : State} {value : Value} {datum : Datum}
    (h : Forces call s value datum s') :
    KeyedAs call s value datum s' ∧
      ∀ data, datum = .list data → ItemsKeyedAs call s value data s' := by
  induction h with
  | int s n =>
      refine ⟨keyedAs_atom fun fuel => ?_, fun data hData => by cases hData⟩
      rw [valueKey, Datum.keyText, Datum.key]
      rfl
  | bool s b =>
      refine ⟨keyedAs_atom fun fuel => ?_, fun data hData => by cases hData⟩
      rw [valueKey, Datum.keyText, Datum.key, String.ofList_cons]
      rfl
  | str s text =>
      refine ⟨keyedAs_atom fun fuel => ?_, fun data hData => by cases hData⟩
      rw [valueKey, Datum.keyText, Datum.key]
      rfl
  | func s name =>
      refine ⟨keyedAs_atom fun fuel => ?_, fun data hData => by cases hData⟩
      have hText : "#<function " ++ name ++ ">" = (Datum.func name).keyText := by
        apply String.toList_inj.mp
        simp [Datum.keyText, Datum.key, Datum.functionMark]
      rw [valueKey, ← hText]
      rfl
  | lambda s closure =>
      refine ⟨keyedAs_atom fun fuel => ?_, fun data hData => by cases hData⟩
      have hText : "#<lambda " ++ toString closure ++ ">" = (Datum.lambda closure).keyText := by
        apply String.toList_inj.mp
        simp [Datum.keyText, Datum.key, Datum.lambdaMark]
      rw [valueKey, ← hText]
      rfl
  | tagged tag _ ih =>
      obtain ⟨⟨enough, hInner⟩, -⟩ := ih
      rename_i value datum _
      refine ⟨⟨enough + 1, fun fuel hFuel => ?_⟩, fun data hData => by cases hData⟩
      obtain ⟨n, rfl⟩ : ∃ n, fuel = n + 1 := ⟨fuel - 1, by omega⟩
      have hText : tag ++ ":" ++ datum.keyText = (Datum.tagged tag datum).keyText := by
        apply String.toList_inj.mp
        simp [Datum.keyText, Datum.key]
      rw [valueKey, bind_apply_ok (hInner n (by omega)), ← hText]
      rfl
  | nil s =>
      exact keyedAs_list_and_items rfl rfl
        (itemsKeyedAs_none fun value hValue => uncons_nil hValue s)
  | @cell s s₁ s₂ head tail datum data elem _ _ ihHead ihTail =>
      exact keyedAs_list_and_items rfl rfl
        (itemsKeyedAs_some (fun value hValue => uncons_cell hValue s) ihHead.1 (ihTail.2 data rfl))
  | ended hForce =>
      exact keyedAs_list_and_items rfl rfl
        (itemsKeyedAs_none fun value hValue => uncons_ended hValue hForce)
  | item hForce _ _ ihHead ihTail =>
      exact keyedAs_list_and_items rfl rfl
        (itemsKeyedAs_some (fun value hValue => uncons_item hValue hForce) ihHead.1
          (ihTail.2 _ rfl))

/-- **The key of a value is the key of its datum**, and working out the key leaves
the machine as working out the value does. -/
theorem valueKey_of_forces {s s' : State} {value : Value} {datum : Datum}
    (h : Forces call s value datum s') : KeyedAs call s value datum s' :=
  (keyedAs_and_itemsKeyedAs h).1

/-- The same for the arguments of a call. -/
theorem callKey_of_forcesAll {s s' : State} {arguments : List Value} {data : List Datum}
    (h : ForcesAll call s arguments data s') :
    ∃ enough, ∀ fuel, enough ≤ fuel →
      callKey call fuel arguments s = (.ok (Datum.keysText data), s') := by
  have hOnto : ∃ enough, ∀ fuel, enough ≤ fuel → ∀ done : String,
      callKeyOnto call fuel done arguments s = (.ok (done ++ Datum.keysText data), s') := by
    induction h with
    | nil s =>
        refine ⟨0, fun fuel _ done => ?_⟩
        rw [Datum.keysText_nil, String.append_empty]
        rfl
    | cons hValue _ ih =>
        obtain ⟨enough, hValue⟩ := valueKey_of_forces hValue
        obtain ⟨enough', hRest⟩ := ih
        refine ⟨enough + enough', fun fuel hFuel done => ?_⟩
        rw [callKeyOnto, bind_apply_ok (hValue fuel (by omega)), hRest fuel (by omega),
          Datum.append_keysText_cons]
  obtain ⟨enough, hOnto⟩ := hOnto
  refine ⟨enough, fun fuel hFuel => ?_⟩
  rw [callKey, hOnto fuel hFuel, String.empty_append]

/-! ## From keys to data -/

/-- The elements of a list that have keys amount to data. -/
private theorem forces_of_listKeyOnto {key : Value → Run String}
    (hKey : ∀ {value s text s'}, key value s = (.ok text, s') →
      ∃ datum : Datum, Forces call s value datum s' ∧ text = datum.keyText) :
    ∀ {fuel : Nat} {done : String} {value : Value} {s : State} {text : String} {s' : State},
      listKeyOnto call key fuel done value s = (.ok text, s') →
      ∃ data, Forces call s value.untagged (.list data) s' ∧
        text = done ++ Datum.keysText data := by
  intro fuel
  induction fuel with
  | zero =>
      intro done value s text s' h
      cases h
  | succ fuel ih =>
      intro done value s text s' h
      rw [listKeyOnto] at h
      obtain ⟨parts, s₁, hUncons, hRest⟩ := bind_eq_ok h
      cases parts with
      | none =>
          cases hRest
          refine ⟨[], forces_of_uncons_none hUncons, ?_⟩
          rw [Datum.keysText_nil, String.append_empty]
      | some parts =>
          obtain ⟨head, tail⟩ := parts
          obtain ⟨headText, s₂, hHeadKey, hTailKey⟩ := bind_eq_ok hRest
          obtain ⟨datum, hHead, rfl⟩ := hKey hHeadKey
          obtain ⟨data, hTail, rfl⟩ := ih hTailKey
          refine ⟨datum :: data, forces_of_uncons_some hUncons hHead hTail, ?_⟩
          rw [Datum.append_keysText_cons]

/-- **A value that has a key amounts to a datum**, and the key is that of the
datum. -/
theorem forces_of_valueKey {fuel : Nat} :
    ∀ {value : Value} {s : State} {text : String} {s' : State},
      valueKey call fuel value s = (.ok text, s') →
      ∃ datum : Datum, Forces call s value datum s' ∧ text = datum.keyText := by
  induction fuel with
  | zero =>
      intro value s text s' h
      cases h
  | succ fuel ih =>
      intro value s text s' h
      -- An atom has a datum whatever the fuel is, and its key is known from there.
      have hAtom : ∀ {datum : Datum}, Forces call s value datum s →
          (∀ n, valueKey call (n + 1) value s = valueKey call (fuel + 1) value s) →
          ∃ datum : Datum, Forces call s value datum s' ∧ text = datum.keyText := by
        intro datum hForces hSame
        obtain ⟨enough, hKey⟩ := valueKey_of_forces hForces
        have hText := hKey (enough + 1) (by omega)
        rw [hSame enough, h] at hText
        cases hText
        exact ⟨datum, hForces, rfl⟩
      have hList : value.isList = true → value.untagged = value →
          ∃ datum : Datum, Forces call s value datum s' ∧ text = datum.keyText := by
        intro hIsList hPlain
        rw [valueKey_list hIsList hPlain] at h
        obtain ⟨items, s₁, hItems, hEnd⟩ := bind_eq_ok h
        cases hEnd
        obtain ⟨data, hForces, rfl⟩ := forces_of_listKeyOnto ih hItems
        rw [hPlain] at hForces
        exact ⟨.list data, hForces, (Datum.keyText_list data).symm⟩
      cases value with
      | int n => exact hAtom (.int s n) fun _ => rfl
      | bool b => exact hAtom (.bool s b) fun _ => rfl
      | str t => exact hAtom (.str s t) fun _ => rfl
      | func name => exact hAtom (.func s name) fun _ => rfl
      | lambda closure => exact hAtom (.lambda s closure) fun _ => rfl
      | nil => exact hList rfl rfl
      | cell head tail elem => exact hList rfl rfl
      | lazy node => exact hList rfl rfl
      | tagged tag value =>
          obtain ⟨inner, s₁, hInner, hEnd⟩ := bind_eq_ok h
          cases hEnd
          obtain ⟨datum, hForces, rfl⟩ := ih hInner
          refine ⟨.tagged tag datum, .tagged tag hForces, ?_⟩
          apply String.toList_inj.mp
          simp [Datum.keyText, Datum.key]

/-- The same for the arguments of a call. -/
theorem forcesAll_of_callKey {fuel : Nat} {arguments : List Value} {s s' : State} {text : String}
    (h : callKey call fuel arguments s = (.ok text, s')) :
    ∃ data, ForcesAll call s arguments data s' ∧ text = Datum.keysText data := by
  have hOnto : ∀ (arguments : List Value) {done : String} {s : State} {text : String},
      callKeyOnto call fuel done arguments s = (.ok text, s') →
      ∃ data, ForcesAll call s arguments data s' ∧ text = done ++ Datum.keysText data := by
    intro arguments
    induction arguments with
    | nil =>
        intro done s text h
        cases h
        refine ⟨[], .nil _, ?_⟩
        rw [Datum.keysText_nil, String.append_empty]
    | cons argument arguments ih =>
        intro done s text h
        rw [callKeyOnto] at h
        obtain ⟨argumentText, s₁, hArgument, hRest⟩ := bind_eq_ok h
        obtain ⟨datum, hForces, rfl⟩ := forces_of_valueKey hArgument
        obtain ⟨data, hAll, rfl⟩ := ih hRest
        refine ⟨datum :: data, .cons hForces hAll, ?_⟩
        rw [Datum.append_keysText_cons]
  obtain ⟨data, hAll, hText⟩ := hOnto arguments h
  rw [String.empty_append] at hText
  exact ⟨data, hAll, hText⟩

/-! ## Keys agree exactly if the data do -/

/-- **Keys are injective up to laziness.**  Two tuples of arguments that can be
worked out, by any two machines, have keys, and the keys agree if and only if the
arguments amount to the same data: numbers, truth values, text, functions, the
numbers of closures and tags all count, at every depth and across the bounds
between arguments. -/
theorem callKey_eq_iff_same_data {call call' : Caller} {s s₁ s' s₁' : State}
    {arguments arguments' : List Value} {data data' : List Datum}
    (hForces : ForcesAll call s arguments data s₁)
    (hForces' : ForcesAll call' s' arguments' data' s₁')
    (hNamed : Datum.AllNamed data) (hNamed' : Datum.AllNamed data') :
    ∃ key key',
      (∃ enough, ∀ fuel, enough ≤ fuel →
        callKey call fuel arguments s = (.ok key, s₁) ∧
          callKey call' fuel arguments' s' = (.ok key', s₁')) ∧
      (key = key' ↔ data = data') := by
  obtain ⟨enough, hKey⟩ := callKey_of_forcesAll hForces
  obtain ⟨enough', hKey'⟩ := callKey_of_forcesAll hForces'
  refine ⟨Datum.keysText data, Datum.keysText data', ⟨enough + enough', ?_⟩, ?_, ?_⟩
  · intro fuel hFuel
    exact ⟨hKey fuel (by omega), hKey' fuel (by omega)⟩
  · intro hEq
    exact Datum.keys_injective hNamed hNamed' (String.ofList_injective hEq)
  · intro hEq
    rw [hEq]

/-- A machine with one lazy list, which has not been forced: its iterator drops
the first element of its state, so the list is `(1)`. -/
def dropping : State :=
  { nodes := #[{ iterator := .func "tail",
                 state := Value.ofList {} [.int 0, .int 1, Value.ofList {} [.int 9]] }] }

/-- A lazy list beside a tagged number has the same key as the strict list with
the same element beside it. -/
theorem callKey_eq_iff_of_dropping :
    let call : Caller := fun function arguments => exec 20 0 (.call function arguments)
    let data : List Datum := [.list [.int 1], .tagged "meters" (.int 1)]
    ∃ s₁, ForcesAll call dropping [.lazy 0, .tagged "meters" (.int 1)] data s₁ ∧
      ForcesAll call {} [Value.ofList {} [.int 1], .tagged "meters" (.int 1)] data {} ∧
      Datum.AllNamed data ∧
      ∃ key key',
        (∃ enough, ∀ fuel, enough ≤ fuel →
          callKey call fuel [.lazy 0, .tagged "meters" (.int 1)] dropping = (.ok key, s₁) ∧
            callKey call fuel [Value.ofList {} [.int 1], .tagged "meters" (.int 1)] {} =
              (.ok key', {})) ∧
        (key = key' ↔ data = data) := by
  intro call data
  have hItem : (force call 0 dropping).1 = .ok (.item (.int 1) (.lazy 1)) := by rfl
  have hEnded : (force call 1 (force call 0 dropping).2).1 = .ok .ended := by rfl
  have hForces : ForcesAll call dropping [.lazy 0, .tagged "meters" (.int 1)] data
      (force call 1 (force call 0 dropping).2).2 :=
    .cons (.item (Prod.ext hItem rfl) (.int _ 1) (.ended (Prod.ext hEnded rfl)))
      (.cons (.tagged "meters" (.int _ 1)) (.nil _))
  have hStrict : ForcesAll call {} [Value.ofList {} [.int 1], .tagged "meters" (.int 1)] data {} :=
    .cons (.cell _ (.int _ 1) (.nil _)) (.cons (.tagged "meters" (.int _ 1)) (.nil _))
  have hNamed : Datum.AllNamed data := by
    simp only [data, Datum.AllNamed, Datum.Named]
    decide
  exact ⟨_, hForces, hStrict, hNamed, callKey_eq_iff_same_data hForces hStrict hNamed hNamed⟩

end ClauseLisp
