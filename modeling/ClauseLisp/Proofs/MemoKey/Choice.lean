import Mathlib
import ClauseLisp.Machine.Session
import ClauseLisp.Proofs.Choice.Matching
import ClauseLisp.Proofs.MemoKey.Forcing
import ClauseLisp.Proofs.Types.Separation

/-!
# Clauses that share a key

The key of a call says what its arguments amount to, but not how far their lists
are strict; the choice of a clause looks at just that, since a lazy list
satisfies every list type.  So two calls can share a key and select different
clauses, and the memo table then answers one of them with the result of the
other.

This happens exactly if the arguments look different to a clause at some
position: in the type of what is strict, in whether there is a strict cell at
all, or, where a literal is compared, in whether a list is strictly empty.

## Main results

* `shared_key_selects_two_clauses` — two calls with one key and two clauses.
* `choice_of_shared_key` — which calls with one key select the same clause.
-/

namespace ClauseLisp

open Ty (Registry Bindings)

/-- Two values look the same to a clause: their strict parts have the same type,
and both or neither start with a strict cell. -/
structure LooksLike (v v' : Value) : Prop where
  type : v.fixedType? = v'.fixedType?
  cell : v.isCell = v'.isCell

/-! ## Matching a declared type -/

/-- A match that comes out the same for two values, whatever has been asked
before. -/
def MatchedAlike (r : Registry) (p : Pattern) (v v' : Value) : Prop :=
  ∀ b, ∃ result, ∀ asked,
    p.match₁ r v b asked = (result, asked) ∧ p.match₁ r v' b asked = (result, asked)

theorem matchedAlike_typed (r : Registry) (name : String) (declared : Ty) {v v' : Value}
    (hFixed : v.fixedType?.isSome = true) (h : LooksLike v v') :
    MatchedAlike r (.typed name declared) v v' := by
  intro b
  obtain ⟨hType, hCell⟩ := h
  cases hIsCell : v.isCell with
  | false =>
      rw [hIsCell] at hCell
      rw [fixedType?_of_not_cell hIsCell, fixedType?_of_not_cell hCell.symm] at hType
      have hPlain : v.plainType = v'.plainType := Option.some.inj hType
      refine ⟨_, fun asked => ⟨conforms_of_not_cell hIsCell r declared b asked, ?_⟩⟩
      rw [hPlain]
      exact conforms_of_not_cell hCell.symm r declared b asked
  | true =>
      rw [hIsCell] at hCell
      cases v with
      | cell head tail elem =>
          cases v' with
          | cell head' tail' elem' =>
              cases elem with
              | pending place => cases hFixed
              | fixed e =>
                  cases elem' with
                  | pending place => cases hType
                  | fixed e' =>
                      cases hType
                      exact ⟨_, fun asked => ⟨conforms_cell r head tail e declared b asked,
                        conforms_cell r head' tail' e declared b asked⟩⟩
          | _ => cases hCell
      | _ => cases hIsCell

/-! ## Matching a literal -/

/-- Whether a datum is, under its tags, the number, truth value or string that a
literal is. -/
def Datum.isAtom : Datum → Value → Bool
  | .int m, .int n => m = n
  | .bool p, .bool q => p = q
  | .str s, .str t => s = t
  | .tagged _ datum, literal => isAtom datum literal
  | _, _ => false

/-- Whether a value equals a number, a truth value or a string can be told from
its datum. -/
theorem same_atom {call : Caller} {s s' : State} {v : Value} {datum : Datum}
    (h : Forces call s v datum s') {literal : Value}
    (hLiteral : (Pattern.lit literal).isSimple = true) (hNil : literal ≠ .nil) :
    v.same literal = datum.isAtom literal := by
  induction h with
  | tagged tag _ ih =>
      rw [Value.same, ih, Datum.isAtom]
  | _ =>
      cases literal with
      | nil => exact absurd rfl hNil
      | int n => simp [Value.same, Value.untagged, Datum.isAtom, Value.isNil]
      | bool b => simp [Value.same, Value.untagged, Datum.isAtom, Value.isNil]
      | str t => simp [Value.same, Value.untagged, Datum.isAtom, Value.isNil]
      | _ => cases hLiteral

/-- Two values amount to the same datum, for whatever machines. -/
def SameDatum (v v' : Value) : Prop :=
  ∃ datum, (∃ call s s', Forces call s v datum s') ∧ ∃ call s s', Forces call s v' datum s'

/-- Two values with the same datum match a pattern alike if they look the same,
and if they are strictly empty together where a literal is compared. -/
theorem matchedAlike_of_looksLike (r : Registry) {p : Pattern} {v v' : Value}
    (hSimple : p.isSimple = true) (hDatum : SameDatum v v')
    (hFixed : v.fixedType?.isSome = true) (hLooks : LooksLike v v')
    (hNil : p.isLit = true → v.isStrictNil = v'.isStrictNil) : MatchedAlike r p v v' := by
  cases p with
  | bind name => exact fun b => ⟨(true, b), fun asked => ⟨rfl, rfl⟩⟩
  | typed name declared => exact matchedAlike_typed r name declared hFixed hLooks
  | lit literal =>
      have hSame : v.same literal = v'.same literal := by
        by_cases hLiteral : literal = .nil
        · rw [hLiteral, same_nil, same_nil, hNil rfl]
        · obtain ⟨datum, ⟨_, _, _, hForces⟩, ⟨_, _, _, hForces'⟩⟩ := hDatum
          rw [same_atom hForces hSimple hLiteral, same_atom hForces' hSimple hLiteral]
      intro b
      refine ⟨(v.same literal, b), fun asked => ⟨rfl, ?_⟩⟩
      rw [hSame]
      rfl

/-! ## Choosing a clause -/

/-- Arguments that match each pattern alike match them all alike. -/
theorem matchAll_alike (r : Registry) :
    ∀ (ps : List Pattern) (arguments arguments' : List Value),
      arguments.length = arguments'.length →
      (∀ (i : Nat) p v v', ps[i]? = some p → arguments[i]? = some v →
        arguments'[i]? = some v' → MatchedAlike r p v v') →
      ∀ b, ∃ result, ∀ asked,
        Pattern.matchAll r ps arguments b asked = (result, asked) ∧
          Pattern.matchAll r ps arguments' b asked = (result, asked)
  | [], [], [], _, _, b => ⟨some b, fun _ => ⟨rfl, rfl⟩⟩
  | [], _ :: _, _ :: _, _, _, _ => ⟨none, fun _ => ⟨rfl, rfl⟩⟩
  | _ :: _, [], [], _, _, _ => ⟨none, fun _ => ⟨rfl, rfl⟩⟩
  | _, [], _ :: _, hLength, _, _ => nomatch hLength
  | _, _ :: _, [], hLength, _, _ => nomatch hLength
  | p :: ps, v :: arguments, v' :: arguments', hLength, hAlike, b => by
    obtain ⟨⟨accepted, b'⟩, hFirst⟩ := hAlike 0 p v v' rfl rfl rfl b
    obtain ⟨result, hRest⟩ := matchAll_alike r ps arguments arguments' (Nat.succ.inj hLength)
      (fun i q w w' hq hw hw' => hAlike (i + 1) q w w' hq hw hw') b'
    refine ⟨if accepted then result else none, fun asked => ?_⟩
    rw [matchAll_cons (hFirst asked).1, matchAll_cons (hFirst asked).2]
    cases accepted with
    | false => exact ⟨rfl, rfl⟩
    | true => exact hRest asked

/-- Arguments that match the patterns of all clauses alike select the same one. -/
theorem chooseFrom_alike {r : Registry} {arguments arguments' : List Value}
    (hLength : arguments.length = arguments'.length) :
    ∀ (clauses : List Clause) (index : Nat),
      (∀ c ∈ clauses, ∀ (i : Nat) p v v', c.params[i]? = some p → arguments[i]? = some v →
        arguments'[i]? = some v' → MatchedAlike r p v v') →
      ∃ result, ∀ asked,
        chooseFrom r arguments index clauses asked = (result, asked) ∧
          chooseFrom r arguments' index clauses asked = (result, asked) := by
  intro clauses
  induction clauses with
  | nil => exact fun _ _ => ⟨none, fun _ => ⟨rfl, rfl⟩⟩
  | cons c clauses ih =>
      intro index hAlike
      have hMatch : ∃ result, ∀ asked, c.match? r arguments asked = (result, asked) ∧
          c.match? r arguments' asked = (result, asked) := by
        unfold Clause.match?
        rw [← hLength]
        split
        · exact matchAll_alike r c.params arguments arguments' hLength
            (hAlike c List.mem_cons_self) Dict.empty
        · exact ⟨none, fun _ => ⟨rfl, rfl⟩⟩
      obtain ⟨matched, hMatch⟩ := hMatch
      obtain ⟨result, hRest⟩ := ih (index + 1) fun d hd => hAlike d (List.mem_cons_of_mem c hd)
      refine ⟨match matched with | some b => some ⟨index, c, b⟩ | none => result, fun asked => ?_⟩
      rw [chooseFrom_cons (hMatch asked).1, chooseFrom_cons (hMatch asked).2]
      cases matched with
      | none => exact hRest asked
      | some b => exact ⟨rfl, rfl⟩

/-! ## Clauses that tell arguments apart -/

/-- Parameters that accept so many arguments of any kind. -/
def freely : Nat → List Pattern
  | 0 => []
  | n + 1 => .bind ("x" ++ toString n) :: freely n

/-- Parameters for so many arguments, of which the one at a position must match a
pattern. -/
def exceptAt (p : Pattern) : Nat → Nat → List Pattern
  | _, 0 => []
  | 0, n + 1 => p :: freely n
  | position + 1, n + 1 => .bind ("x" ++ toString n) :: exceptAt p position n

/-- A memoized function of so many arguments that asks for a pattern at a
position, and has a second clause for everything else. -/
def probing (p : Pattern) (position n : Nat) : List Clause :=
  [⟨exceptAt p position n, none, .lit .nil, true, false⟩,
    ⟨freely n, none, .lit .nil, true, false⟩]

theorem length_freely (n : Nat) : (freely n).length = n := by
  induction n with
  | zero => rfl
  | succ n ih => rw [freely, List.length_cons, ih]

theorem length_exceptAt (p : Pattern) :
    ∀ position n : Nat, (exceptAt p position n).length = n
  | _, 0 => by cases ‹Nat› <;> rfl
  | 0, n + 1 => by rw [exceptAt, List.length_cons, length_freely]
  | position + 1, n + 1 => by rw [exceptAt, List.length_cons, length_exceptAt p position n]

theorem matchAll_freely (r : Registry) (b : Bindings) (asked : AskedTypes) :
    ∀ arguments : List Value,
      Pattern.matchAll r (freely arguments.length) arguments b asked = (some b, asked) := by
  intro arguments
  induction arguments with
  | nil => rfl
  | cons v arguments ih =>
      rw [List.length_cons, freely, matchAll_cons rfl]
      exact ih

/-- The arguments match if and only if the one at the position does. -/
theorem isSome_matchAll_exceptAt {r : Registry} {p : Pattern} {v : Value} {accepted : Bool}
    (h : ∀ b asked, (p.match₁ r v b asked).1.1 = accepted) (b : Bindings) (asked : AskedTypes) :
    ∀ (position : Nat) (arguments : List Value), arguments[position]? = some v →
      (Pattern.matchAll r (exceptAt p position arguments.length) arguments b asked).1.isSome =
        accepted
  | _, [], hAt => by cases hAt
  | 0, w :: arguments, hAt => by
    cases hAt
    have hMatch : p.match₁ r v b asked =
        ((accepted, (p.match₁ r v b asked).1.2), (p.match₁ r v b asked).2) := by
      rw [← h b asked]
      rfl
    rw [List.length_cons, exceptAt, matchAll_cons hMatch]
    cases accepted with
    | false => rfl
    | true => rw [if_pos rfl, matchAll_freely, Option.isSome_some]
  | position + 1, w :: arguments, hAt => by
    rw [List.length_cons, exceptAt, matchAll_cons rfl]
    exact isSome_matchAll_exceptAt h b asked position arguments hAt

/-- The probing function selects its first clause if the argument at the position
matches the pattern, and its second clause otherwise. -/
theorem index_choose?_probing {r : Registry} {p : Pattern} {v : Value} {accepted : Bool}
    (h : ∀ b asked, (p.match₁ r v b asked).1.1 = accepted) {position : Nat}
    {arguments : List Value} (hAt : arguments[position]? = some v) (asked : AskedTypes) :
    (choose? r (probing p position arguments.length) arguments asked).1.map Choice.index =
      some (if accepted then 0 else 1) := by
  have hFirst := isSome_matchAll_exceptAt h Dict.empty asked position arguments hAt
  have hClause : ∀ (ps : List Pattern), ps.length = arguments.length → ∀ asked,
      Clause.match? r ⟨ps, none, .lit .nil, true, false⟩ arguments asked =
        Pattern.matchAll r ps arguments Dict.empty asked := by
    intro ps hLength asked
    rw [Clause.match?, if_pos hLength]
  rcases hMatch : Pattern.matchAll r (exceptAt p position arguments.length) arguments Dict.empty
    asked with ⟨matched, asked'⟩
  rw [hMatch] at hFirst
  rw [← hClause _ (length_exceptAt p position arguments.length)] at hMatch
  rw [choose?, probing, chooseFrom_cons hMatch]
  cases matched with
  | some b =>
      cases hFirst
      rfl
  | none =>
      cases hFirst
      have hSecond := matchAll_freely r Dict.empty asked' arguments
      rw [← hClause _ (length_freely arguments.length)] at hSecond
      simp only [chooseFrom_cons hSecond]
      rfl

/-- The type of a datum, as far as it can be told without looking into lists. -/
def Datum.plainType : Datum → Ty
  | .int _ => Ty.int
  | .bool _ => Ty.bool
  | .str _ => Ty.str
  | .func _ => .func
  | .lambda _ => .func
  | .list _ => Ty.listAny
  | .tagged tag _ => .named tag

theorem plainType_of_forces {call : Caller} {s s' : State} {v : Value} {datum : Datum}
    (h : Forces call s v datum s') : v.plainType = datum.plainType := by
  cases h <;> rfl

/-- A strict cell and a list that starts lazily differ on a list type with more
layers than are followed. -/
private theorem conforms_tower {r : Registry} {head tail : Value} {e : Ty} {v' : Value}
    (hCell : v'.isCell = false) (hList : v'.plainType = Ty.listAny) (b : Bindings)
    (asked : AskedTypes) :
    ((Value.cell head tail (.fixed e)).conforms r (.list (Ty.tower (Ty.maxDepth + 1))) b
        asked).1.1 = false ∧
      (v'.conforms r (.list (Ty.tower (Ty.maxDepth + 1))) b asked).1.1 = true := by
  constructor
  · rw [conforms_cell]
    exact Registry.unify_tower r Ty.maxDepth e b (Nat.lt_succ_self _)
  · rw [conforms_of_not_cell hCell, hList]
    rfl

/-- Of two strict parts with different types, one satisfies a list type that the
other one does not. -/
private theorem conforms_elem {r : Registry} {head tail head' tail' : Value} {e e' : Ty}
    (hSelf : (Ty.list e).isFound Ty.maxDepth = true)
    (hNot : ∀ b, (r.unify e e' b).1 = false) (b : Bindings) (asked : AskedTypes) :
    ((Value.cell head tail (.fixed e)).conforms r (.list e) b asked).1.1 = true ∧
      ((Value.cell head' tail' (.fixed e')).conforms r (.list e) b asked).1.1 = false := by
  constructor
  · rw [conforms_cell]
    show (r.unifyWithin (63 + 1) e e b).1 = true
    rw [Registry.unify_self r 63 b hSelf]
  · rw [conforms_cell]
    exact hNot b

/-- A value that starts with a strict cell and has a fixed type is such a cell. -/
private theorem exists_eq_cell {v : Value} {ty : Ty} (hCell : v.isCell = true)
    (hType : v.fixedType? = some ty) :
    ∃ head tail e, v = .cell head tail (.fixed e) ∧ ty = .list e := by
  cases v with
  | cell head tail elem =>
      cases elem with
      | fixed e =>
          cases hType
          exact ⟨head, tail, e, rfl, rfl⟩
      | pending place => cases hType
  | _ => cases hCell

/-- **Arguments that look different can be told apart.**  If two values amount to
the same datum and one starts with a strict cell while the other does not, or
their strict parts have different types, then one of them satisfies a declared
type that the other one does not satisfy. -/
theorem exists_type_of_not_looksLike {r : Registry} (hOrdered : r.Ordered) {v v' : Value}
    {ty ty' : Ty} (hDatum : SameDatum v v') (hType : v.fixedType? = some ty)
    (hType' : v'.fixedType? = some ty') (hFound : ty.isFound Ty.maxDepth = true)
    (hFound' : ty'.isFound Ty.maxDepth = true) (h : ¬ LooksLike v v') :
    ∃ declared accepted, ∀ b asked, (v.conforms r declared b asked).1.1 = accepted ∧
      (v'.conforms r declared b asked).1.1 = !accepted := by
  obtain ⟨datum, ⟨_, _, _, hForces⟩, ⟨_, _, _, hForces'⟩⟩ := hDatum
  have hPlain : v.plainType = v'.plainType := by
    rw [plainType_of_forces hForces, plainType_of_forces hForces']
  cases hCell : v.isCell with
  | false =>
      cases hCell' : v'.isCell with
      | false =>
          refine absurd ⟨?_, by rw [hCell, hCell']⟩ h
          rw [fixedType?_of_not_cell hCell, fixedType?_of_not_cell hCell', hPlain]
      | true =>
          obtain ⟨head', tail', e', rfl, rfl⟩ := exists_eq_cell hCell' hType'
          exact ⟨.list (Ty.tower (Ty.maxDepth + 1)), true, fun b asked =>
            (conforms_tower hCell hPlain b asked).symm⟩
  | true =>
      obtain ⟨head, tail, e, rfl, rfl⟩ := exists_eq_cell hCell hType
      cases hCell' : v'.isCell with
      | false =>
          exact ⟨.list (Ty.tower (Ty.maxDepth + 1)), false, fun b asked =>
            conforms_tower hCell' hPlain.symm b asked⟩
      | true =>
          obtain ⟨head', tail', e', rfl, rfl⟩ := exists_eq_cell hCell' hType'
          have hNe : e ≠ e' := by
            rintro rfl
            exact h ⟨rfl, rfl⟩
          -- One of the two does not satisfy the other, for whatever bindings.
          by_cases hBelow : ∃ b, (r.unify e e' b).1 = true
          · obtain ⟨b₀, hBelow⟩ := hBelow
            have hNot : ∀ b, (r.unify e' e b).1 = false := by
              intro b
              rw [← Bool.not_eq_true]
              intro hAbove
              exact hNe (Registry.eq_of_unify_unify hOrdered 63 hFound hFound' hBelow hAbove)
            exact ⟨.list e', false, fun b asked => (conforms_elem hFound' hNot b asked).symm⟩
          · have hNot : ∀ b, (r.unify e e' b).1 = false := by
              intro b
              rw [← Bool.not_eq_true]
              exact fun hAbove => hBelow ⟨b, hAbove⟩
            exact ⟨.list e, true, fun b asked => conforms_elem hFound hNot b asked⟩

/-! ## Calls that share a key -/

/-- Tuples that amount to the same data do so position by position. -/
private theorem sameDatum_of_forcesAll {call call' : Caller} {data : List Datum} :
    ∀ {arguments arguments' : List Value} {s s₁ s' s₁' : State},
      ForcesAll call s arguments data s₁ → ForcesAll call' s' arguments' data s₁' →
      arguments.length = arguments'.length ∧
        ∀ (i : Nat) v v', arguments[i]? = some v → arguments'[i]? = some v' → SameDatum v v' := by
  induction data with
  | nil =>
      intro arguments arguments' s s₁ s' s₁' h h'
      cases h
      cases h'
      exact ⟨rfl, fun i v v' hAt _ => by cases hAt⟩
  | cons datum data ih =>
      intro arguments arguments' s s₁ s' s₁' h h'
      cases h with
      | cons hFirst hRest =>
          cases h' with
          | cons hFirst' hRest' =>
              obtain ⟨hLength, hSame⟩ := ih hRest hRest'
              refine ⟨congrArg Nat.succ hLength, fun i v v' hAt hAt' => ?_⟩
              cases i with
              | zero =>
                  cases hAt
                  cases hAt'
                  exact ⟨datum, ⟨_, _, _, hFirst⟩, ⟨_, _, _, hFirst'⟩⟩
              | succ i => exact hSame i v v' hAt hAt'

/-- Calls with the same key have arguments with the same data. -/
theorem sameDatum_of_shared_key {call call' : Caller} {fuel fuel' : Nat} {s s₁ s' s₁' : State}
    {arguments arguments' : List Value} {key : String}
    (hKey : callKey call fuel arguments s = (.ok key, s₁))
    (hKey' : callKey call' fuel' arguments' s' = (.ok key, s₁'))
    (hNamed : ∀ data, ForcesAll call s arguments data s₁ → Datum.AllNamed data)
    (hNamed' : ∀ data, ForcesAll call' s' arguments' data s₁' → Datum.AllNamed data) :
    arguments.length = arguments'.length ∧
      ∀ (i : Nat) v v', arguments[i]? = some v → arguments'[i]? = some v' → SameDatum v v' := by
  obtain ⟨data, hForces, hText⟩ := forcesAll_of_callKey hKey
  obtain ⟨data', hForces', hText'⟩ := forcesAll_of_callKey hKey'
  have hData : data = data' :=
    Datum.keys_injective (hNamed data hForces) (hNamed' data' hForces')
      (String.ofList_injective (hText.symm.trans hText'))
  subst hData
  exact sameDatum_of_forcesAll hForces hForces'

/-- The clauses select the same one for both tuples of arguments, by its position. -/
def SelectAlike (r : Registry) (clauses : List Clause) (arguments arguments' : List Value) : Prop :=
  ∀ asked asked', (choose? r clauses arguments asked).1.map Choice.index =
    (choose? r clauses arguments' asked').1.map Choice.index

/-- A literal of some clause is compared at a position. -/
def comparedAt (clauses : List Clause) (position : Nat) : Bool :=
  clauses.any fun c => c.litAt position

/-- If a match tells the arguments at a position apart, the probing function
selects different clauses. -/
theorem not_selectAlike_probing {r : Registry} {p : Pattern} {v v' : Value} {accepted : Bool}
    (h : ∀ b asked, (p.match₁ r v b asked).1.1 = accepted ∧
      (p.match₁ r v' b asked).1.1 = !accepted)
    {position : Nat} {arguments arguments' : List Value}
    (hLength : arguments.length = arguments'.length)
    (hAt : arguments[position]? = some v) (hAt' : arguments'[position]? = some v') :
    ¬ SelectAlike r (probing p position arguments.length) arguments arguments' := by
  intro hAlike
  have hIndex := index_choose?_probing (fun b asked => (h b asked).1) hAt #[]
  have hIndex' := index_choose?_probing (fun b asked => (h b asked).2) hAt' #[]
  rw [← hLength] at hIndex'
  have hEq := hAlike #[] #[]
  rw [hIndex, hIndex'] at hEq
  cases accepted <;> cases hEq

theorem eq_bind_of_freely :
    ∀ {n i : Nat} {q : Pattern}, (freely n)[i]? = some q → ∃ name, q = .bind name
  | 0, _, _, h => by cases h
  | n + 1, 0, _, h => by
    cases h
    exact ⟨_, rfl⟩
  | n + 1, i + 1, _, h => eq_bind_of_freely (n := n) (i := i) h

theorem eq_or_eq_bind_of_exceptAt {p : Pattern} :
    ∀ {position n i : Nat} {q : Pattern}, (exceptAt p position n)[i]? = some q →
      (q = p ∧ i = position) ∨ ∃ name, q = .bind name
  | position, 0, _, _, h => by cases position <;> cases h
  | 0, n + 1, 0, _, h => by
    cases h
    exact .inl ⟨rfl, rfl⟩
  | 0, n + 1, i + 1, _, h => .inr (eq_bind_of_freely (n := n) (i := i) h)
  | position + 1, n + 1, 0, _, h => by
    cases h
    exact .inr ⟨_, rfl⟩
  | position + 1, n + 1, i + 1, _, h => by
    obtain ⟨hq, hi⟩ | hBind := eq_or_eq_bind_of_exceptAt (n := n) (i := i) h
    · exact .inl ⟨hq, congrArg Nat.succ hi⟩
    · exact .inr hBind

/-- The patterns of the probing function: the given one at its position, and
names. -/
theorem eq_or_eq_bind_of_probing {p q : Pattern} {position n i : Nat} {c : Clause}
    (hc : c ∈ probing p position n) (hq : c.params[i]? = some q) :
    (q = p ∧ i = position) ∨ ∃ name, q = .bind name := by
  rcases List.mem_cons.mp hc with rfl | hc
  · exact eq_or_eq_bind_of_exceptAt hq
  · rw [List.mem_singleton.mp hc] at hq
    exact .inr (eq_bind_of_freely hq)

theorem isSimple_of_probing {p : Pattern} (hp : p.isSimple = true) {position n : Nat} :
    ∀ c ∈ probing p position n, ∀ q ∈ c.params, q.isSimple = true := by
  intro c hc q hq
  obtain ⟨i, hi⟩ := List.mem_iff_getElem?.mp hq
  obtain ⟨rfl, -⟩ | ⟨name, rfl⟩ := eq_or_eq_bind_of_probing hc hi
  · exact hp
  · rfl

/-- In the probing function a literal can only stand at the given position. -/
theorem eq_of_comparedAt_probing {p : Pattern} {position n i : Nat}
    (h : comparedAt (probing p position n) i = true) : p.isLit = true ∧ i = position := by
  obtain ⟨c, hc, hLit⟩ := List.any_eq_true.mp h
  unfold Clause.litAt at hLit
  split at hLit
  · rename_i q hq
    obtain ⟨rfl, hi⟩ | ⟨name, rfl⟩ := eq_or_eq_bind_of_probing hc hq
    · exact ⟨hLit, hi⟩
    · cases hLit
  · cases hLit

/-- **Which calls with one key select the same clause.**  Two calls share a key;
their lists may be strict and lazy in different places.

If the arguments look the same at each position, and are strictly empty together
where a literal is compared, then every function selects the same clause for
both, so that a memo entry is shared rightly.

Conversely, if all memoized functions select the same clause for both, then the
arguments look the same at each position, and tagged ones are strictly empty
together.  (Lists without a tag need not be: where a literal is compared, they
are forced before a clause is selected.)  This is said for a registry whose
types have been declared one after the other, and for arguments whose types have
no more layers than a match follows. -/
theorem choice_of_shared_key {r : Registry} {call call' : Caller} {fuel fuel' : Nat}
    {s s₁ s' s₁' : State} {arguments arguments' : List Value} {key : String}
    (hKey : callKey call fuel arguments s = (.ok key, s₁))
    (hKey' : callKey call' fuel' arguments' s' = (.ok key, s₁'))
    (hNamed : ∀ data, ForcesAll call s arguments data s₁ → Datum.AllNamed data)
    (hNamed' : ∀ data, ForcesAll call' s' arguments' data s₁' → Datum.AllNamed data)
    (hFixed : ∀ v ∈ arguments, v.fixedType?.isSome = true) :
    (∀ clauses, (∀ c ∈ clauses, ∀ p ∈ c.params, p.isSimple = true) →
      (∀ (i : Nat) v v', arguments[i]? = some v → arguments'[i]? = some v' →
        LooksLike v v' ∧ (comparedAt clauses i = true → v.isStrictNil = v'.isStrictNil)) →
      SelectAlike r clauses arguments arguments') ∧
    (r.Ordered →
      (∀ v ∈ arguments ++ arguments', ∃ ty, v.fixedType? = some ty ∧ ty.isFound Ty.maxDepth = true) →
      (∀ clauses, (∀ c ∈ clauses, c.memoize = true) →
        (∀ c ∈ clauses, ∀ p ∈ c.params, p.isSimple = true) →
        (∀ (i : Nat) v v', arguments[i]? = some v → arguments'[i]? = some v' →
          comparedAt clauses i = true → v.untagged = v → v.isStrictNil = v'.isStrictNil) →
        SelectAlike r clauses arguments arguments') →
      ∀ (i : Nat) v v', arguments[i]? = some v → arguments'[i]? = some v' →
        LooksLike v v' ∧ (v.untagged ≠ v → v.isStrictNil = v'.isStrictNil)) := by
  obtain ⟨hLength, hDatum⟩ := sameDatum_of_shared_key hKey hKey' hNamed hNamed'
  constructor
  · intro clauses hSimple hLooks asked asked'
    obtain ⟨result, hChoice⟩ := chooseFrom_alike hLength clauses 0 fun c hc i p v v' hp hv hv' => by
      obtain ⟨hLook, hNil⟩ := hLooks i v v' hv hv'
      refine matchedAlike_of_looksLike r (hSimple c hc p (List.mem_of_getElem? hp))
        (hDatum i v v' hv hv') (hFixed v (List.mem_of_getElem? hv)) hLook fun hLit => hNil ?_
      refine List.any_eq_true.mpr ⟨c, hc, ?_⟩
      rw [Clause.litAt, hp]
      exact hLit
    rw [choose?, choose?, (hChoice asked).1, (hChoice asked').2]
  · intro hOrdered hFound hAlike i v v' hv hv'
    obtain ⟨ty, hType, hTy⟩ := hFound v (List.mem_append_left _ (List.mem_of_getElem? hv))
    obtain ⟨ty', hType', hTy'⟩ := hFound v' (List.mem_append_right _ (List.mem_of_getElem? hv'))
    have hMemo : ∀ p, ∀ c ∈ probing p i arguments.length, c.memoize = true := by
      intro p c hc
      rcases List.mem_cons.mp hc with rfl | hc
      · rfl
      · rw [List.mem_singleton.mp hc]
    constructor
    · refine Classical.byContradiction fun hNot => ?_
      obtain ⟨declared, accepted, hApart⟩ :=
        exists_type_of_not_looksLike hOrdered (hDatum i v v' hv hv') hType hType' hTy hTy' hNot
      refine not_selectAlike_probing (p := .typed "x" declared) hApart hLength hv hv'
        (hAlike _ (hMemo _) (isSimple_of_probing rfl) fun j w w' _ _ hLit => ?_)
      cases (eq_of_comparedAt_probing hLit).1
    · intro hTagged
      refine Classical.byContradiction fun hNot => ?_
      have hApart : ∀ b asked, ((Pattern.lit .nil).match₁ r v b asked).1.1 = v.isStrictNil ∧
          ((Pattern.lit .nil).match₁ r v' b asked).1.1 = !v.isStrictNil := by
        intro b asked
        exact ⟨same_nil v, (same_nil v').trans (Bool.eq_not.mpr (Ne.symm hNot))⟩
      refine not_selectAlike_probing hApart hLength hv hv'
        (hAlike _ (hMemo _) (isSimple_of_probing rfl) fun j w w' hw _ hLit hPlain => ?_)
      obtain ⟨-, rfl⟩ := eq_of_comparedAt_probing hLit
      rw [hv] at hw
      cases hw
      exact absurd hPlain hTagged

/-- A machine with a lazy list that has not been forced and is empty. -/
def endingAtOnce : State :=
  { nodes := #[{ iterator := .func "tail", state := Value.ofList {} [.int 9] }] }

/-- The strict list `(1)` and a cell in front of an empty lazy list share a key and
look the same, so every function selects the same clause for both. -/
theorem choice_of_shared_key_before_lazy_end :
    (callKey (Session.apply 20) 20 [.cell (.int 1) .nil (.fixed Ty.int)] {}).1 = .ok "(1 ) " ∧
      (callKey (Session.apply 20) 20 [.cell (.int 1) (.lazy 0) (.fixed Ty.int)]
        endingAtOnce).1 = .ok "(1 ) " ∧
      ∀ clauses, (∀ c ∈ clauses, ∀ p ∈ c.params, p.isSimple = true) →
        SelectAlike {} clauses [.cell (.int 1) .nil (.fixed Ty.int)]
          [.cell (.int 1) (.lazy 0) (.fixed Ty.int)] := by
  have hKey : (callKey (Session.apply 20) 20 [.cell (.int 1) .nil (.fixed Ty.int)] {}).1 =
      .ok "(1 ) " := by rfl
  have hKey' : (callKey (Session.apply 20) 20 [.cell (.int 1) (.lazy 0) (.fixed Ty.int)]
      endingAtOnce).1 = .ok "(1 ) " := by rfl
  have hEnded : (force (Session.apply 20) 0 endingAtOnce).1 = .ok .ended := by rfl
  have hChoice := choice_of_shared_key (r := {}) (Prod.ext hKey rfl) (Prod.ext hKey' rfl)
    (fun data h => by
      cases h with
      | cons hFirst hRest =>
          cases hRest
          cases hFirst with
          | cell elem hHead hTail =>
              cases hHead
              replace hTail : Forces (Session.apply 20) {} .nil _ _ := hTail
              cases hTail
              simp [Datum.AllNamed, Datum.Named])
    (fun data h => by
      cases h with
      | cons hFirst hRest =>
          cases hRest
          cases hFirst with
          | cell elem hHead hTail =>
              cases hHead
              replace hTail : Forces (Session.apply 20) endingAtOnce (.lazy 0) _ _ := hTail
              cases hTail with
              | ended hForce => simp [Datum.AllNamed, Datum.Named]
              | item hForce =>
                  rw [hForce] at hEnded
                  cases hEnded)
    (fun v hv => by
      rw [List.mem_singleton.mp hv]
      rfl)
  refine ⟨hKey, hKey', fun clauses hSimple => hChoice.1 clauses hSimple fun i v v' hv hv' => ?_⟩
  cases i with
  | zero =>
      cases hv
      cases hv'
      exact ⟨⟨rfl, rfl⟩, fun _ => rfl⟩
  | succ i => cases hv

/-- A machine with a memoized function, whose first clause asks for a list of
numbers, and with a lazy list that has not been forced: it is `("a")`. -/
def askingForInts : State :=
  { program :=
      { functions :=
          ⟨[("f", { name := "f",
                    clauses := [⟨[.typed "x" (.list Ty.int)], none, .lit (.str "ints"), true, false⟩,
                      ⟨[.bind "x"], none, .lit (.str "other"), true, false⟩] })]⟩ },
    nodes := #[{ iterator := .func "tail",
                 state := Value.ofList {} [.int 0, .str "a", Value.ofList {} [.int 9]] }] }

/-- **Two calls with one key and two clauses.**  The lazy list and the strict list
`("a")` have the same key; the first clause accepts the lazy one only.  After a
call with the lazy list, the call with the strict one is answered with what the
first clause gave, and not with what its own clause would have given. -/
theorem shared_key_selects_two_clauses :
    let strict := Value.ofList {} [.str "a"]
    let clauses := (askingForInts.program.function? "f").elim [] Function.clauses
    (callKey (Session.apply 20) 20 [.lazy 0] askingForInts).1 = .ok "(\"a\" ) " ∧
      (callKey (Session.apply 20) 20 [strict] askingForInts).1 = .ok "(\"a\" ) " ∧
      (choose? {} clauses [Value.lazy 0] #[]).1.map Choice.index = some 0 ∧
      (choose? {} clauses [strict] #[]).1.map Choice.index = some 1 ∧
      (Session.apply 20 (.func "f") [strict] askingForInts).1 = .ok (.str "other") ∧
      (Session.apply 20 (.func "f") [strict]
        (Session.apply 20 (.func "f") [.lazy 0] askingForInts).2).1 = .ok (.str "ints") := by
  intro strict clauses
  refine ⟨rfl, rfl, rfl, rfl, ?_, ?_⟩
  · cbv
  · cbv

end ClauseLisp
