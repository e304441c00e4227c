import ClauseLisp.Machine.Session
import ClauseLisp.Proofs.Builtins.Calls

/-!
# Arithmetic is exact or fails

The nine operations on numbers convert all their arguments before anything is worked
out, so the first argument that is no number is reported whatever the others are.
On numbers a fold goes through the exact intermediate results and stops at the first
that is no number; division goes toward zero; a comparison of neighbours is one of
all pairs, since the four relations are transitive.

## Main results

* `foldChecked_numbers`, `foldChecked_overflow` — a fold is exact or overflows.
* `inRange_tdiv_iff` — quotients of numbers are numbers, with one exception.
* `chained_eq_pairwise` — neighbours are enough for a comparison.
* `arithmetic_exact` — what the nine operations answer, on all arguments whose number
  they admit.
-/

namespace ClauseLisp

open Operation

/-! ## Arguments -/

/-- A number, under a tag or not. -/
def Value.IsNumber (value : Value) : Prop := ∃ n, value.untagged = .int n

theorem argument_number {view : View} {position : Nat} {value : Value} {n : Int}
    (h : value.untagged = .int n) : argument Int view position value = .ok n := by
  simp [argument, Argument.ofValue?, h]

theorem argument_other {view : View} {position : Nat} {value : Value} (h : ¬ value.IsNumber) :
    argument Int view position value = .error (view.argumentError "int" value position) := by
  have hNone : (Argument.ofValue? value : Option Int) = none := by
    cases hUnder : value.untagged with
    | int n => exact absurd ⟨n, hUnder⟩ h
    | _ => simp [Argument.ofValue?, hUnder]
  simp only [argument, hNone]
  rfl

/-- Numbers are converted in their order. -/
theorem arguments_numbers {view : View} {values : List Value} {ns : List Int}
    (h : values.map Value.untagged = ns.map Value.int) (position : Nat) :
    arguments Int view position values = .ok ns := by
  induction values generalizing ns position with
  | nil =>
      have hEmpty : ns = [] := by simpa using h.symm
      subst hEmpty
      rfl
  | cons value values ih =>
      cases ns with
      | nil => simp at h
      | cons n ns =>
          obtain ⟨hFirst, hRest⟩ := List.cons.inj h
          simp only [arguments, argument_number hFirst, ih hRest]
          rfl

/-- The first argument that is no number is reported with its position. -/
theorem arguments_other {view : View} {values : List Value} {position : Nat} {value : Value}
    (h : FirstWithout Value.IsNumber values position value) (start : Nat) :
    arguments Int view start values =
      .error (view.argumentError "int" value (start + position)) := by
  induction values generalizing position start with
  | nil => simpa using h.found
  | cons first values ih =>
      cases position with
      | zero =>
          simp only [arguments, h.head, argument_other h.without]
          rfl
      | succ position =>
          obtain ⟨n, hFirst⟩ := h.passes
          simp only [arguments, argument_number hFirst, ih h.tail]
          rw [Nat.add_assoc, Nat.add_comm 1]
          rfl

section

variable {view : View} {values : List Value}

theorem rest0_numbers {f : View → List Int → Except Error Value} {ns : List Int}
    (h : values.map Value.untagged = ns.map Value.int) : rest0 f view values = f view ns := by
  simp only [rest0, arguments_numbers h]
  rfl

theorem rest0_other {f : View → List Int → Except Error Value} {position : Nat} {value : Value}
    (h : FirstWithout Value.IsNumber values position value) :
    rest0 f view values = .error (view.argumentError "int" value position) := by
  simp only [rest0, arguments_other h, Nat.zero_add]
  rfl

/-- A first argument that is converted by itself makes no difference. -/
theorem rest1_eq_rest0 {f : View → Int → List Int → Except Error Value} (h : values ≠ []) :
    rest1 f view values = rest0 (fun view ns => f view (ns.headD 0) ns.tail) view values := by
  cases values with
  | nil => exact absurd rfl h
  | cons first values =>
      simp only [rest1, rest0, arguments, Nat.zero_add]
      cases argument Int view 0 first with
      | error error => rfl
      | ok n => cases arguments Int view 1 values <;> rfl

/-- Nor do two that are converted one after the other. -/
theorem fixed2_eq_rest0 {f : View → Int → Int → Except Error Value} (h : values.length = 2) :
    fixed2 f view values =
      rest0 (fun view ns => f view (ns.headD 0) (ns.tail.headD 0)) view values := by
  obtain ⟨left, right, rfl⟩ := List.length_eq_two.mp h
  simp only [fixed2, rest0, arguments, Nat.zero_add]
  cases argument Int view 0 left with
  | error error => rfl
  | ok a => cases argument Int view 1 right <;> rfl

end

/-! ## Folds -/

theorem checked_number {operation : String} {n : Int} (h : Number.inRange n) :
    checked operation n = .ok n := by
  simp [checked, Number.checked?, h]

theorem checked_overflow {operation : String} {n : Int} (h : ¬ Number.inRange n) :
    checked operation n = .error (.eval (.overflow operation)) := by
  simp [checked, Number.checked?, h]

section

variable {operation : String} {f : Int → Int → Int}

/-- **A fold whose intermediate results are all numbers is exact.** -/
theorem foldChecked_numbers {n : Int} {ms : List Int}
    (h : ∀ r ∈ ms.scanl f n, Number.inRange r) :
    foldChecked operation f n ms = .ok (ms.foldl f n) := by
  induction ms generalizing n with
  | nil => rfl
  | cons m ms ih =>
      have hRest : ∀ r ∈ ms.scanl f (f n m), Number.inRange r :=
        fun r hr => h r (by simp [List.scanl_cons, hr])
      have hNext : Number.inRange (f n m) := hRest _ (by cases ms <;> simp [List.scanl_cons])
      simp only [foldChecked, checked_number hNext, List.foldl_cons]
      exact ih hRest

/-- **A fold with an intermediate result that is no number overflows**, if it starts
at a number. -/
theorem foldChecked_overflow {n : Int} {ms : List Int} (hStart : Number.inRange n)
    (h : ¬ ∀ r ∈ ms.scanl f n, Number.inRange r) :
    foldChecked operation f n ms = .error (.eval (.overflow operation)) := by
  induction ms generalizing n with
  | nil => simp [hStart] at h
  | cons m ms ih =>
      by_cases hNext : Number.inRange (f n m)
      · have hRest : ¬ ∀ r ∈ ms.scanl f (f n m), Number.inRange r := by
          intro hAll
          exact h (by simpa [List.scanl_cons, hStart] using hAll)
        simp only [foldChecked, checked_number hNext]
        exact ih hNext hRest
      · simp only [foldChecked, checked_overflow hNext]

end

/-! ## Division -/

theorem inRange_iff {n : Int} :
    Number.inRange n ↔ -9223372036854775808 ≤ n ∧ n ≤ 9223372036854775807 := by
  simp only [Number.inRange, Bool.and_eq_true, decide_eq_true_eq]
  rfl

/-- **The quotient of two numbers is a number, unless the least one is divided by −1.** -/
theorem inRange_tdiv_iff {a d : Int} (ha : Number.inRange a) (hd : d ≠ 0) :
    Number.inRange (a.tdiv d) ↔ ¬ (a = Number.least ∧ d = -1) := by
  rw [inRange_iff] at ha ⊢
  constructor
  · rintro hQuotient ⟨rfl, rfl⟩
    simp [Number.least] at hQuotient
  · intro hOther
    have hSize : (a.tdiv d).natAbs = a.natAbs / d.natAbs := Int.natAbs_tdiv a d
    simp only [Number.least] at hOther
    by_cases hUnit : d.natAbs = 1
    · rcases (show d = 1 ∨ d = -1 by omega) with rfl | rfl
      · simpa using ha
      · simp only [Int.tdiv_neg, Int.tdiv_one]
        omega
    · have hHalf : a.natAbs / d.natAbs ≤ a.natAbs / 2 :=
        Nat.div_le_div_left (by omega) (by decide)
      omega

/-- Quotient and remainder of the division toward zero. -/
structure TowardZero (a d q r : Int) : Prop where
  truncated : q = a.tdiv d
  whole : a = q * d + r
  small : r.natAbs < d.natAbs
  sign : r = 0 ∨ r.sign = a.sign

theorem towardZero {a d : Int} (h : d ≠ 0) : TowardZero a d (a.tdiv d) (a.tmod d) where
  truncated := rfl
  whole := (Int.tdiv_mul_add_tmod a d).symm
  small := by
    rw [Int.natAbs_tmod]
    exact Nat.mod_lt _ (by omega)
  sign := by
    have hSign := Int.sign_tmod a d
    by_cases hDvd : d ∣ a
    · exact .inl (by simpa [hDvd] using hSign)
    · exact .inr (by simpa [hDvd] using hSign)

/-! ## Comparisons -/

/-- **A relation that is transitive holds between neighbours if and only if it holds
between every earlier and every later number.** -/
theorem chained_eq_pairwise {R : Int → Int → Prop} [DecidableRel R] [Trans R R R] (n : Int)
    (ms : List Int) : chained (fun a b => R a b) n ms = decide ((n :: ms).Pairwise R) := by
  have hChain : chained (fun a b => R a b) n ms = true ↔ (n :: ms).IsChain R := by
    induction ms generalizing n with
    | nil => simp [chained]
    | cons m ms ih => simp [chained, ih]
  rw [Bool.eq_iff_iff, hChain, List.isChain_iff_pairwise, decide_eq_true_iff]

/-! ## The nine operations -/

/-- The operations on numbers. -/
inductive Numeric where
  | add
  | subtract
  | multiply
  | divide
  | remainder
  | less
  | greater
  | lessEqual
  | greaterEqual
deriving Repr, DecidableEq

/-- An answer is an exact result if that and all results on the way to it are numbers, and an
overflow otherwise. -/
structure ExactOrOverflow (operation : String) (results : List Int) (result : Int)
    (answer : Except Stop Value) : Prop where
  exact : answer = .ok (.int result) ↔ ∀ r ∈ results, Number.inRange r
  overflow : answer = .error (.error (.eval (.overflow operation))) ↔
    ¬ ∀ r ∈ results, Number.inRange r

/-- An answer is one of the two results of a division toward zero, which fails on the divisor zero
and where the quotient is no number. -/
structure Divides (a d : Int) (byZero : EvalCause) (operation : String) (wanted : Int → Int → Int)
    (answer : Except Stop Value) : Prop where
  zero : d = 0 → answer = .error (.error (.eval byZero))
  overflow : a = Number.least → d = -1 →
    answer = .error (.error (.eval (.overflow operation)))
  exact : d ≠ 0 → ¬ (a = Number.least ∧ d = -1) →
    ∃ q r, TowardZero a d q r ∧ answer = .ok (.int (wanted q r))

section

variable {name operation : String} {x : Except Error Int}

theorem ExactOrOverflow.of_result {results : List Int} {result : Int}
    (hExact : (∀ r ∈ results, Number.inRange r) → x = .ok result)
    (hOverflow : (¬ ∀ r ∈ results, Number.inRange r) →
      x = .error (.eval (.overflow operation))) :
    ExactOrOverflow operation results result (Builtin.outcome name (intResult x)) := by
  by_cases hAll : ∀ r ∈ results, Number.inRange r
  · rw [hExact hAll]
    exact ⟨iff_of_true rfl hAll, iff_of_false nofun (not_not_intro hAll)⟩
  · rw [hOverflow hAll]
    exact ⟨iff_of_false nofun hAll, iff_of_true rfl hAll⟩

theorem Divides.of_result {a d : Int} {byZero : EvalCause} {wanted : Int → Int → Int}
    (ha : Number.inRange a) (hZero : d = 0 → x = .error (.eval byZero))
    (hOther : d ≠ 0 → x = (checked operation (a.tdiv d)).map fun q => wanted q (a.tmod d)) :
    Divides a d byZero operation wanted (Builtin.outcome name (intResult x)) where
  zero hd := by
    rw [hZero hd]
    rfl
  overflow hLeast hd := by
    have hNonzero : d ≠ 0 := by omega
    have hBeyond : ¬ Number.inRange (a.tdiv d) :=
      fun hFits => (inRange_tdiv_iff ha hNonzero).mp hFits ⟨hLeast, hd⟩
    rw [hOther hNonzero, checked_overflow hBeyond]
    rfl
  exact hd hSplit := by
    have hQuotient : Number.inRange (a.tdiv d) := (inRange_tdiv_iff ha hd).mpr hSplit
    rw [hOther hd, checked_number hQuotient]
    exact ⟨_, _, towardZero hd, rfl⟩

end

namespace Numeric

/-- What the operation is called. -/
def name : Numeric → String
  | .add => "+"
  | .subtract => "-"
  | .multiply => "*"
  | .divide => "/"
  | .remainder => "%"
  | .less => "<"
  | .greater => ">"
  | .lessEqual => "<="
  | .greaterEqual => ">="

/-- What is right as an answer to numbers; the operations do not admit other numbers of
arguments. -/
def Right : Numeric → List Int → Except Stop Value → Prop
  | .add, ns => ExactOrOverflow "addition" (ns.scanl (· + ·) 0) (ns.foldl (· + ·) 0)
  | .subtract, [n] => ExactOrOverflow "negation" [-n] (-n)
  | .subtract, n :: ms => ExactOrOverflow "subtraction" (ms.scanl (· - ·) n) (ms.foldl (· - ·) n)
  | .multiply, n :: ms =>
    ExactOrOverflow "multiplication" (ms.scanl (· * ·) n) (ms.foldl (· * ·) n)
  | .divide, [a, d] => Divides a d .divisionByZero "division" fun q _ => q
  | .remainder, [a, d] => Divides a d .moduloByZero "modulo" fun _ r => r
  | .less, ns => (· = .ok (.bool (decide (ns.Pairwise (· < ·)))))
  | .greater, ns => (· = .ok (.bool (decide (ns.Pairwise (· > ·)))))
  | .lessEqual, ns => (· = .ok (.bool (decide (ns.Pairwise (· ≤ ·)))))
  | .greaterEqual, ns => (· = .ok (.bool (decide (ns.Pairwise (· ≥ ·)))))
  | _, _ => fun _ => False

/-- How the operation works on its arguments. -/
def operation : Numeric → Operation
  | .add => Operation.add
  | .subtract => Operation.sub
  | .multiply => Operation.mul
  | .divide => Operation.div
  | .remainder => Operation.mod
  | .less => Operation.less
  | .greater => Operation.greater
  | .lessEqual => Operation.lessEqual
  | .greaterEqual => Operation.greaterEqual

/-- The number of arguments that the operation admits. -/
def arity : Numeric → Arity
  | .add => .any
  | .subtract | .multiply => .atLeast 1
  | .divide | .remainder => .exact 2
  | _ => .atLeast 2

/-- The operations are in the table of builtins. -/
theorem of_find? {op : Numeric} {b : Builtin} (h : Builtin.find? op.name = some b) :
    b.id = op.name ∧ b.body = .operation op.operation ∧ b.arity = op.arity := by
  refine ⟨Builtin.id_of_find? h, ?_⟩
  cases op <;> cases h <;> exact ⟨rfl, rfl⟩

/-- What the operation makes of numbers. -/
def answer : Numeric → List Int → Except Error Value
  | .add, ns => intResult (sum ns)
  | .subtract, ns => intResult (difference (ns.headD 0) ns.tail)
  | .multiply, ns => intResult (product (ns.headD 0) ns.tail)
  | .divide, ns => intResult (quotient (ns.headD 0) (ns.tail.headD 0))
  | .remainder, ns => intResult (Operation.remainder (ns.headD 0) (ns.tail.headD 0))
  | .less, ns => .ok (.bool (chained (fun m n => m < n) (ns.headD 0) ns.tail))
  | .greater, ns => .ok (.bool (chained (fun m n => m > n) (ns.headD 0) ns.tail))
  | .lessEqual, ns => .ok (.bool (chained (fun m n => m ≤ n) (ns.headD 0) ns.tail))
  | .greaterEqual, ns => .ok (.bool (chained (fun m n => m ≥ n) (ns.headD 0) ns.tail))

variable {op : Numeric} {view : View} {arguments : List Value} {ns : List Int}

/-- **All nine convert all their arguments before they work anything out.** -/
theorem operation_eq_rest0 (h : op.arity.fault? arguments.length = none) :
    op.operation view arguments = rest0 (fun _ ns => op.answer ns) view arguments := by
  have hSome : ∀ {n}, (Arity.atLeast (n + 1)).fault? arguments.length = none → arguments ≠ [] := by
    rintro n hAdmitted rfl
    simp [Arity.fault?] at hAdmitted
  have hTwo : (Arity.exact 2).fault? arguments.length = none → arguments.length = 2 := by
    simp [Arity.fault?]
  cases op with
  | add => rfl
  | divide | remainder => exact fixed2_eq_rest0 (hTwo h)
  | _ => exact rest1_eq_rest0 (hSome h)

theorem newValue_answer {value : Value} (h : op.answer ns = .ok value) (s : State) :
    newValue value s = (.ok value, s) := by
  have hInt : ∀ {x : Except Error Int}, intResult x = .ok value →
      newValue value s = (.ok value, s) := by
    intro x hx
    cases x with
    | ok n => cases hx; rfl
    | error error => cases hx
  cases op with
  | less | greater | lessEqual | greaterEqual => cases h; rfl
  | _ => exact hInt h

/-- **Numbers are answered rightly**, by each operation for its own reason. -/
theorem answer_right (hArity : op.arity.fault? ns.length = none)
    (hRange : ∀ n ∈ ns, Number.inRange n) :
    op.Right ns (Builtin.outcome op.name (op.answer ns)) := by
  have hSome : ∀ {k}, (Arity.atLeast (k + 1)).fault? ns.length = none →
      ∃ n ms, ns = n :: ms := by
    intro k hAdmitted
    refine List.exists_cons_of_ne_nil ?_
    rintro rfl
    simp [Arity.fault?] at hAdmitted
  have hTwo : (Arity.exact 2).fault? ns.length = none → ∃ a d, ns = [a, d] := by
    simp [Arity.fault?, List.length_eq_two]
  have hFold : ∀ {operation : String} {f : Int → Int → Int} {n : Int} (ms : List Int),
      Number.inRange n → ExactOrOverflow operation (ms.scanl f n) (ms.foldl f n)
        (Builtin.outcome op.name (intResult (foldChecked operation f n ms))) :=
    fun _ hStart => .of_result foldChecked_numbers (foldChecked_overflow hStart)
  cases op with
  | add => exact hFold ns (by decide)
  | subtract =>
      obtain ⟨n, ms, rfl⟩ := hSome hArity
      cases ms with
      | nil =>
          exact .of_result (fun hFits => checked_number (hFits _ (by simp)))
            (fun hBeyond => checked_overflow (by simpa using hBeyond))
      | cons m ms => exact hFold (m :: ms) (hRange n (by simp))
  | multiply =>
      obtain ⟨n, ms, rfl⟩ := hSome hArity
      exact hFold ms (hRange n (by simp))
  | divide =>
      obtain ⟨a, d, rfl⟩ := hTwo hArity
      refine .of_result (hRange a (by simp)) (fun hd => by simp [quotient, hd]) fun hd => ?_
      simp only [List.headD_cons, List.tail_cons, quotient, hd, if_false]
      cases checked "division" (a.tdiv d) <;> rfl
  | remainder =>
      obtain ⟨a, d, rfl⟩ := hTwo hArity
      refine .of_result (hRange a (by simp)) (fun hd => by simp [Operation.remainder, hd])
        fun hd => ?_
      simp only [List.headD_cons, List.tail_cons, Operation.remainder, hd, if_false]
      cases checked "modulo" (a.tdiv d) <;> rfl
  | less | greater | lessEqual | greaterEqual =>
      obtain ⟨n, ms, rfl⟩ := hSome hArity
      exact congrArg (fun b => Except.ok (Value.bool b)) (chained_eq_pairwise n ms)

end Numeric

/-- **Arithmetic is exact or fails.** A call with an admitted number of arguments leaves the state
alone. An argument that is no number under its tag is reported, the first if there are several;
otherwise the answer is right for the numbers: an exact fold or an overflow, a division toward zero,
or whether the relation holds between all pairs. -/
theorem arithmetic_exact (op : Numeric) {b : Builtin} (hFind : Builtin.find? op.name = some b)
    {arguments : List Value} (hArity : b.arity.fault? arguments.length = none)
    (call : Caller) (fuel : Nat) (s : State) :
    ∃ answer, b.called call fuel arguments s = (answer, s) ∧
      (∀ position value, FirstWithout Value.IsNumber arguments position value →
        answer = .error (.error (.cast op.name "int" (s.repr value) position))) ∧
      ∀ ns : List Int, arguments.map Value.untagged = ns.map Value.int →
        (∀ n ∈ ns, Number.inRange n) → op.Right ns answer := by
  obtain ⟨hId, hBody, hAdmits⟩ := Numeric.of_find? hFind
  rw [hAdmits] at hArity
  have hReads : op.operation s.view arguments = _ := Numeric.operation_eq_rest0 hArity
  have hMade : ∀ value, op.operation s.view arguments = .ok value →
      newValue value s = (.ok value, s) := by
    intro value hValue
    rw [hReads, rest0] at hValue
    cases hArguments : Operation.arguments Int s.view 0 arguments with
    | error error =>
        rw [hArguments] at hValue
        cases hValue
    | ok ns =>
        rw [hArguments] at hValue
        exact Numeric.newValue_answer hValue s
  have hCalled := Builtin.called_operation hBody hMade call fuel
  rw [hId] at hCalled
  refine ⟨_, hCalled, fun position value hOther => ?_, fun ns hNumbers hRange => ?_⟩
  · rw [hReads, rest0_other hOther]
    rfl
  · have hLength : arguments.length = ns.length := by simpa using congrArg List.length hNumbers
    rw [hReads, rest0_numbers hNumbers]
    exact Numeric.answer_right (hLength ▸ hArity) hRange

/-- One less than the least number is an overflow, under a tag as well, and text is refused though
the difference before it would be one. -/
theorem arithmetic_exact_of_least_minus_one :
    ∃ b, Builtin.find? "-" = some b ∧ b.arity = .atLeast 1 ∧
      b.called (.ofMachine 1 0) 1 [.tagged "Depth" (.int Number.least), .int 1] (Session.start {}) =
        (.error (.error (.eval (.overflow "subtraction"))), Session.start {}) ∧
      b.called (.ofMachine 1 0) 1 [.int Number.least, .int 1, .str "m"] (Session.start {}) =
        (.error (.error (.cast "-" "int" "\"m\"" 2)), Session.start {}) := by
  have hAdmits : ∀ first second rest,
      (Arity.atLeast 1).fault? (first :: second :: rest : List Value).length = none := by
    simp [Arity.fault?]
  refine ⟨_, rfl, rfl, ?_, ?_⟩
  · obtain ⟨answer, hCalled, -, hRight⟩ := arithmetic_exact .subtract rfl
      (hAdmits (.tagged "Depth" (.int Number.least)) (.int 1) []) (.ofMachine 1 0) 1
      (Session.start {})
    have hExact := hRight [Number.least, 1] rfl (by decide)
    rw [hCalled, hExact.overflow.mpr (by decide)]
  · obtain ⟨answer, hCalled, hOther, -⟩ := arithmetic_exact .subtract rfl
      (hAdmits (.int Number.least) (.int 1) [.str "m"]) (.ofMachine 1 0) 1 (Session.start {})
    have hText : FirstWithout Value.IsNumber [.int Number.least, .int 1, .str "m"] 2 (.str "m") :=
      ⟨rfl, by simp [Value.IsNumber, Value.untagged], by simp [Value.IsNumber, Value.untagged]⟩
    rw [hCalled, hOther 2 (.str "m") hText]
    rfl

end ClauseLisp
