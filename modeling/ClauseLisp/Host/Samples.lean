import ClauseLisp.Machine.State

/-!
# Sample operations of a host

A host that embeds the language adds operations of its own. These show every shape that the adapters
offer: fixed parameters of each kind, parameters followed by a rest, and a limit on the number of
arguments that is checked first. One of them replaces a builtin.
-/

namespace ClauseLisp.Host

/-- Name of the constructor of a value. -/
def kindOf : Value → String
  | .int _ => "int"
  | .bool _ => "bool"
  | .str _ => "str"
  | .nil => "nil"
  | .cell _ _ _ => "cons"
  | .lazy _ => "generator"
  | .func _ => "funcref"
  | .lambda _ => "lambda"
  | .tagged _ _ => "tagged"

/-- `text` several times over. -/
def repeated (text : String) (times : Int) : Except Error Value :=
  if times < 0 then .error (.typing (.host "repeat: negative count"))
  else if times > 100 then .error (.eval (.raised "repeat: too long"))
  else .ok (.str (String.join (List.replicate times.toNat text)))

/-- Sum of numbers, if every partial sum is one. -/
def sumFrom : Int → List Int → Except Error Value
  | n, [] => .ok (.int n)
  | n, m :: ms =>
    match Number.checked? (n + m) with
    | some n => sumFrom n ms
    | none => .error (.eval (.raised "sum overflow"))

/-- An operation whose adapter alone counts the arguments. -/
def plain (run : Operation) : HostOperation := ⟨.any, run⟩

/-- The sample operations, by name. -/
def samples : Dict HostOperation := Dict.ofList [
  ("n-answer", plain (Operation.fixed0 fun _ => .ok (.int 42))),
  ("n-even?", plain (Operation.fixed1 fun _ (n : Int) => .ok (.bool (n.tmod 2 = 0)))),
  ("n-flip", plain (Operation.fixed1 fun _ (b : Bool) => .ok (.bool !b))),
  ("n-shout", plain (Operation.fixed1 fun _ (s : String) => .ok (.str (s ++ "!")))),
  ("n-kind", plain (Operation.fixed1 fun _ (v : Value) => .ok (.str (kindOf v)))),
  ("n-repeat", plain (Operation.fixed2 fun _ (s : String) (n : Int) => repeated s n)),
  ("n-clamp", plain (Operation.fixed3 fun _ (x lo hi : Int) => .ok (.int (min (max x lo) hi)))),
  ("n-pick", plain (Operation.fixed3 fun _ (c : Bool) (a b : Value) =>
    .ok (if c then a else b))),
  ("n-fail", plain (Operation.fixed1 fun view (v : Value) =>
    .error (.resource ("n-fail " ++ v.display view.nodes)))),
  ("str", plain (Operation.fixed1 fun _ (_ : Value) => .ok (.str "native"))),
  ("n-count", ⟨.any, Operation.rest0 fun _ (vs : List Value) => .ok (.int vs.length)⟩),
  ("n-cat", ⟨.atLeast 2, Operation.rest0 fun _ (ss : List String) => .ok (.str (String.join ss))⟩),
  ("n-join", ⟨.any, Operation.rest1 fun _ (sep : String) (ss : List String) =>
    .ok (.str (sep.intercalate ss))⟩),
  ("n-sum-from", ⟨.any, Operation.rest1 fun _ (n : Int) (ns : List Int) => sumFrom n ns⟩),
  ("n-between", ⟨.any, Operation.rest2 fun _ (lo hi : Int) (ns : List Int) =>
    .ok (.bool (ns.all fun n => lo ≤ n && n ≤ hi))⟩),
  ("n-pack", ⟨.exact 3, Operation.rest2 fun view (b : Bool) (v : Value) (vs : List Value) =>
    .ok (Value.ofList view.types (.bool b :: v :: vs))⟩)]

end ClauseLisp.Host
