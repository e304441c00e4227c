import ClauseLisp.Machine.State

/-!
# Forcing lazy lists

Forcing a node calls its iterator with its state, once. The result says what the node is: the
empty list ends the list here; `(v)` is a head that is also the state of the next node; `(v s)` is
a head and the state of the next node. The first outcome that is stored stands, also if the
iterator forced its own node meanwhile.

Everything here takes the way to call a function as a parameter.
-/

namespace ClauseLisp

/-- The way to call a function value. -/
abbrev Caller := Value → List Value → Run Value

/-- What the result of an iterator says. -/
inductive IterStep where
  | finish
  | advance (head state : Value)
deriving Repr, DecidableEq, Inhabited

/-- Understand the result of an iterator. -/
def IterStep.ofValue? (result : Value) : Option IterStep :=
  match result.untagged with
  | .nil => some .finish
  | .cell _ _ _ =>
    match result.items? with
    | some [head] => some (.advance head head)
    | some [head, state] => some (.advance head state)
    | _ => none
  | _ => none

/-- Store the outcome of a node. -/
def storeOutcome (node : Nat) (forced : LazyOutcome) : Run Unit :=
  modify fun s => { s with nodes := s.nodes.modify node fun n => { n with outcome := some forced } }

/-- Settle a node that has not been forced, from the result of its iterator. -/
def recordStep (node : Nat) (iterator : Value) (step : IterStep) : Run LazyOutcome := do
  match (← get).nodes.outcome? node with
  | some forced => return forced
  | none =>
    let forced : LazyOutcome ←
      match step with
      | .finish => pure .ended
      | .advance head state => do
        let next ← newNode iterator state
        pure (.item head next)
    storeOutcome node forced
    return forced

/-- Force a node. -/
def force (call : Caller) (node : Nat) : Run LazyOutcome := do
  match (← get).nodes[node]? with
  | none => return .ended
  | some n =>
    match n.outcome with
    | some forced => return forced
    | none =>
      let result ← call n.iterator [n.state]
      match IterStep.ofValue? result with
      | some step => recordStep node n.iterator step
      | none => fail (.eval (.badStep ((← get).repr result)))

/-- Head and tail of a list, forcing its first node if it is lazy; none for an empty list. -/
def uncons (call : Caller) (context : String) (value : Value) : Run (Option (Value × Value)) := do
  match value.untagged with
  | .nil => return none
  | .cell head tail _ => return some (head, tail)
  | .lazy node =>
    match ← force call node with
    | .ended => return none
    | .item head next => return some (head, next)
  | other => fail (.cast context "list" ((← get).repr other) 0)

/-- The elements of a list, after those in `done`, which are listed last first; `fuel` bounds their
number. -/
def elementsOnto (call : Caller) (context : String) :
    Nat → List Value → Value → Run (List Value)
  | 0, _, _ => throw .outOfFuel
  | fuel + 1, done, value => do
    match ← uncons call context value with
    | none => return done.reverse
    | some (head, tail) => elementsOnto call context fuel (head :: done) tail

/-- The elements of a list, which is forced to its end. -/
def elements (call : Caller) (fuel : Nat) (context : String) (value : Value) : Run (List Value) :=
  elementsOnto call context fuel [] value

/-- Force the first node of a lazy list, so that a literal can be compared with it; an ended list
becomes the empty list. -/
def exposeHead (call : Caller) (value : Value) : Run Value := do
  match value with
  | .lazy node =>
    match ← force call node with
    | .ended => return .nil
    | .item _ _ => return value
  | _ => return value

end ClauseLisp
