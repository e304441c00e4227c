import ClauseLisp.Value.Basic

/-!
# Lazy nodes

A lazy node is a position in a list that an iterator produces. It remembers the iterator and the
state to call it with, and once it has been forced, the outcome: the list ends here, or it has a
head here and goes on. Nodes are kept in a table that only grows.
-/

namespace ClauseLisp

/-- Outcome of forcing a lazy node. -/
inductive LazyOutcome where
  /-- The list ends here. -/
  | ended
  /-- The element here, and the list after it. -/
  | item (head next : Value)
deriving Repr, DecidableEq, Inhabited

/-- A position in a lazy list. -/
structure LazyNode where
  iterator : Value
  state : Value
  outcome : Option LazyOutcome := none
deriving Repr, DecidableEq, Inhabited

/-- The table of lazy nodes. -/
abbrev LazyNodes := Array LazyNode

/-- The outcome of a node, if it has been forced. -/
def LazyNodes.outcome? (nodes : LazyNodes) (node : Nat) : Option LazyOutcome :=
  match nodes[node]? with
  | some n => n.outcome
  | none => none

/-- The known elements of a list and whether an unforced node follows them; `hops` bounds the number
of lazy nodes on the way. -/
def Value.spineOnto (nodes : LazyNodes) : Nat → List Value → Value → List Value × Bool
  | 0, done, _ => (done.reverse, true)
  | hops + 1, done, value =>
    match strictPart done value with
    | (done, .lazy node) =>
      match nodes.outcome? node with
      | none => (done.reverse, true)
      | some .ended => (done.reverse, false)
      | some (.item head next) => spineOnto nodes hops (head :: done) next
    | (done, _) => (done.reverse, false)

/-- The elements of a list that are known without forcing anything, and whether an unforced node
follows them. -/
def Value.spine (nodes : LazyNodes) (value : Value) : List Value × Bool :=
  value.spineOnto nodes (nodes.size + 1) []

end ClauseLisp
