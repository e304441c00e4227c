import ClauseLisp.Machine.Eval
import ClauseLisp.Proofs.Loading.Placement
import ClauseLisp.Proofs.Run

/-!
# What evaluation leaves alone

Most of what evaluation does concerns what is new: nodes, closures, files and the
scopes of calls and blocks.  Of the scopes that existed before, an expression
writes to one at most: a `set` to the variables of the scope that it is evaluated
in, and a `set'` to its resources as well.

A `Frame` is a relation between states that all these moves keep, given what may be
written to.  `Keeps` says that a computation keeps such a relation, whatever its outcome
is.  Which relation it is
does not matter for following the machine, so this is done once, for all of them.

## Main results

* `Frame` — what a relation has to allow for.
* `Keeps.bind` — one computation after the other.
-/

namespace ClauseLisp

/-! ## Access -/

/-- What may be written to, of the scopes that exist. -/
inductive Access where
  | nothing
  /-- The variables of a scope. -/
  | names (scope : Nat)
  /-- The variables and the resources of a scope. -/
  | all (scope : Nat)

/-- Whether one access allows what another does. -/
def Access.Within : Access → Access → Prop
  | .nothing, _ => True
  | .names s, .names t => s = t
  | .names s, .all t => s = t
  | .all s, .all t => s = t
  | _, _ => False

theorem Access.nothing_within : ∀ a : Access, Access.nothing.Within a
  | .nothing => trivial
  | .names _ => trivial
  | .all _ => trivial

/-- What an expression may write to if it is evaluated in a scope. -/
def Expr.access (scope : Nat) : Expr → Access
  | .set _ _ _ true => .all scope
  | .set _ _ _ false => .names scope
  | _ => .nothing

theorem Expr.access_within (e : Expr) (scope : Nat) : (e.access scope).Within (.all scope) := by
  cases e with
  | set name ty value claims => cases claims <;> exact rfl
  | _ => trivial

theorem Expr.access_of_isPlaced {e : Expr} (h : e.isPlaced false = true) (scope : Nat) :
    e.access scope = .nothing := by
  cases e with
  | set name ty value claims => cases h
  | _ => rfl

/-! ## States -/

namespace State

/-- All code of a machine is placed. -/
structure Placed (s : State) : Prop where
  program : s.program.Placed
  closures : ∀ (id : Nat) (closure : Closure), s.closures[id]? = some closure →
    closure.clause.body.isPlaced false = true

/-- A state in which a scope has been made inside another, with some variables. -/
def entered (s : State) (parent : Nat) (vars : Dict Value) : State :=
  { s with scopes := ⟨s.scopes.table.push { parent := some parent, vars }⟩ }

/-- A state in which a scope has taken over what has been opened since there were
`mark` unclaimed files. -/
def claimed (s : State) (mark scope : Nat) : State :=
  { s with
    scopes := (s.unclaimed.take (s.unclaimed.length - mark)).foldr
      (fun handle ss => ss.acquire scope handle) s.scopes
    unclaimed := s.unclaimed.drop (s.unclaimed.length - mark) }

/-- A state in which a scope has been left. -/
def left (s : State) (scope : Nat) : State :=
  { s with
    scopes := s.scopes.freeze scope
    streams := (releaseAll closeStream (s.scopes.resources scope) s.streams).2 }

/-- A state in which a node has been settled with what its iterator says, after the
node for the rest of the list has been made. -/
def settled (s : State) (node : Nat) (iterator : Value) : IterStep → State
  | .finish =>
    { s with nodes := s.nodes.modify node fun n => { n with outcome := some .ended } }
  | .advance head state =>
    { s with
      nodes := (s.nodes.push { iterator, state }).modify node fun n =>
        { n with outcome := some (.item head (.lazy s.nodes.size)) } }

/-- A state in which a value has been kept in slots. -/
def keeping (s : State) (value : Value) (slots : List Awaited) : State :=
  { s with program := slots.foldl (fun p slot => p.remember slot.function slot.key value) s.program }

end State

/-- The scopes that may take files over exist. -/
def Access.FitsIn (a : Access) (s : State) : Prop :=
  ∀ scope, a = .all scope → scope < s.scopes.table.size

theorem Access.fitsIn_nothing (s : State) : Access.nothing.FitsIn s := fun _ h => nomatch h

theorem Access.fitsIn_names (scope : Nat) (s : State) : (Access.names scope).FitsIn s :=
  fun _ h => nomatch h

theorem Access.FitsIn.mono {a : Access} {s s' : State} (h : a.FitsIn s)
    (hScopes : s.scopes.table.size ≤ s'.scopes.table.size) : a.FitsIn s' :=
  fun scope hAll => Nat.lt_of_lt_of_le (h scope hAll) hScopes

theorem Access.FitsIn.within {a b : Access} {s : State} (h : b.FitsIn s) (hWithin : a.Within b) :
    a.FitsIn s := by
  intro scope hAll
  subst hAll
  cases b with
  | all other => exact hWithin ▸ h other rfl
  | _ => cases hWithin

/-! ## Relations that evaluation keeps -/

/-- A relation between states, given what may be written to, that every move of the
machine keeps. -/
structure Frame (R : Access → State → State → Prop) : Prop where
  refl : ∀ (a : Access) (s : State), R a s s
  trans : ∀ {a : Access} {s s' s'' : State}, R a s s' → R a s' s'' → R a s s''
  weaken : ∀ {a b : Access} {s s' : State}, a.Within b → R a s s' → R b s s'
  /-- Types are asked for. -/
  asked : ∀ (s : State) (asked : AskedTypes), R .nothing s { s with asked }
  /-- A lazy list is made. -/
  node : ∀ (s : State) (iterator state : Value),
    R .nothing s { s with nodes := s.nodes.push { iterator, state } }
  /-- A node is settled that has not been settled before. -/
  settled : ∀ {s : State} {node : Nat} (iterator : Value) (step : IterStep),
    s.nodes.outcome? node = none → R .nothing s (s.settled node iterator step)
  /-- Something is printed. -/
  printed : ∀ (s : State) (text : String), R .nothing s { s with output := s.output ++ text }
  /-- A file is opened. -/
  opened : ∀ (s : State) (stream : Stream), R .nothing s
    { s with streams := s.streams.push stream, unclaimed := s.streams.size :: s.unclaimed }
  /-- A file is read. -/
  read : ∀ (s : State) (handle : Nat) (stream : Stream), s.streams[handle]? = some stream →
    R .nothing s { s with streams := s.streams.modify handle fun _ => stream.read.2 }
  /-- A call gets its scope. -/
  entered : ∀ (s : State) (parent : Nat) (vars : Dict Value), R .nothing s (s.entered parent vars)
  /-- A lambda is made. -/
  closure : ∀ (s : State) (clause : Clause) (scope : Nat),
    R .nothing s { s with closures := s.closures.push ⟨clause, scope⟩ }
  /-- A name is bound in a scope that has not been left. -/
  bound : ∀ (s : State) (scope : Nat) (name : String) (value : Value),
    s.scopes.isFrozen scope = false →
    R (.names scope) s { s with scopes := s.scopes.put scope name value }
  /-- What has been opened by an evaluation is taken over. -/
  claimed : ∀ {s s' : State} {scope : Nat}, R .nothing s s' → scope < s.scopes.table.size →
    R (.all scope) s (s'.claimed s.unclaimed.length scope)
  /-- A block is left, the scope of which is new. -/
  left : ∀ {s s' : State} {parent : Nat},
    R (.all s.scopes.table.size) (s.entered parent {}) s' →
    R .nothing s (s'.left s.scopes.table.size)
  /-- A block ends in tail position, and its scope holds nothing. -/
  followed : ∀ {s s' : State} {parent : Nat},
    R (.all s.scopes.table.size) (s.entered parent {}) s' →
    s'.scopes.holds s.scopes.table.size = false → R .nothing s s'
  /-- What is bound in a new scope does not concern those that were there before. -/
  forgotten : ∀ {s s' s'' : State} {scope : Nat}, s.scopes.table.size ≤ scope →
    R .nothing s s' → R (.names scope) s' s'' → R .nothing s s''
  /-- A result is kept for the calls that wait for it. -/
  kept : ∀ (s : State) (value : Value) (slots : List Awaited), R .nothing s (s.keeping value slots)

/-- What becomes of a state with placed code. -/
structure Kept (R : Access → State → State → Prop) (a : Access) (s s' : State) : Prop where
  placed : s'.Placed
  scopes : s.scopes.table.size ≤ s'.scopes.table.size
  related : R a s s'

theorem Kept.refl {R : Access → State → State → Prop} (hR : Frame R) (a : Access) {s : State}
    (h : s.Placed) : Kept R a s s :=
  ⟨h, Nat.le_refl _, hR.refl a s⟩

theorem Kept.trans {R : Access → State → State → Prop} (hR : Frame R) {a : Access}
    {s s' s'' : State} (h : Kept R a s s') (h' : Kept R a s' s'') : Kept R a s s'' :=
  ⟨h'.placed, Nat.le_trans h.scopes h'.scopes, hR.trans h.related h'.related⟩

theorem Kept.weaken {R : Access → State → State → Prop} (hR : Frame R) {a b : Access}
    {s s' : State} (h : Kept R a s s') (hWithin : a.Within b) : Kept R b s s' :=
  ⟨h.placed, h.scopes, hR.weaken hWithin h.related⟩

/-- A computation that keeps a relation, whatever its outcome is. -/
def Keeps {α : Type} (R : Access → State → State → Prop) (a : Access) (x : Run α) : Prop :=
  ∀ s : State, s.Placed → a.FitsIn s → Kept R a s (x s).2

namespace Keeps

variable {R : Access → State → State → Prop} {a : Access} {α β : Type}

section

variable (hR : Frame R)

include hR

theorem pure (value : α) : Keeps R a (Pure.pure value : Run α) :=
  fun _ hPlaced _ => .refl hR a hPlaced

theorem throw (stop : Stop) : Keeps R a (MonadExcept.throw stop : Run α) :=
  fun _ hPlaced _ => .refl hR a hPlaced

theorem fail (error : Error) : Keeps R a (ClauseLisp.fail error : Run α) := throw hR _

theorem get : Keeps R a (MonadState.get : Run State) :=
  fun _ hPlaced _ => .refl hR a hPlaced

theorem ofExcept (x : Except Error α) : Keeps R a (Run.ofExcept x) := by
  cases x with
  | ok value => exact pure hR value
  | error error => exact fail hR error

/-- **One computation after the other.** -/
theorem bind {x : Run α} {f : α → Run β} (hx : Keeps R a x) (hf : ∀ value, Keeps R a (f value)) :
    Keeps R a (x >>= f) := by
  intro s hPlaced hFits
  have hFirst : Kept R a s (x s).2 := hx s hPlaced hFits
  rw [Run.bind_apply]
  rcases hRun : x s with ⟨stop | value, s'⟩ <;> rw [hRun] at hFirst
  · exact hFirst
  · exact hFirst.trans hR (hf value s' hFirst.placed (hFits.mono hFirst.scopes))

theorem weaken {b : Access} {x : Run α} (h : Keeps R a x) (hWithin : a.Within b) :
    Keeps R b x := by
  intro s hPlaced hFits
  have hKept : Kept R a s (x s).2 := h s hPlaced (hFits.within hWithin)
  exact hKept.weaken hR hWithin

theorem typing (x : Typing α) : Keeps R .nothing (Run.typing x) :=
  fun s hPlaced _ => ⟨⟨hPlaced.program, hPlaced.closures⟩, Nat.le_refl _, hR.asked s _⟩

end

theorem mapError {f : Error → Error} {x : Run α} (h : Keeps R a x) :
    Keeps R a (Run.mapError f x) := by
  intro s hPlaced hFits
  have hKept : Kept R a s (x s).2 := h s hPlaced hFits
  have hSame : (Run.mapError f x s).2 = (x s).2 := by
    unfold Run.mapError
    rcases x s with ⟨(error | _ | _) | value, s'⟩ <;> rfl
  rw [hSame]
  exact hKept

end Keeps

end ClauseLisp
