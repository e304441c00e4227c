import ClauseLisp.Proofs.Loading.Steps
import ClauseLisp.Proofs.Types.Stability

/-!
# Declarations are conservative

What is resolved when a program is loaded, found for the elements of a list or
inferred for an expression is used again after later modules or entries have
declared more.  That is safe: declarations keep a registry grounded, a refused one
changes nothing, and none changes an answer that was there before it.

## Main results

* `Program.declareAll_refused` — a refused declaration leaves the program as the accepted
  ones before it have made it.
* `Registry.declarations_conservative` — registries stay grounded and go on giving the
  answers that they gave.
-/

namespace ClauseLisp

/-- **A refused declaration changes nothing**: after it the program is what the
declarations before it, all accepted, have made of it. -/
theorem Program.declareAll_refused {stop : Stop} :
    ∀ {forms : List Form} {p : Program}, (declareAll forms p).1 = .error stop →
      ∃ before form after error, forms = before ++ form :: after ∧
        declareAll before p = (.ok (), (declareAll forms p).2) ∧
        (declareAll forms p).2.declare form = .error error := by
  intro forms
  induction forms with
  | nil => exact fun h => nomatch h
  | cons form forms ih =>
      intro p h
      rw [declareAll_cons] at h ⊢
      cases hDeclare : p.declare form with
      | error error => exact ⟨[], form, forms, error, rfl, rfl, hDeclare⟩
      | ok p' =>
          rw [hDeclare] at h
          obtain ⟨before, refused, after, error, rfl, hBefore, hRefused⟩ := ih h
          refine ⟨form :: before, refused, after, error, rfl, ?_, hRefused⟩
          rw [declareAll_cons, hDeclare]
          exact hBefore

namespace Ty.Registry

/-- A registry in which each name has one meaning and parents lead up to the
built-in types.  Walks through parents, and joins, are what they would be without
a limit on their steps. -/
structure Grounded (r : Registry) : Prop where
  names : r.takenNames.Nodup
  parents : ∀ name parent, r.parent? name = some parent → r.EarlierParent parent ∧
    ∃ r₀ : Registry, r₀.Reached ∧ r₀.Declares r ∧ r₀.isTaken name = false ∧ r₀.EarlierParent parent
  acyclic : WellFounded r.OccursAbove
  order_ends : ∀ (a b : Ty) (steps : Nat), r.height a < steps →
    (r.leWithin steps a b = true ↔ Below r a b)
  match_ends : ∀ (declared actual : Ty) (b : Bindings) (steps : Nat), r.fullHeight actual < steps →
    r.unifyWithin steps declared actual b =
      r.unifyWithin (r.fullHeight actual + 1) declared actual b
  join_ends : ∀ (a b : Ty) (steps : Nat), r.height a < steps → r.joinWithin steps a b = r.join a b

/-- A registry gives the answers of an earlier one about the types that annotations
came to then. -/
structure AnswersAs (r' r : Registry) : Prop where
  resolve : ∀ written t, r.resolve written = .ok t → r'.resolve written = .ok t
  le : ∀ a b, r.Annotates a → r.Annotates b → r'.le a b = r.le a b
  join : ∀ a b, r.Annotates a → r.Annotates b → r'.join a b = r.join a b
  unify : ∀ declared actual b, r.Annotates declared → r.Annotates actual → r.KnowsBound b →
    r'.unify declared actual b = r.unify declared actual b ∧
      r.KnowsBound (r.unify declared actual b).2

theorem EarlierParent.declares {r r' : Registry} {parent : Ty} (h : r.EarlierParent parent)
    (hMore : r.Declares r') : r'.EarlierParent parent where
  closed := h.closed
  resolved := hMore.resolve h.resolved
  declared := declared_of_resolved h.closed (hMore.resolve h.resolved)

theorem Reached.grounded {r : Registry} (hr : r.Reached) : r.Grounded where
  names := hr.takenNames_nodup
  parents := by
    intro name parent hParent
    obtain ⟨r₀, hReached, hLater, hFree, hEarlier⟩ := hr.parent_earlier hParent
    exact ⟨hEarlier.declares hLater, r₀, hReached, hLater, hFree, hEarlier⟩
  acyclic := hr.acyclic
  order_ends := fun _ _ _ h => leWithin_iff_below hr h
  match_ends := fun declared _ b steps h =>
    unifyWithin_of_high hr steps _ declared b h (Nat.lt_succ_self _)
  join_ends := fun _ _ _ h => joinWithin_eq_join hr h

theorem Declares.answersAs {r r' : Registry} (h : r.Declares r') (hr : r.Reached) :
    r'.AnswersAs r where
  resolve := fun _ _ hOk => h.resolve hOk
  le := fun _ b hA _ => h.le hr b hA.knows
  join := fun _ _ hA hB => h.join hr hA.knows hB.knows
  unify := fun _ _ _ hDeclared hActual hBound =>
    sameMatch_unifyWithin h hr maxDepth hDeclared.settled hActual.knows hBound

/-- **Declarations are conservative.**  A registry that declarations lead to is
grounded; whatever they lead to from there gives the same answers about the types
that annotations have come to; and a declaration that is refused leaves everything
as the accepted ones before it have made it. -/
theorem declarations_conservative {r r' : Registry} (hr : r.Reached) (h : r.Declares r') :
    r'.Grounded ∧ r'.AnswersAs r ∧
      ∀ (p : Program) (forms : List Form) (stop : Stop),
        (Program.declareAll forms p).1 = .error stop →
        ∃ before form after error, forms = before ++ form :: after ∧
          Program.declareAll before p = (.ok (), (Program.declareAll forms p).2) ∧
          (Program.declareAll forms p).2.declare form = .error error :=
  ⟨(h.reached hr).grounded, h.answersAs hr, fun _ _ _ => Program.declareAll_refused⟩

/-- The registry with `metre` below `int`, before `lengths` is declared. -/
def metres : Registry := { parents := ⟨[("metre", int)]⟩ }

/-- `lengths` means nothing before it is declared.  Its declaration leaves lists of
`metre` where they are. -/
theorem declarations_conservative_of_metres :
    metres.Reached ∧ metres.Declares lengths ∧
      metres.resolve (.named "lengths") = .error (.typing (.unknown "lengths")) ∧
      lengths.resolve (.named "lengths") = .ok (.named "lengths") ∧
      lengths.join (.list (.named "metre")) (.list str) = .list any ∧
      lengths.unify (.list (.var "a")) (.list (.named "metre")) Dict.empty =
        (true, ⟨[("a", .named "metre")]⟩) := by
  have hMetres : metres.Reached := by
    have hDeclare : declare {} "metre" int = .ok metres := rfl
    exact .declare .empty hDeclare
  have hMore : metres.Declares lengths := by
    have hDeclare : metres.declare "lengths" (.list (.named "metre")) = .ok lengths := rfl
    exact .declare .refl hDeclare
  obtain ⟨-, hAnswers, -⟩ := declarations_conservative hMetres hMore
  have hMetre : metres.Annotates (.list (.named "metre")) := ⟨.list (.named "metre"), rfl, rfl⟩
  have hText : metres.Annotates (.list str) := ⟨.list str, rfl, rfl⟩
  have hVariable : metres.Annotates (.list (.var "a")) := ⟨.list (.named "a"), rfl, rfl⟩
  refine ⟨hMetres, hMore, rfl, rfl, ?_, ?_⟩
  · rw [hAnswers.join _ _ hMetre hText]
    decide
  · rw [(hAnswers.unify _ _ _ hVariable hMetre knowsBound_empty).1]
    rfl

end Ty.Registry

end ClauseLisp
