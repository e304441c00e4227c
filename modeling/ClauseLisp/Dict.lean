/-!
# Tables keyed by name

Small tables from names to anything: declared types, functions, variables of a scope, bindings of
type variables. A table keeps its entries in the order in which their names first came; writing to a
name that is there replaces its entry.
-/

namespace ClauseLisp

/-- A table keyed by name. -/
structure Dict (α : Type) where
  entries : List (String × α) := []
deriving Repr, Inhabited

namespace Dict

variable {α : Type}

/-- The table without entries. -/
def empty : Dict α := {}

/-- Entry of a name in a list of entries. -/
def find : List (String × α) → String → Option α
  | [], _ => none
  | (key, value) :: rest, name => if key = name then some value else find rest name

/-- Entry of a name. -/
def get? (d : Dict α) (name : String) : Option α := find d.entries name

/-- Whether a name has an entry. -/
def contains (d : Dict α) (name : String) : Bool := (d.get? name).isSome

/-- Write an entry into a list of entries. -/
def put (name : String) (value : α) : List (String × α) → List (String × α)
  | [] => [(name, value)]
  | (key, old) :: rest =>
    if key = name then (name, value) :: rest else (key, old) :: put name value rest

/-- Write an entry, in place of an earlier one of the same name. -/
def insert (d : Dict α) (name : String) (value : α) : Dict α := ⟨put name value d.entries⟩

/-- Write an entry unless the name has one. -/
def insertNew (d : Dict α) (name : String) (value : α) : Dict α :=
  if d.contains name then d else d.insert name value

/-- Change the entry of a name, if it has one. -/
def modify (d : Dict α) (name : String) (f : α → α) : Dict α :=
  ⟨d.entries.map fun entry => if entry.1 = name then (entry.1, f entry.2) else entry⟩

/-- The names, in order of arrival. -/
def keys (d : Dict α) : List String := d.entries.map (·.1)

/-- Table of a list of entries; of several with one name the last counts. -/
def ofList (entries : List (String × α)) : Dict α :=
  entries.foldl (fun d entry => d.insert entry.1 entry.2) empty

/-- Entries in the order of their names. -/
def sorted (d : Dict α) : List (String × α) :=
  d.entries.mergeSort fun a b => decide (a.1 ≤ b.1)

end Dict

/-- Names in order, each once. -/
def sortNames (names : List String) : List String :=
  (names.mergeSort fun a b => decide (a ≤ b)).eraseReps

end ClauseLisp
