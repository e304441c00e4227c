import Std.Data.HashMap
import ClauseLisp.Value.Basic

/-!
# Memo tables

A function that is memoized keeps its results in a table of its own, under a key that is made of the
arguments of the call. Entries are never dropped.
-/

namespace ClauseLisp

/-- Results of a function, keyed by the arguments. -/
structure Memo where
  entries : Std.HashMap String Value := {}
deriving Inhabited

namespace Memo

/-- The result kept under a key. -/
def get? (m : Memo) (key : String) : Option Value := m.entries[key]?

/-- Keep a result under a key. -/
def insert (m : Memo) (key : String) (value : Value) : Memo := ⟨m.entries.insert key value⟩

/-- Number of results. -/
def size (m : Memo) : Nat := m.entries.size

/-- Summary of a table. -/
def describe (m : Memo) : String := "MemoCache(" ++ toString m.size ++ " entries)"

end Memo

end ClauseLisp
