import Packrat.Expr.Basic
import Packrat.Failure
import Packrat.Outcome

/-!
# Remembered outcomes

For each position of the text, from its start to its end, a table from rules and built-in character
classes to the outcome they had there. The blanks behind a match belong to the caller, so an entry
holds the end of the match before them.
-/

namespace Packrat

/-- What outcomes are remembered for. -/
inductive Key where
  /-- A built-in character class. -/
  | builtin (c : CharClass)
  /-- A rule. -/
  | rule (r : RuleId)
deriving DecidableEq

/-- A remembered outcome. -/
inductive Entry where
  /-- A match, its end and its value. -/
  | success (stop : Nat) (value : Value)
  /-- The failures that the evaluation left. -/
  | failure (failures : Array Failure)

/-- The entry for an outcome that left the given failures. -/
def Entry.ofOutcome (failures : Array Failure) : Outcome Value → Entry
  | .matched stop v => .success stop v
  | .failed => .failure failures

/-- A table of outcomes for every position. -/
structure Memo where
  /-- The tables, by position. -/
  tables : Array (List (Key × Entry))

namespace Memo

/-- Nothing is remembered about a text of this length. -/
def empty (length : Nat) : Memo := ⟨Array.replicate (length + 1) []⟩

/-- The entry for a key at a position. -/
def find? (m : Memo) (position : Nat) (key : Key) : Option Entry :=
  match m.tables[position]? with
  | some table => table.lookup key
  | none => none

/-- Remembers an entry, in place of an earlier one for the same key and position. -/
def insert (m : Memo) (position : Nat) (key : Key) (entry : Entry) : Memo :=
  ⟨m.tables.modify position fun table => (key, entry) :: table.filter fun e => e.1 ≠ key⟩

/-- The number of entries. -/
def size (m : Memo) : Nat := m.tables.toList.foldr (fun table n => table.length + n) 0

end Memo

end Packrat
