/-!
# Outcomes

An evaluation either matches, up to some position and with a value, or fails.
-/

namespace Packrat

/-- The result of evaluating an expression at some position. -/
inductive Outcome (α : Type) where
  /-- A match that ended at `stop` and produced `value`. -/
  | matched (stop : Nat) (value : α)
  /-- No match. -/
  | failed
deriving DecidableEq

namespace Outcome

variable {α β : Type}

/-- Transforms the value of a match. -/
def map (f : α → β) : Outcome α → Outcome β
  | .matched stop v => .matched stop (f v)
  | .failed => .failed

/-- The value of a match. -/
def toOption : Outcome α → Option α
  | .matched _ v => some v
  | .failed => none

/-- Whether the outcome is a match. -/
def isMatched : Outcome α → Bool
  | .matched _ _ => true
  | .failed => false

/-- The order of outcomes: matches come before failures, the earlier end first, and matches with one
end in the order of their values. -/
def le (leValue : α → α → Bool) : Outcome α → Outcome α → Bool
  | .matched s v, .matched s' v' => s < s' || (s == s' && leValue v v')
  | .matched _ _, .failed => true
  | .failed, .matched _ _ => false
  | .failed, .failed => true

/-- A list of outcomes in their order. -/
def sort (leValue : α → α → Bool) (outcomes : List (Outcome α)) : List (Outcome α) :=
  outcomes.mergeSort (le leValue)

end Outcome

end Packrat
