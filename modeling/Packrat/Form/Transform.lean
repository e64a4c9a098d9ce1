import Packrat.Value

/-!
# Transformations as data

Descriptions of transformations of values. A number is read from the text of a value: an optional
sign and one or more digits. A text that is no number, or a number beyond 64 bits, reads as zero.
-/

namespace Packrat

/-- A transformation of values. -/
inductive Transform where
  /-- Puts a name in front of the value. -/
  | tag (name : String)
  /-- Replaces the value. -/
  | const (v : Value)
  /-- The text of the value. -/
  | text
  /-- The number of items of a list, or of characters in the text of another value. -/
  | length
  /-- The number that the text of the value denotes. -/
  | number

namespace Transform

/-- The number that a list of decimal digits denotes; there must be a digit. -/
def digits? (cs : List Char) : Option Nat :=
  if cs.isEmpty || !cs.all Char.isDigit then none
  else some (cs.foldl (fun n c => n * 10 + (c.toNat - '0'.toNat)) 0)

/-- The number that an optional sign and decimal digits denote. -/
def signed? : List Char → Option Int
  | '+' :: cs => (digits? cs).map Int.ofNat
  | '-' :: cs => (digits? cs).map fun n => -Int.ofNat n
  | cs => (digits? cs).map Int.ofNat

/-- The number that a text denotes among the signed 64-bit numbers, or zero. -/
def number64 (s : String) : Int :=
  match signed? s.toList with
  | some n => if -0x8000000000000000 ≤ n ∧ n < 0x8000000000000000 then n else 0
  | none => 0

/-- Transforms a value. -/
def apply : Transform → Value → Value
  | .tag name, v => .tag name v
  | .const v, _ => v
  | .text, v => .str v.display
  | .length, v => .int v.length
  | .number, v => .int (number64 v.display)

end Transform

end Packrat
