/-!
# Parse values

What a match produces. Expressions are evaluated without static typing, so one type holds every
shape of result; `ValueType` is the type that an expression declares for its results, and is what a
sequence compares when a stored step value is read back.

`Value.display` is the text of a value. It is used to join the items of a list, to turn a value into
a string or a number, and to write the argument of a journalled call.
-/

namespace Packrat

/-- The result of a match. -/
inductive Value where
  /-- The result of an expression that has nothing to report. -/
  | unit
  /-- One matched character. -/
  | char (c : Char)
  /-- A matched or assembled text. -/
  | str (s : String)
  /-- A number, for instance a position. -/
  | int (n : Int)
  /-- An optional expression that did not match. -/
  | none
  /-- An optional expression that matched. -/
  | some (v : Value)
  /-- The items of a repetition or a sequence, in order. -/
  | list (items : List Value)
  /-- A value with a name in front of it. -/
  | tag (name : String) (v : Value)

namespace Value

mutual

/-- The text of a value. Unit and an absent option have none, a list is the concatenation of its
items, and a tag is written as a call. -/
def display : Value → String
  | .unit => ""
  | .char c => c.toString
  | .str s => s
  | .int n => toString n
  | .none => ""
  | .some v => v.display
  | .list items => String.join (displays items)
  | .tag name v => name ++ "(" ++ v.display ++ ")"

/-- The texts of the items of a list, in order. -/
def displays : List Value → List String
  | [] => []
  | v :: vs => v.display :: displays vs

end

/-- The items of a list; any other value has none. -/
def items : Value → List Value
  | .list items => items
  | _ => []

/-- The number of items of a list, and of characters in the text of any other value. -/
def length : Value → Nat
  | .list items => items.length
  | v => v.display.length

/-- The value of an option, or `fallback` if it is absent. -/
def getD (fallback : Value) : Value → Value
  | .some v => v
  | _ => fallback

/-- The texts of the items of a list with `separator` between them. -/
def join (separator : String) (v : Value) : String :=
  separator.intercalate (displays v.items)

end Value

/-- The type that an expression declares for its results. It is coarse: it does not say what the
items of a list or the value of an option are, nor what a rule or a choice produces. So handles of
two lists look alike even if one lists characters and the other texts. -/
inductive ValueType where
  /-- Always the unit value. -/
  | unit
  /-- A single character. -/
  | char
  /-- A text. -/
  | str
  /-- A position in the text. -/
  | pos
  /-- A list of values. -/
  | list
  /-- An optional value. -/
  | opt
  /-- Any value. -/
  | val
deriving DecidableEq

/-- The name of a type. -/
def ValueType.name : ValueType → String
  | .unit => "unit"
  | .char => "char"
  | .str => "str"
  | .pos => "pos"
  | .list => "list"
  | .opt => "opt"
  | .val => "val"

end Packrat
