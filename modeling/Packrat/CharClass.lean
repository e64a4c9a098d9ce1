import Packrat.Text.Alphabetic

/-!
# Built-in character classes

Classes of characters that are known by name. Being the same everywhere, their outcomes are
remembered at each position like those of rules.
-/

namespace Packrat

/-- A class of characters known by name. -/
inductive CharClass where
  /-- Every character. -/
  | any
  /-- The decimal digits of ASCII. -/
  | digit
  /-- The alphabetic characters of all scripts. -/
  | letter
  /-- The hexadecimal digits of ASCII, in either case. -/
  | hexDigit
deriving DecidableEq

namespace CharClass

/-- Whether a character belongs to the class. -/
def holds : CharClass → Char → Bool
  | .any, _ => true
  | .digit, c => c.isDigit
  | .letter, c => Text.isAlphabetic c
  | .hexDigit, c => c.isDigit || ('a' ≤ c && c ≤ 'f') || ('A' ≤ c && c ≤ 'F')

/-- The label of the class. -/
def label : CharClass → String
  | .any => "Any"
  | .digit => "Digit"
  | .letter => "Letter"
  | .hexDigit => "HexDigit"

end CharClass

end Packrat
