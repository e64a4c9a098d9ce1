/-!
# Configuration

Options of a run: which characters count as blanks, how deeply rules may nest, and whether outcomes
are remembered. Remembering is what bounds the work of a run; it never shows in the outcome, so a
run that forgets everything is the reference for one that does not.
-/

namespace Packrat

/-- The blanks of a configuration that names none: blank, tabulator, carriage return, line feed. -/
def defaultBlanks : List Char := [' ', '\t', '\r', '\n']

/-- Options of a run. -/
structure Config where
  /-- The characters skipped around the tokens of blank-skipping rules. -/
  blanks : List Char := defaultBlanks
  /-- The largest number of rules that may be open at a time; unlimited if absent. -/
  limit : Option Nat := none
  /-- Whether outcomes of rules and built-in character classes are remembered. -/
  memoizing : Bool := true
deriving DecidableEq

/-- No character is a blank, and nesting is unlimited. -/
def Config.plain : Config := { blanks := [] }

end Packrat
