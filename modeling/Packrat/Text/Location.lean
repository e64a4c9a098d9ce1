/-!
# Locations

Line and column of a character offset. Lines are separated by line feeds; a carriage return directly
before a line feed belongs to the separator and takes no column.
-/

namespace Packrat

/-- A place in a text. -/
structure Location where
  /-- The line, from 1. -/
  line : Nat
  /-- The column in characters, from 1. -/
  column : Nat
  /-- The number of characters in front. -/
  offset : Nat
deriving DecidableEq

namespace Location

/-- Line and column after reading a text from the given line and column. -/
def walk : List Char → (line column : Nat) → Nat × Nat
  | [], line, column => (line, column)
  | c :: rest, line, column =>
    if c = '\n' then walk rest (line + 1) 1
    else if c = '\r' ∧ rest.head? = some '\n' then walk rest line column
    else walk rest line (column + 1)

/-- The location of the character offset `offset` of `text`. An offset behind the end of the text
stands for the end. -/
def ofOffset (text : List Char) (offset : Nat) : Location :=
  let (line, column) := walk (text.take offset) 1 1
  { line, column, offset := min offset text.length }

/-- The written form `line:column`. -/
def display (l : Location) : String := toString l.line ++ ":" ++ toString l.column

end Location

end Packrat
