/-!
# Indexed texts

A text in UTF-8 with the byte offsets of its characters. Characters differ in width, so without the
offsets a character could only be found by walking over all those in front of it.

Positions are words. A slice that would end beyond the largest word ends at no position of any text,
so it is absent like every other one that is too long.
-/

namespace Packrat

/-- The byte offsets of characters of which the first begins at `start`, and of their end. -/
def byteOffsetsFrom (start : Nat) : List Char → List Nat
  | [] => [start]
  | c :: rest => start :: byteOffsetsFrom (start + c.utf8Size) rest

/-- A text with the byte offsets of its characters. -/
structure IndexedText where
  /-- The text. -/
  text : String
  /-- The byte offset of every character, in order, and of the end of the text. -/
  offsets : Array Nat
  /-- The offsets are those of the text. -/
  indexed : offsets = (byteOffsetsFrom 0 text.toList).toArray

namespace IndexedText

/-- A text with its offsets. -/
def ofText (text : String) : IndexedText := ⟨text, (byteOffsetsFrom 0 text.toList).toArray, rfl⟩

/-- The number of characters. -/
def length (x : IndexedText) : Nat := x.offsets.size - 1

/-- The character at a position, if there is one. -/
def charAt? (x : IndexedText) (position : Nat) : Option Char :=
  match x.offsets[position]? with
  | some start => String.Pos.Raw.get? x.text ⟨start⟩
  | none => none

/-- The offset `length` characters behind a position, if the text goes so far. -/
def offsetBehind? (x : IndexedText) (position length : Nat) : Option Nat :=
  if position + length < UInt64.size then x.offsets[position + length]? else none

/-- The `length` characters at `position`, if the text has so many. -/
def slice? (x : IndexedText) (position length : Nat) : Option String :=
  match x.offsets[position]?, x.offsetBehind? position length with
  | some start, some stop => some (String.Pos.Raw.extract x.text ⟨start⟩ ⟨stop⟩)
  | _, _ => none

end IndexedText

end Packrat
