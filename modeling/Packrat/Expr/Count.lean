import Packrat.Defect

/-!
# How often a repetition matches

The number of matches of a repetition is given by a range whose ends are included, excluded or open.
Range ends are 64-bit words. A range is brought to the form "at least, at most" once, when the
repetition is built; a range that no number satisfies is refused there, so that a `Count` always has
its ends in order.
-/

namespace Packrat

/-- One end of a range of counts. -/
inductive Bound where
  /-- The end itself belongs to the range. -/
  | included (n : UInt64)
  /-- The end itself does not belong to the range. -/
  | excluded (n : UInt64)
  /-- No end on this side. -/
  | unbounded

/-- How often a repetition has to match at least and may match at most. -/
structure Count where
  /-- The least number of matches. -/
  least : Nat
  /-- The largest number of matches; unlimited if absent. -/
  most : Option Nat
  /-- The least number does not exceed the largest. -/
  ordered : ∀ m ∈ most, least ≤ m

namespace Count

/-- The largest number that a range end can name, the largest 64-bit word. -/
def ceiling : Nat := 0xffffffffffffffff

/-- The least number from which a lower end lets counts pass. An excluded end is stepped over, but
never beyond the largest word. -/
def lowest : Bound → Nat
  | .included n => n.toNat
  | .excluded n => min (n.toNat + 1) ceiling
  | .unbounded => 0

/-- The count of a range; refused if the range is empty. -/
def ofBounds (low high : Bound) : Except Defect Count :=
  let least := lowest low
  match high with
  | .included n => atMost least n.toNat
  | .excluded n => if n = 0 then .error (.emptyRange least 0) else atMost least (n.toNat - 1)
  | .unbounded => .ok ⟨least, none, nofun⟩
where
  /-- The count from `least` to `most`; refused if `least` is larger. -/
  atMost (least most : Nat) : Except Defect Count :=
    if h : least ≤ most then .ok ⟨least, some most, by simpa using h⟩
    else .error (.emptyRange least most)

/-- Exactly `n` times. -/
def exactly (n : Nat) : Count := ⟨n, some n, by simp⟩

/-- Any number of times. -/
def zeroOrMore : Count := ⟨0, none, nofun⟩

/-- Once or more often. -/
def oneOrMore : Count := ⟨1, none, nofun⟩

/-- Whether `n` matches are as many as allowed. -/
def isFull (c : Count) (n : Nat) : Bool :=
  match c.most with
  | some most => most ≤ n
  | none => false

/-- The count as it stands in labels. -/
def label (c : Count) : String :=
  match c.most with
  | some most => toString c.least ++ ".." ++ toString most
  | none => toString c.least ++ ".."

end Count

end Packrat
