import Mathlib.Tactic.Common
import Packrat.State

/-!
# Moving along a text

The same failures, outcomes, entries and events, found `d` characters further on. Messages, values
and rules stay; positions move. What is remembered moves with its tables: the positions in front get
empty ones, so the number of entries stays (`Memo.size_shift`), and looking up and inserting commute
with the move.
-/

namespace Packrat

/-- A failure that much further on. -/
def Failure.shift (d : Nat) (f : Failure) : Failure := { f with position := f.position + d }

/-- An outcome that much further on. -/
def Outcome.shift (d : Nat) : Outcome Value → Outcome Value
  | .matched stop v => .matched (stop + d) v
  | .failed => .failed

/-- An entry that much further on. -/
def Entry.shift (d : Nat) : Entry → Entry
  | .success stop v => .success (stop + d) v
  | .failure failures => .failure (failures.map (.shift d))

/-- An event that much further on, in a text that is that much longer. -/
def Event.shift (d : Nat) : Event → Event
  | .cachedMatch r start => .cachedMatch r (start + d)
  | .cachedFail r start => .cachedFail r (start + d)
  | .attempt r start => .attempt r (start + d)
  | .matched r start stop => .matched r (start + d) (stop + d)
  | .failed r start => .failed r (start + d)
  | .limitReached r start => .limitReached r (start + d)
  | .parsed r length => .parsed r (length + d)
  | .stopped r stop length => .stopped r (stop + d) (length + d)
  | .rejected r failures => .rejected r failures
  | .called journal argument => .called journal argument

/-- What is remembered, that much further on. -/
def Memo.shift (d : Nat) (m : Memo) : Memo :=
  ⟨Array.replicate d [] ++ m.tables.map (List.map fun e => (e.1, e.2.shift d))⟩

theorem Failure.shift_zero : Failure.shift 0 = id := rfl

@[simp] theorem Outcome.shift_zero (o : Outcome Value) : o.shift 0 = o := by
  cases o <;> rfl

@[simp] theorem Event.shift_zero (e : Event) : e.shift 0 = e := by
  cases e <;> rfl

@[simp] theorem Outcome.isMatched_shift (d : Nat) (o : Outcome Value) :
    (o.shift d).isMatched = o.isMatched := by
  cases o <;> rfl

theorem Entry.shift_ofOutcome (d : Nat) (failures : Array Failure) (o : Outcome Value) :
    (Entry.ofOutcome failures o).shift d = .ofOutcome (failures.map (.shift d)) (o.shift d) := by
  cases o <;> rfl

namespace Memo

variable (d : Nat) (m : Memo)

/-- The table of a position is found that much further on. -/
theorem getElem?_shift (p : Nat) : (m.shift d).tables[p + d]? =
    m.tables[p]?.map (List.map fun e => (e.1, e.2.shift d)) := by
  simp [shift, Array.getElem?_append_right]

theorem lookup_map (table : List (Key × Entry)) (key : Key) :
    (table.map fun e => (e.1, e.2.shift d)).lookup key = (table.lookup key).map (.shift d) := by
  induction table with
  | nil => rfl
  | cons e rest ih =>
    rw [List.map_cons, List.lookup_cons, List.lookup_cons, ih]
    cases key == e.1 <;> rfl

/-- Looking up commutes with the move. -/
theorem find?_shift (p : Nat) (key : Key) :
    (m.shift d).find? (p + d) key = (m.find? p key).map (.shift d) := by
  unfold find?
  rw [getElem?_shift]
  cases m.tables[p]? with
  | none => rfl
  | some table => exact lookup_map d table key

theorem insert_shift (p : Nat) (key : Key) (entry : Entry) :
    (m.shift d).insert (p + d) key (entry.shift d) = (m.insert p key entry).shift d := by
  unfold insert shift
  congr 1
  refine Array.ext_getElem? fun q => ?_
  rw [Array.getElem?_modify]
  rcases Nat.lt_or_ge q d with hq | hq
  · have hne : p + d ≠ q := by omega
    rw [if_neg hne, Array.getElem?_append_left (by simpa using hq),
      Array.getElem?_append_left (by simpa using hq)]
  · obtain ⟨q, rfl⟩ := Nat.exists_eq_add_of_le' hq
    simp only [Array.getElem?_append_right, Array.size_replicate, Nat.le_add_left,
      Nat.add_sub_cancel, Array.getElem?_map, Array.getElem?_modify, Nat.add_right_cancel_iff]
    split
    · cases m.tables[q]? with
      | none => rfl
      | some table => simp [List.filter_map, Function.comp_def]
    · rfl

/-- The positions in front have no entries. -/
theorem size_shift : (m.shift d).size = m.size := by
  have hskip : ∀ n : Nat, (List.replicate d ([] : List (Key × Entry))).foldr
      (fun table n => table.length + n) n = n := by
    intro n
    induction d with
    | zero => rfl
    | succ d ih => simp [List.replicate_succ, ih]
  unfold size shift
  simp [List.foldr_map, hskip]

theorem shift_empty (n : Nat) : (empty n).shift d = empty (n + d) := by
  unfold shift empty
  congr 1
  rw [Array.map_replicate, List.map_nil, Array.replicate_append_replicate]
  congr 1
  omega

end Memo

end Packrat
