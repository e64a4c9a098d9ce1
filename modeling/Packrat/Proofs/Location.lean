import Mathlib.Data.List.DropRight
import Packrat.Failure

/-!
# Locations are exact

A location is read off the line feeds in front of it: each begins a line, and the column counts what
follows the last of them. A carriage return in front of a line feed takes no column, but this never
shows, as the line feed begins the count anew (`Location.walk_lineFeed`). So nothing is lost: line
and column determine the offset, and they grow with it (`Location.ofOffset_exact`).
-/

namespace Packrat

namespace Location

/-- What follows the last line feed of a text, or the whole text if it has none. -/
def lastLine (text : List Char) : List Char := text.rtakeWhile (· ≠ '\n')

/-- The positions just behind the line feeds of a text that begins at `p`. -/
def lineStartsFrom (p : Nat) : List Char → List Nat
  | [] => []
  | c :: rest =>
    if c = '\n' then (p + 1) :: lineStartsFrom (p + 1) rest else lineStartsFrom (p + 1) rest

/-- Where the lines of a text start. -/
def lineStarts (text : List Char) : List Nat := 0 :: lineStartsFrom 0 text

/-- The first location is on an earlier line, or in an earlier column of the same line. -/
def Precedes (l l' : Location) : Prop :=
  l.line < l'.line ∨ l.line = l'.line ∧ l.column < l'.column

/-! ## Lines -/

/-- A text is its last line behind a line feed, or nothing but its last line. -/
theorem exists_lastLine (text : List Char) :
    text = lastLine text ∨ ∃ before, text = before ++ '\n' :: lastLine text := by
  unfold lastLine
  induction text using List.reverseRecOn with
  | nil => exact .inl rfl
  | append_singleton text c ih =>
    by_cases hc : c = '\n'
    · rw [List.rtakeWhile_concat_neg _ _ _ (by simpa using hc), hc]
      exact .inr ⟨text, rfl⟩
    · rw [List.rtakeWhile_concat_pos _ _ _ (by simpa using hc)]
      rcases ih with heq | ⟨before, heq⟩
      · exact .inl (congrArg (· ++ [c]) heq)
      · refine .inr ⟨before, ?_⟩
        rw [← List.cons_append, ← List.append_assoc, ← heq]

theorem not_mem_lastLine (text : List Char) : '\n' ∉ lastLine text := by
  intro h
  have hne := List.mem_rtakeWhile_imp h
  simp at hne

/-- The line starts of two texts in a row are those of each, the second ones moved along. -/
theorem lineStartsFrom_append (p : Nat) (xs ys : List Char) :
    lineStartsFrom p (xs ++ ys) = lineStartsFrom p xs ++ lineStartsFrom (p + xs.length) ys := by
  induction xs generalizing p with
  | nil => rfl
  | cons c rest ih =>
    rw [List.cons_append, lineStartsFrom, lineStartsFrom, ih, List.length_cons,
      Nat.add_comm rest.length, ← Nat.add_assoc]
    split <;> rfl

/-- Each line feed starts a line. -/
theorem length_lineStartsFrom (p : Nat) (text : List Char) :
    (lineStartsFrom p text).length = text.count '\n' := by
  induction text generalizing p with
  | nil => rfl
  | cons c rest ih =>
    rw [lineStartsFrom]
    by_cases hc : c = '\n'
    · rw [if_pos hc, List.length_cons, ih, hc, List.count_cons_self]
    · rw [if_neg hc, ih, List.count_cons_of_ne hc]

/-- Behind a line feed a line starts, and its number is one more than there are line feeds in front
of it. -/
theorem getElem?_lineStarts (before after : List Char) :
    (lineStarts (before ++ '\n' :: after))[before.count '\n' + 1]? = some (before.length + 1) := by
  rw [lineStarts, List.getElem?_cons_succ, lineStartsFrom_append,
    List.getElem?_append_right (Nat.le_of_eq (length_lineStartsFrom 0 before)),
    length_lineStartsFrom, Nat.sub_self, lineStartsFrom, if_pos rfl, Nat.zero_add]
  rfl

/-! ## Reading a text -/

theorem walk_of_not_mem {text : List Char} (h : '\n' ∉ text) (line column : Nat) :
    walk text line column = (line, column + text.length) := by
  induction text generalizing column with
  | nil => rfl
  | cons c rest ih =>
    rw [List.mem_cons, not_or] at h
    obtain ⟨hc, hrest⟩ := h
    have hhead : rest.head? ≠ some '\n' := fun hn => hrest (List.mem_of_mem_head? hn)
    rw [walk, if_neg (Ne.symm hc), if_neg (fun hr => hhead hr.2), ih hrest, List.length_cons]
    congr 1
    omega

/-- The last line feed decides where the column is counted from, whatever stands before it. -/
theorem walk_lineFeed (before after : List Char) (line column : Nat) :
    walk (before ++ '\n' :: after) line column =
      walk after (line + before.count '\n' + 1) 1 := by
  induction before generalizing line column with
  | nil => rw [List.nil_append, walk, if_pos rfl]; rfl
  | cons c rest ih =>
    rw [List.cons_append, walk]
    by_cases hc : c = '\n'
    · rw [if_pos hc, ih, hc, List.count_cons_self]
      congr 1
      omega
    · rw [if_neg hc, List.count_cons_of_ne hc]
      split <;> exact ih _ _

/-- A text ends on the line that its line feeds count, as far behind its start as its last line is
long. -/
theorem exists_lineStart (text rest : List Char) :
    ∃ start, (lineStarts (text ++ rest))[text.count '\n']? = some start ∧
      text.length = start + (lastLine text).length := by
  have hmem := not_mem_lastLine text
  rcases exists_lastLine text with heq | ⟨before, heq⟩
  · rw [← heq] at hmem
    rw [List.count_eq_zero_of_not_mem hmem, ← heq]
    exact ⟨0, rfl, (Nat.zero_add _).symm⟩
  · generalize lastLine text = line at heq hmem ⊢
    subst heq
    refine ⟨before.length + 1, ?_, ?_⟩
    · rw [List.count_append, List.count_cons_self, List.count_eq_zero_of_not_mem hmem,
        List.append_assoc, List.cons_append]
      exact getElem?_lineStarts before (line ++ rest)
    · rw [List.length_append, List.length_cons]
      omega

/-- The line counts the line feeds, and the column what follows the last of them. -/
theorem walk_eq (text : List Char) :
    walk text 1 1 = (1 + text.count '\n', 1 + (lastLine text).length) := by
  have hmem := not_mem_lastLine text
  rcases exists_lastLine text with heq | ⟨before, heq⟩
  · rw [← heq] at hmem
    rw [walk_of_not_mem hmem, List.count_eq_zero_of_not_mem hmem, ← heq]
  · generalize lastLine text = line at heq hmem ⊢
    subst heq
    rw [walk_lineFeed, walk_of_not_mem hmem, List.count_append, List.count_cons_self,
      List.count_eq_zero_of_not_mem hmem, Nat.zero_add, Nat.add_assoc]

/-! ## Locations -/

/-- A location is read off the text in front of it. -/
theorem ofOffset_eq (text : List Char) (offset : Nat) :
    ofOffset text offset = ⟨1 + (text.take offset).count '\n',
      1 + (lastLine (text.take offset)).length, min offset text.length⟩ := by
  rw [ofOffset, walk_eq]

/-- The line of a location and its column give its offset. -/
theorem offset_eq (text : List Char) (offset : Nat) :
    ∃ start, (lineStarts text)[(ofOffset text offset).line - 1]? = some start ∧
      (ofOffset text offset).offset = start + ((ofOffset text offset).column - 1) := by
  obtain ⟨start, hstart, hlen⟩ := exists_lineStart (text.take offset) (text.drop offset)
  rw [List.take_append_drop] at hstart
  rw [List.length_take] at hlen
  rw [ofOffset_eq]
  refine ⟨start, ?_, ?_⟩
  · rw [Nat.add_sub_cancel_left]
    exact hstart
  · rw [Nat.add_sub_cancel_left]
    exact hlen

theorem offset_ofOffset (text : List Char) (offset : Nat) :
    (ofOffset text offset).offset = min offset text.length := rfl

/-- On one line, columns are as far apart as offsets. -/
theorem offset_add_column {text : List Char} {i j : Nat}
    (hline : (ofOffset text i).line = (ofOffset text j).line) :
    (ofOffset text i).offset + (ofOffset text j).column =
      (ofOffset text j).offset + (ofOffset text i).column := by
  have hpos : ∀ i, 0 < (ofOffset text i).column := fun i => by
    rw [ofOffset_eq]
    exact Nat.lt_of_lt_of_le Nat.zero_lt_one (Nat.le_add_right 1 _)
  obtain ⟨start, hi, hoffset⟩ := offset_eq text i
  obtain ⟨start', hj, hoffset'⟩ := offset_eq text j
  rw [hline, hj] at hi
  cases hi
  have := hpos i
  have := hpos j
  omega

/-- Locations grow with the offset, inside the text. -/
theorem precedes {text : List Char} {i j : Nat} (hij : i < j) (hj : j ≤ text.length) :
    (ofOffset text i).Precedes (ofOffset text j) := by
  have hle : (ofOffset text i).line ≤ (ofOffset text j).line := by
    rw [ofOffset_eq, ofOffset_eq]
    exact Nat.add_le_add_left
      ((List.take_sublist_take_left (Nat.le_of_lt hij)).count_le '\n') 1
  rcases Nat.lt_or_eq_of_le hle with hlt | heq
  · exact .inl hlt
  · have hcolumn := offset_add_column heq
    rw [offset_ofOffset, offset_ofOffset] at hcolumn
    exact .inr ⟨heq, by omega⟩

/-- Line and column determine the offset, inside the text. -/
theorem line_column_inj {text : List Char} {i j : Nat} :
    (ofOffset text i).line = (ofOffset text j).line ∧
      (ofOffset text i).column = (ofOffset text j).column ↔
    min i text.length = min j text.length := by
  constructor
  · rintro ⟨hline, hcolumn⟩
    have hoffset := offset_add_column hline
    rw [offset_ofOffset, offset_ofOffset] at hoffset
    omega
  · intro h
    have htake : text.take i = text.take j := by
      rw [List.take_eq_take_min, h, ← List.take_eq_take_min]
    rw [ofOffset_eq, ofOffset_eq, htake]
    exact ⟨rfl, rfl⟩

end Location

/-- The location of an offset, in any text and however far behind its end. The line is one more than
there are line feeds in front, the column one more than there are characters behind the last of
them, so that the offset, or the end of the text, is found again from the start of the line and the
column. This holds wherever carriage returns stand.

Lines and columns grow with the offset. The failures of a rejection have one location, and even one
line and column, exactly if their positions are the same or both not before the end of the text. -/
theorem Location.ofOffset_exact (text : List Char) :
    (∀ offset, let l := ofOffset text offset
      l.line = 1 + (text.take offset).count '\n' ∧
      l.column = 1 + (lastLine (text.take offset)).length ∧
      l.offset = min offset text.length ∧
      ∃ start, (lineStarts text)[l.line - 1]? = some start ∧
        l.offset = start + (l.column - 1)) ∧
    (∀ i j, i < j → j ≤ text.length → (ofOffset text i).Precedes (ofOffset text j)) ∧
    ∀ (r : Rejection) (i j : Nat) (f f' : Failure), r.failures[i]? = some f →
      r.failures[j]? = some f' → ∃ l l', (r.locate text)[i]? = some l ∧
        (r.locate text)[j]? = some l' ∧
        (l = l' ↔ min f.position text.length = min f'.position text.length) ∧
        (l.line = l'.line ∧ l.column = l'.column ↔
          min f.position text.length = min f'.position text.length) := by
  refine ⟨fun offset => ?_, fun i j => precedes, fun r i j f f' hf hf' => ?_⟩
  · intro l
    obtain ⟨start, hstart, hoffset⟩ := offset_eq text offset
    have hl : l = _ := ofOffset_eq text offset
    exact ⟨by rw [hl], by rw [hl], rfl, start, hstart, hoffset⟩
  · refine ⟨ofOffset text f.position, ofOffset text f'.position, ?_, ?_, ?_, line_column_inj⟩
    · rw [Rejection.locate, List.getElem?_map, hf]
      rfl
    · rw [Rejection.locate, List.getElem?_map, hf']
      rfl
    · refine ⟨fun h => congrArg Location.offset h, fun h => ?_⟩
      obtain ⟨hline, hcolumn⟩ := line_column_inj.mpr h
      have hoffset : (ofOffset text f.position).offset = (ofOffset text f'.position).offset := h
      cases hl : ofOffset text f.position
      cases hl' : ofOffset text f'.position
      rw [hl, hl'] at hline hcolumn hoffset
      cases hline
      cases hcolumn
      cases hoffset
      rfl

/-- Between a carriage return and its line feed there is a location of its own. Behind the end there
is none. -/
theorem Location.ofOffset_exact_separator :
    let text := ['a', '\r', '\n', 'b']
    let r : Rejection := ⟨[⟨4, .wrong "Digit"⟩, ⟨7, .wrong "Digit"⟩]⟩
    ofOffset text 2 = ⟨1, 3, 2⟩ ∧ (ofOffset text 2).Precedes (ofOffset text 3) ∧
      ∃ l, (r.locate text)[0]? = some l ∧ (r.locate text)[1]? = some l := by
  intro text r
  obtain ⟨-, hgrow, hlocate⟩ := Location.ofOffset_exact text
  obtain ⟨l, l', hl, hl', heq, -⟩ := hlocate r 0 1 _ _ rfl rfl
  obtain rfl : l = l' := heq.mpr rfl
  exact ⟨rfl, hgrow 2 3 (by decide) (by decide), l, hl, hl'⟩

end Packrat
