import Mathlib.Order.Basic
import Mathlib.Tactic.Common
import Packrat.State

/-!
# Operations on states

What the operations of a run do to the state they are applied to. An expression by itself only moves
the cursor, changes the failures and notes events; everything else is the base of the state, which
`Works` says is left alone. What can be recalled changes where an outcome is settled, and there
by the one entry (`Recalls.of_settle`).
-/

namespace Packrat

namespace Env

theorem length_ofText (text : String) (config : Config) :
    (ofText text config).length = text.length := by
  simp [ofText, length, String.length_toList]

/-- Skipping blanks goes neither back nor beyond the text. -/
theorem skipBlanksFrom_bounds (env : Env) (n : Nat) : ∀ position, position + n ≤ env.length →
    position ≤ env.skipBlanksFrom position n ∧ env.skipBlanksFrom position n ≤ env.length := by
  induction n with
  | zero => intro position h; exact ⟨Nat.le_refl _, h⟩
  | succ n ih =>
    intro position h
    rw [skipBlanksFrom]
    split
    · split
      · obtain ⟨h1, h2⟩ := ih (position + 1) (by omega)
        exact ⟨by omega, h2⟩
      · exact ⟨Nat.le_refl _, by omega⟩
    · exact ⟨Nat.le_refl _, by omega⟩

theorem skipBlanks_bounds (env : Env) {position : Nat} (h : position ≤ env.length) :
    position ≤ env.skipBlanks position ∧ env.skipBlanks position ≤ env.length :=
  env.skipBlanksFrom_bounds _ position (by omega)

end Env

namespace Memo

/-- Dropping the entries of one key leaves those of the others. -/
theorem lookup_filter_ne {key key' : Key} (h : key' ≠ key) (table : List (Key × Entry)) :
    (table.filter fun e => e.1 ≠ key).lookup key' = table.lookup key' := by
  induction table with
  | nil => rfl
  | cons e rest ih =>
    obtain ⟨k, entry⟩ := e
    by_cases hk : k = key
    · have hne : (key' == k) = false := by rw [hk]; simpa using h
      rw [List.filter_cons_of_neg (by simpa using hk), List.lookup_cons, hne]
      exact ih
    · rw [List.filter_cons_of_pos (by simpa using hk), List.lookup_cons, List.lookup_cons, ih]

theorem find?_empty (length p : Nat) (key : Key) : (empty length).find? p key = none := by
  unfold find? empty
  by_cases hp : p < length + 1
  · simp [hp]
  · simp [hp]

/-- What is found after an insertion is what was inserted, or was found before. -/
theorem find?_insert {m : Memo} {p q : Nat} {key key' : Key} {entry entry' : Entry}
    (h : (m.insert p key entry).find? q key' = some entry') :
    (q = p ∧ key' = key ∧ entry' = entry) ∨ m.find? q key' = some entry' := by
  unfold find? insert at h
  rw [Array.getElem?_modify] at h
  by_cases hp : p = q
  · subst hp
    simp only [if_true] at h
    cases ht : m.tables[p]? with
    | none => simp [ht] at h
    | some table =>
      simp only [ht, Option.map_some, List.lookup_cons] at h
      by_cases hk : key' = key
      · subst hk
        simp only [BEq.rfl, Option.some.injEq] at h
        exact Or.inl ⟨rfl, rfl, h.symm⟩
      · right
        have hne : (key' == key) = false := by simpa using hk
        simp only [hne, lookup_filter_ne hk] at h
        unfold find?
        rw [ht]
        exact h
  · simp only [hp, if_false] at h
    exact Or.inr h

/-- What was inserted at a position of the text is found there. -/
theorem find?_insert_self {m : Memo} {p : Nat} (h : p < m.tables.size) (key : Key)
    (entry : Entry) : (m.insert p key entry).find? p key = some entry := by
  unfold find? insert
  rw [Array.getElem?_modify, if_pos rfl, Array.getElem?_eq_getElem h]
  simp

/-- An insertion is not seen at another position or under another key. -/
theorem find?_insert_of_ne (m : Memo) {p q : Nat} {key key' : Key} (h : q ≠ p ∨ key' ≠ key)
    (entry : Entry) : (m.insert p key entry).find? q key' = m.find? q key' := by
  unfold find? insert
  rw [Array.getElem?_modify]
  by_cases hp : p = q
  · subst hp
    have hk : key' ≠ key := h.resolve_left fun hq => hq rfl
    have hne : (key' == key) = false := by simpa using hk
    cases m.tables[p]? with
    | none => simp
    | some table =>
      simp only [if_true, Option.map_some, List.lookup_cons, hne]
      exact lookup_filter_ne hk table
  · simp only [hp, if_false]

theorem size_insert (m : Memo) (p : Nat) (key : Key) (entry : Entry) :
    (m.insert p key entry).tables.size = m.tables.size := by
  simp [insert]

end Memo

namespace State

/-! ## Cursor and failures -/

@[simp] theorem moveTo_cursor (s : State) (env : Env) (p : Nat) :
    (s.moveTo env p).cursor = min p env.length := rfl

@[simp] theorem moveTo_failures (s : State) (env : Env) (p : Nat) :
    (s.moveTo env p).failures = s.failures := rfl

@[simp] theorem record_cursor (s : State) (cause : Cause) :
    (s.record cause).cursor = s.cursor := rfl

@[simp] theorem record_failures (s : State) (cause : Cause) :
    (s.record cause).failures = s.failures.push ⟨s.cursor, cause⟩ := rfl

@[simp] theorem cutBack_cursor (s : State) (height : Nat) :
    (s.cutBack height).cursor = s.cursor := rfl

@[simp] theorem cutBack_failures (s : State) (height : Nat) :
    (s.cutBack height).failures = s.failures.take height := by
  simp [cutBack]

@[simp] theorem note_cursor {α : Type} (s : State) (journal : Option String) (text : α → String)
    (a : α) : (s.note journal text a).cursor = s.cursor := by
  cases journal <;> rfl

@[simp] theorem note_failures {α : Type} (s : State) (journal : Option String) (text : α → String)
    (a : α) : (s.note journal text a).failures = s.failures := by
  cases journal <;> rfl

@[simp] theorem skipBlanks_failures (s : State) (env : Env) :
    (s.skipBlanks env).failures = s.failures := by
  unfold skipBlanks
  split <;> rfl

/-- The cursor goes neither back nor beyond the text. -/
theorem skipBlanks_bounds {s : State} {env : Env} (h : s.cursor ≤ env.length) :
    s.cursor ≤ (s.skipBlanks env).cursor ∧ (s.skipBlanks env).cursor ≤ env.length := by
  unfold skipBlanks
  split
  · exact env.skipBlanks_bounds h
  · exact ⟨Nat.le_refl _, h⟩

/-! ## What an expression leaves alone -/

/-- `t` differs from `s` at most in the cursor, the failures and the calls that were noted, and the
cursor and the failures are still inside the text. -/
structure Works (env : Env) (s t : State) : Prop where
  grammar : t.grammar = s.grammar
  memo : t.memo = s.memo
  skipping : t.skipping = s.skipping
  depth : t.depth = s.depth
  overflowed : t.overflowed = s.overflowed
  inside : s.cursor ≤ env.length → t.cursor ≤ env.length
  stack : s.cursor ≤ env.length → (∀ f ∈ s.failures, f.position ≤ env.length) →
    ∀ f ∈ t.failures, f.position ≤ env.length
  events : ∃ calls : List (String × String),
    t.events = s.events ++ calls.toArray.map fun c => Event.called c.1 c.2

namespace Works

variable {env : Env} {s t u : State}

/-- A change that notes no calls. -/
theorem of_events_eq (hg : t.grammar = s.grammar) (hm : t.memo = s.memo)
    (hk : t.skipping = s.skipping) (hd : t.depth = s.depth) (ho : t.overflowed = s.overflowed)
    (hc : s.cursor ≤ env.length → t.cursor ≤ env.length)
    (hf : s.cursor ≤ env.length → (∀ f ∈ s.failures, f.position ≤ env.length) →
      ∀ f ∈ t.failures, f.position ≤ env.length) (he : t.events = s.events) :
    Works env s t :=
  ⟨hg, hm, hk, hd, ho, hc, hf, [], by simp [he]⟩

theorem refl (s : State) : Works env s s :=
  of_events_eq rfl rfl rfl rfl rfl id (fun _ hf => hf) rfl

theorem trans (h : Works env s t) (h' : Works env t u) : Works env s u where
  grammar := h'.grammar.trans h.grammar
  memo := h'.memo.trans h.memo
  skipping := h'.skipping.trans h.skipping
  depth := h'.depth.trans h.depth
  overflowed := h'.overflowed.trans h.overflowed
  inside hs := h'.inside (h.inside hs)
  stack hs hf := h'.stack (h.inside hs) (h.stack hs hf)
  events := by
    obtain ⟨cs, hcs⟩ := h.events
    obtain ⟨cs', hcs'⟩ := h'.events
    exact ⟨cs ++ cs', by simp [hcs, hcs']⟩

theorem moveTo (env : Env) (s : State) (p : Nat) : Works env s (s.moveTo env p) :=
  of_events_eq rfl rfl rfl rfl rfl (fun _ => Nat.min_le_right ..) (fun _ hf => hf) rfl

theorem skipBlanks (env : Env) (s : State) : Works env s (s.skipBlanks env) := by
  have hb : s.cursor ≤ env.length → (s.skipBlanks env).cursor ≤ env.length :=
    fun hs => (skipBlanks_bounds hs).2
  have hf : s.cursor ≤ env.length → (∀ f ∈ s.failures, f.position ≤ env.length) →
      ∀ f ∈ (s.skipBlanks env).failures, f.position ≤ env.length := by
    intro _ hf
    rw [skipBlanks_failures]
    exact hf
  refine of_events_eq ?_ ?_ ?_ ?_ ?_ hb hf ?_ <;> unfold State.skipBlanks <;> split <;> rfl

/-- The failure lies at the cursor, so inside the text. -/
theorem record (env : Env) (s : State) (cause : Cause) : Works env s (s.record cause) := by
  refine of_events_eq rfl rfl rfl rfl rfl id (fun hs hf f hfm => ?_) rfl
  rw [record_failures, Array.mem_push] at hfm
  rcases hfm with hfm | rfl
  · exact hf f hfm
  · exact hs

/-- The failures that are kept were there before. -/
theorem cutBack (env : Env) (s : State) (height : Nat) : Works env s (s.cutBack height) := by
  refine of_events_eq rfl rfl rfl rfl rfl id (fun _ hf f hfm => ?_) rfl
  rw [cutBack_failures, Array.take_eq_extract, Array.mem_extract_iff_getElem] at hfm
  obtain ⟨i, hi, rfl⟩ := hfm
  exact hf _ (Array.getElem_mem _)

/-- A call that is noted leaves all but the events alone. -/
theorem note {α : Type} (env : Env) (s : State) (journal : Option String) (text : α → String)
    (a : α) :
    Works env s (s.note journal text a) := by
  cases journal with
  | none => exact refl s
  | some journal =>
    refine ⟨rfl, rfl, rfl, rfl, rfl, id, fun _ hf => hf, [(journal, text a)], ?_⟩
    simp [State.note, State.emit]

end Works

/-! ## What can be recalled -/

/-- The run can recall the entry for a key at a position. -/
def Recalls (env : Env) (s : State) (p : Nat) (key : Key) (entry : Entry) : Prop :=
  env.memoizing = true ∧ s.memo.find? p key = some entry

/-- What is known is what can be recalled at the cursor. -/
theorem known?_eq_some {env : Env} {s : State} {key : Key} {entry : Entry} :
    s.known? env key = some entry ↔ Recalls env s s.cursor key entry := by
  unfold known? Recalls
  by_cases h : env.memoizing = true
  · simp [h]
  · simp [h]

/-- What can be recalled depends on the memory only. -/
theorem Recalls.congr {env : Env} {s t : State} (h : t.memo = s.memo) {p : Nat} {key : Key}
    {entry : Entry} (ht : Recalls env t p key entry) : Recalls env s p key entry := by
  obtain ⟨hm, hf⟩ := ht
  exact ⟨hm, by rw [← h]; exact hf⟩

/-- Settling an outcome remembers it, unless the limit of open rules was hit. -/
theorem settle_eq (s : State) (env : Env) (key : Key) (start : Nat) (outer : Array Failure)
    (o : Outcome Value) :
    s.settle env key start outer o =
      { s with
        memo :=
          if env.memoizing && !s.overflowed then s.memo.insert start key (.ofOutcome s.failures o)
          else s.memo
        failures := if o.isMatched then outer else outer ++ s.failures } := by
  unfold settle remember
  cases env.memoizing && !s.overflowed <;> rfl

theorem settle_grammar (s : State) (env : Env) (key : Key) (start : Nat) (outer : Array Failure)
    (o : Outcome Value) : (s.settle env key start outer o).grammar = s.grammar := by
  rw [settle_eq]

/-- What can be recalled after an outcome was settled is that outcome, unless it could be recalled
before. -/
theorem Recalls.of_settle {env : Env} {s : State} {key key' : Key} {start p : Nat}
    {outer : Array Failure} {o : Outcome Value} {entry : Entry}
    (h : Recalls env (s.settle env key start outer o) p key' entry) :
    (s.overflowed = false ∧ p = start ∧ key' = key ∧ entry = .ofOutcome s.failures o) ∨
      Recalls env s p key' entry := by
  obtain ⟨hm, hf⟩ := h
  rw [settle_eq] at hf
  by_cases hov : s.overflowed = false
  · simp only [hm, hov, Bool.not_false, Bool.and_self, if_true] at hf
    rcases Memo.find?_insert hf with ⟨hp, hk, he⟩ | hf
    · exact Or.inl ⟨hov, hp, hk, he⟩
    · exact Or.inr ⟨hm, hf⟩
  · simp only [hm, hov, Bool.not_true, Bool.and_false, Bool.false_eq_true, if_false] at hf
    exact Or.inr ⟨hm, hf⟩

end State

end Packrat
