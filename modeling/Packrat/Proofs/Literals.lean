import Mathlib.Data.String.Basic
import Packrat.Proofs.Sequence
import Packrat.Text.Indexed

/-!
# Literals and their characters

A literal reads a slice of the text at once; the sequence of its characters reads them one by one
(`Expr.spelled?`). Where no blanks are skipped, both match exactly where the text goes on with the
literal, and then come to the same state (`Expr.literals_exact`). So they do in a text that is
indexed by the byte offsets of its characters: what is read through the offsets is what stands in
the text, however wide its characters are, and a slice that ends beyond the largest word is absent
like every other one that is too long (`IndexedText.slice?_eq`).
-/

namespace Packrat

/-! ## Slices of a text -/

/-- The offset of a character is the width of all that stand in front of it. -/
theorem getElem?_byteOffsetsFrom (start : Nat) (cs : List Char) (i : Nat) :
    (byteOffsetsFrom start cs)[i]? =
      if i ≤ cs.length then some (start + String.utf8Len (cs.take i)) else none := by
  induction cs generalizing start i with
  | nil => cases i <;> simp [byteOffsetsFrom]
  | cons c rest ih =>
    cases i with
    | zero => simp [byteOffsetsFrom]
    | succ i =>
      rw [byteOffsetsFrom, List.getElem?_cons_succ, ih, List.length_cons, List.take_succ_cons,
        String.utf8Len_cons]
      simp only [Nat.succ_le_succ_iff]
      split
      · congr 1
        omega
      · rfl

theorem length_byteOffsetsFrom (start : Nat) (cs : List Char) :
    (byteOffsetsFrom start cs).length = cs.length + 1 := by
  induction cs generalizing start with
  | nil => rfl
  | cons c rest ih => rw [byteOffsetsFrom, List.length_cons, ih, List.length_cons]

namespace IndexedText

theorem length_eq (x : IndexedText) : x.length = x.text.length := by
  rw [length, x.indexed, List.size_toArray, length_byteOffsetsFrom, Nat.add_sub_cancel,
    String.length_toList]

/-- The offset of a character is the width of those before it. -/
theorem getElem?_offsets (x : IndexedText) (i : Nat) :
    x.offsets[i]? =
      if i ≤ x.text.length then some (String.utf8Len (x.text.toList.take i)) else none := by
  rw [x.indexed, List.getElem?_toArray, getElem?_byteOffsetsFrom, Nat.zero_add,
    String.length_toList]

/-- A character that is read at its offset is the one at its position. -/
theorem charAt?_eq (x : IndexedText) (position : Nat) :
    x.charAt? position = x.text.toList[position]? := by
  rw [charAt?, getElem?_offsets]
  by_cases h : position ≤ x.text.length
  · have hget := String.get?_of_valid (x.text.toList.take position) (x.text.toList.drop position)
    rw [List.take_append_drop, String.ofList_toList, List.head?_drop] at hget
    rw [if_pos h]
    exact hget
  · have hbehind : x.text.toList.length ≤ position := by
      rw [String.length_toList]
      omega
    rw [if_neg h, List.getElem?_eq_none hbehind]

/-- A slice between two offsets has the characters between them. -/
theorem slice?_eq (x : IndexedText) (hx : x.text.length < UInt64.size) (position length : Nat) :
    x.slice? position length =
      if position + length ≤ x.text.length then
        some (String.ofList ((x.text.toList.drop position).take length))
      else none := by
  rw [slice?, offsetBehind?, getElem?_offsets, getElem?_offsets]
  by_cases h : position + length ≤ x.text.length
  · have hsplit : x.text.toList.take position ++ (x.text.toList.drop position).take length ++
        x.text.toList.drop (position + length) = x.text.toList := by
      rw [← List.take_add, List.take_append_drop]
    have hstop : String.utf8Len (x.text.toList.take (position + length)) =
        String.utf8Len (x.text.toList.take position) +
          String.utf8Len ((x.text.toList.drop position).take length) := by
      rw [List.take_add, String.utf8Len_append]
    have hextract := String.extract_of_valid (x.text.toList.take position)
      ((x.text.toList.drop position).take length) (x.text.toList.drop (position + length))
    rw [hsplit, String.ofList_toList] at hextract
    rw [if_pos (by omega), if_pos (by omega), if_pos h, if_pos h, hstop]
    exact congrArg some hextract
  · rw [if_neg h, if_neg h, ite_self]
    split
    · contradiction
    · rfl

example : (ofText "f↙↙o").slice? 1 2 = some "↙↙" ∧ (ofText "f↙↙o").slice? 2 3 = none := by decide

end IndexedText

namespace Env

variable (env : Env)

/-- A slice is as many characters of the text as asked for, or absent if there are fewer. -/
theorem slice?_eq (position length : Nat) :
    env.slice? position length =
      if position + length ≤ env.length then
        some (String.ofList ((env.text.toList.drop position).take length))
      else none := by
  rw [slice?, Array.toList_extract, List.extract_eq_take_drop, Nat.add_sub_cancel_left]

/-- What an indexed text answers is what a run over the text reads. -/
theorem indexed_ofText (text : String) (config : Config) (htext : text.length < UInt64.size) :
    let input := IndexedText.ofText text
    input.length = (ofText text config).length ∧ ∀ position length,
      input.charAt? position = (ofText text config).text[position]? ∧
        input.slice? position length = (ofText text config).slice? position length := by
  intro input
  refine ⟨?_, fun position length => ⟨?_, ?_⟩⟩
  · rw [IndexedText.length_eq, length_ofText]
    rfl
  · rw [IndexedText.charAt?_eq, ofText, List.getElem?_toArray]
    rfl
  · rw [IndexedText.slice?_eq _ htext, slice?_eq, length_ofText]
    rfl

end Env

/-- The characters `c :: cs` stand at a position if `c` does and `cs` stand behind it. -/
theorem cons_prefix_drop_iff {α : Type} {c : α} {cs l : List α} {position : Nat} :
    c :: cs <+: l.drop position ↔ l[position]? = some c ∧ cs <+: l.drop (position + 1) := by
  by_cases h : position < l.length
  · rw [List.drop_eq_getElem_cons h, List.cons_prefix_cons, List.getElem?_eq_getElem h,
      Option.some_inj, eq_comm]
  · rw [List.drop_eq_nil_of_le (by omega), List.getElem?_eq_none (by omega)]
    simp

/-! ## Terminals and states -/

namespace State

/-- Between two states one failure was added, with the given message. -/
def Adds (s t : State) (message : String) : Prop :=
  ∃ f, t.failures = s.failures.push f ∧ f.message = message

section

variable {s t : State} {message : String}

theorem not_adds (h : t.failures = s.failures) : ¬ s.Adds t message := by
  rintro ⟨f, hf, -⟩
  rw [h] at hf
  simpa using congrArg Array.size hf

theorem adds_record_iff (h : t.failures = s.failures) {cause : Cause} :
    s.Adds (t.record cause) message ↔ cause.message = message := by
  rw [Adds, record_failures, h]
  constructor
  · rintro ⟨f, hf, hmessage⟩
    obtain ⟨rfl, -⟩ := Array.push_eq_push.mp hf
    exact hmessage
  · exact fun hmessage => ⟨_, rfl, hmessage⟩

end

theorem skipBlanks_cursor (s : State) (env : Env) :
    (s.skipBlanks env).cursor = if s.skipping then env.skipBlanks s.cursor else s.cursor := by
  unfold skipBlanks
  split <;> rfl

theorem skipBlanks_events (s : State) (env : Env) : (s.skipBlanks env).events = s.events := by
  unfold skipBlanks
  split <;> rfl

theorem note_events {α : Type} {journal : Option String} {name : String} (h : name ∈ journal)
    (s : State) (text : α → String) (a : α) :
    (s.note journal text a).events = s.events.push (.called name (text a)) := by
  cases h
  rfl

end State

/-! ## Characters one by one -/

namespace Expr

/-- The steps that match characters one by one. -/
def spelling (cs : List Char) : List (Step Expr) := cs.map fun c => (charWhere (· == c)).kept

/-- The sequence of the characters of a text, with the list of them as its value. -/
def spelled? (str : String) : Except Defect Expr :=
  sequence? (spelling str.toList) { apply := (listKept (spelling str.toList)).build }

theorem spelled?_of_ne {str : String} (hne : str ≠ "") :
    spelled? str = .ok (.sequence .val (spelling str.toList)
      { apply := (listKept (spelling str.toList)).build }) := by
  have hsteps : (spelling str.toList).isEmpty = false := by
    rw [spelling, List.isEmpty_map, List.isEmpty_eq_false_iff]
    exact fun h => hne (String.toList_eq_nil_iff.mp h)
  rw [spelled?, sequence?, hsteps]
  rfl

/-- The list of the characters of a text is displayed as the text. -/
theorem display_chars (str : String) : (Value.list (str.toList.map .char)).display = str := by
  have hflat : ∀ cs : List Char,
      ((Value.displays (cs.map .char)).map String.toList).flatten = cs := by
    intro cs
    induction cs with
    | nil => rfl
    | cons c cs ih => simp [Value.displays, Value.display, ih]
  rw [Value.display, String.join_eq, hflat, String.ofList_toList]

section

variable (env : Env) (call : RuleId → Matcher) {s : State} {c : Char} {cs : List Char}

/-- A character that passes the test is consumed, where no blanks are skipped. -/
theorem run_charWhere_matched (test : Char → Bool) (hskip : s.skipping = false)
    (hc : env.text[s.cursor]? = some c) (htest : test c = true) :
    (charWhere test).matcher env call s =
      .ok (.matched (s.cursor + 1) (.char c)) { s with cursor := s.cursor + 1 } := by
  have hlt : s.cursor < env.length := (Array.getElem?_eq_some_iff.mp hc).1
  have hadvance : s.advance env 1 = { s with cursor := s.cursor + 1 } := by
    rw [State.advance, State.moveTo, Nat.min_eq_left hlt]
  change Matcher.char env _ s = _
  rw [Matcher.char, ParseM.run_bind, Matcher.run_scan, hc]
  simp only [State.note, htest, if_true, hadvance, Matcher.run_skippingBlanks_matched,
    State.skipBlanks, hskip, Bool.false_eq_true, if_false]

/-- One that does not, or a missing one, leaves a failure where it was looked for. -/
theorem run_charWhere_failed (test : Char → Bool)
    (h : ∀ c, env.text[s.cursor]? = some c → test c = false) :
    ∃ cause, (charWhere test).matcher env call s = .ok .failed (s.record cause) := by
  change ∃ cause, Matcher.char env _ s = _
  rw [Matcher.char, ParseM.run_bind, Matcher.run_scan]
  cases hc : env.text[s.cursor]? with
  | none => exact ⟨_, rfl⟩
  | some c =>
    simp only [State.note, h c hc, Bool.false_eq_true, if_false]
    exact ⟨_, rfl⟩

/-- Where the text goes on with the characters, they match one after the other. -/
theorem spelling_matched (hskip : s.skipping = false)
    (hcs : cs <+: env.text.toList.drop s.cursor) :
    StepsMatch (fun x => x.matcher env call) (spelling cs) s (cs.map .char)
      { s with cursor := s.cursor + cs.length } := by
  induction cs generalizing s with
  | nil => exact .nil s
  | cons c cs ih =>
    obtain ⟨hc, hcs'⟩ := cons_prefix_drop_iff.mp hcs
    rw [Array.getElem?_toList] at hc
    have hfirst := run_charWhere_matched env call (· == c) hskip hc (by simp)
    have hrest := ih (s := { s with cursor := s.cursor + 1 }) hskip hcs'
    rw [List.length_cons, show s.cursor + (cs.length + 1) = s.cursor + 1 + cs.length by omega]
    exact .cons (t := { s with cursor := s.cursor + 1 }) hfirst hrest

/-- Where it does not, there is a first character that fails. -/
theorem spelling_failed (hskip : s.skipping = false)
    (hcs : ¬ cs <+: env.text.toList.drop s.cursor) :
    ∃ done step rest vs t u, spelling cs = done ++ step :: rest ∧
      StepsMatch (fun x => x.matcher env call) done s vs t ∧
      step.body.matcher env call t = .ok .failed u := by
  induction cs generalizing s with
  | nil => exact absurd List.nil_prefix hcs
  | cons c cs ih =>
    by_cases hc : env.text[s.cursor]? = some c
    · have hfirst := run_charWhere_matched env call (· == c) hskip hc (by simp)
      have hcs' : ¬ cs <+: env.text.toList.drop (s.cursor + 1) := by
        intro hcs'
        exact hcs (cons_prefix_drop_iff.mpr ⟨by rw [Array.getElem?_toList, hc], hcs'⟩)
      obtain ⟨done, step, rest, vs, t, u, heq, hdone, hstep⟩ :=
        ih (s := { s with cursor := s.cursor + 1 }) hskip hcs'
      refine ⟨(charWhere (· == c)).kept :: done, step, rest, .char c :: vs, t, u, ?_, ?_, hstep⟩
      · exact congrArg _ heq
      · exact .cons (t := { s with cursor := s.cursor + 1 }) hfirst hdone
    · have hother : ∀ c', env.text[s.cursor]? = some c' → (c' == c) = false := by
        intro c' hc'
        rw [beq_eq_false_iff_ne]
        rintro rfl
        exact hc hc'
      obtain ⟨cause, hfirst⟩ := run_charWhere_failed env call (· == c) hother
      exact ⟨[], _, spelling cs, [], s, _, rfl, .nil s, hfirst⟩

theorem values_spelling (cs : List Char) :
    (Step.table (spelling cs) (cs.map .char)).values = cs.map .char := by
  induction cs with
  | nil => rfl
  | cons c cs ih => exact congrArg (Value.char c :: ·) ih

/-- Where the text goes on with the literal, the sequence of its characters matches it. -/
theorem spelled?_matched {str : String} (hne : str ≠ "") (hskip : s.skipping = false)
    (hstr : str.toList <+: env.text.toList.drop s.cursor) :
    ∃ x, spelled? str = .ok x ∧ x.matcher env call s =
      .ok (.matched (s.cursor + str.length) (.list (str.toList.map .char)))
        { s with cursor := s.cursor + str.length } := by
  have hall := spelling_matched env call hskip hstr
  have hlen : (str.toList.map Value.char).length = (spelling str.toList).length := by
    simp [spelling]
  have hbuild := Recipe.build_listKept hlen
  rw [values_spelling] at hbuild
  refine ⟨_, spelled?_of_ne hne, ?_⟩
  rw [Expr.sequence, hall.run_sequence_of_failures_eq _ _ _ rfl]
  dsimp only
  rw [hbuild, String.length_toList]
  rfl

/-- Where it does not, the sequence fails and goes back. -/
theorem spelled?_failed {str : String} (hne : str ≠ "") (hskip : s.skipping = false)
    (hstr : ¬ str.toList <+: env.text.toList.drop s.cursor) :
    ∃ x t, spelled? str = .ok x ∧ x.matcher env call s = .ok .failed t ∧
      t.cursor = min s.cursor env.length := by
  obtain ⟨done, step, rest, vs, t, u, heq, hdone, hstep⟩ :=
    spelling_failed env call hskip hstr
  have hrun (label : String) (type : ValueType) (build : Hook Slots (Except Fault Value)) :
      (sequenceAs label type (done ++ step :: rest) build).matcher env call s =
        .ok .failed ((u.moveTo env s.cursor).record (.wrong label)) :=
    hdone.run_sequence_failed label type build hstep
  rw [← heq] at hrun
  exact ⟨_, _, spelled?_of_ne hne, hrun _ _ _, rfl⟩

/-! ## The slice at once -/

/-- A literal fails without calling its test if fewer characters remain. -/
theorem run_literal_short {length : Nat} (test : Hook String Bool)
    (h : env.length < s.cursor + length) :
    (literal length test).matcher env call s = .ok .failed (s.record (.tooShort "Literal")) := by
  change Matcher.literal env length test s = _
  rw [Matcher.run_literal, Env.slice?_eq, if_neg (by omega)]

/-- Otherwise its test is called once, with just the next characters. -/
theorem run_literal_next {length : Nat} (test : Hook String Bool)
    (h : s.cursor + length ≤ env.length) :
    let next := String.ofList ((env.text.toList.drop s.cursor).take length)
    let t := s.note test.journal id next
    (literal length test).matcher env call s =
      if test.apply next then
        let u := ({ t with cursor := s.cursor + length } : State).skipBlanks env
        .ok (.matched u.cursor (.str next)) u
      else .ok .failed (t.record (.wrong "Literal")) := by
  intro next t
  have hadvance : t.advance env length = { t with cursor := s.cursor + length } := by
    rw [State.advance, State.moveTo, State.note_cursor, Nat.min_eq_left h]
  change Matcher.literal env length test s = _
  rw [Matcher.run_literal, Env.slice?_eq, if_pos h]
  dsimp only
  rw [hadvance]

/-- A literal whose test passes stops behind the blanks that follow it. -/
theorem run_literal_passed {length : Nat} {test : Hook String Bool}
    (h : s.cursor + length ≤ env.length) {next : String}
    (hnext : String.ofList ((env.text.toList.drop s.cursor).take length) = next)
    (htest : test.apply next = true) :
    ∃ t, (literal length test).matcher env call s = .ok (.matched t.cursor (.str next)) t ∧
      (t.cursor = if s.skipping then env.skipBlanks (s.cursor + length) else s.cursor + length) ∧
      t.failures = s.failures ∧ t.events = (s.note test.journal id next).events := by
  rw [run_literal_next env call test h]
  dsimp only
  rw [hnext, if_pos htest]
  refine ⟨_, rfl, ?_, ?_, ?_⟩
  · rw [State.skipBlanks_cursor]
    cases test.journal <;> rfl
  · rw [State.skipBlanks_failures]
    exact State.note_failures ..
  · exact State.skipBlanks_events ..

/-- A literal that the test refuses fails behind the call. -/
theorem run_literal_refused {length : Nat} {test : Hook String Bool}
    (h : s.cursor + length ≤ env.length) {next : String}
    (hnext : String.ofList ((env.text.toList.drop s.cursor).take length) = next)
    (htest : test.apply next = false) :
    (literal length test).matcher env call s =
      .ok .failed ((s.note test.journal id next).record (.wrong "Literal")) := by
  rw [run_literal_next env call test h]
  dsimp only
  rw [hnext, htest, if_neg Bool.false_ne_true]

/-- Where the text goes on with it, a literal matches. -/
theorem run_text_matched {str : String} (hne : str ≠ "") (hskip : s.skipping = false)
    (hstr : str.toList <+: env.text.toList.drop s.cursor) :
    (text str).matcher env call s =
      .ok (.matched (s.cursor + str.length) (.str str))
        { s with cursor := s.cursor + str.length } := by
  have hle : s.cursor + str.length ≤ env.length := by
    have hlen := hstr.length_le
    have hpos : str.length ≠ 0 := by simpa using hne
    rw [String.length_toList, List.length_drop, Array.length_toList] at hlen
    unfold Env.length
    omega
  have hnext : String.ofList ((env.text.toList.drop s.cursor).take str.length) = str := by
    rw [← String.length_toList, ← List.prefix_iff_eq_take.mp hstr, String.ofList_toList]
  rw [text, run_literal_next env call _ hle, hnext]
  simp [State.note, State.skipBlanks, hskip]

theorem run_text_failed {str : String} (hstr : ¬ str.toList <+: env.text.toList.drop s.cursor) :
    ∃ cause, (text str).matcher env call s = .ok .failed (s.record cause) := by
  by_cases hle : s.cursor + str.length ≤ env.length
  · have hnext : String.ofList ((env.text.toList.drop s.cursor).take str.length) ≠ str := by
      intro heq
      refine hstr (List.prefix_iff_eq_take.mpr ?_)
      rw [String.length_toList, ← String.toList_ofList (l := List.take _ _), heq]
    rw [text, run_literal_next env call _ hle]
    simp only [beq_eq_false_iff_ne.mpr hnext, Bool.false_eq_true, if_false]
    exact ⟨_, rfl⟩
  · exact ⟨_, run_literal_short env call _ (by omega)⟩

end

/-- A literal and the sequence of its characters, wherever no blanks are skipped: both match exactly
where the text goes on with the literal, with the literal as what they match, and then leave the
same state; otherwise both fail and stay where they are.

A literal of any length is too short exactly where fewer characters remain. Everywhere else its test
is called once, on just as many characters, and decides; a match consumes these and the blanks
behind them, if blanks are skipped.

The text may as well be read through the byte offsets of its characters. -/
theorem literals_exact (text : String) (config : Config) (call : RuleId → Matcher) (s : State) :
    let env := Env.ofText text config
    let input := IndexedText.ofText text
    let run (x : Expr) := x.matcher env call s
    let behind := text.toList.drop s.cursor
    (∀ str, str ≠ "" → s.skipping = false → ∃ x, spelled? str = .ok x ∧
      let stop := s.cursor + str.length
      let chars := Value.list (str.toList.map .char)
      chars.display = str ∧
      (str.toList <+: behind →
        run (.text str) = .ok (.matched stop (.str str)) { s with cursor := stop } ∧
        run x = .ok (.matched stop chars) { s with cursor := stop }) ∧
      (¬ str.toList <+: behind →
        ∃ t u, run (.text str) = .ok .failed t ∧ run x = .ok .failed u ∧
          (s.cursor ≤ text.length → t.cursor = s.cursor ∧ u.cursor = s.cursor))) ∧
    (∀ (length : Nat) (test : Hook String Bool),
      let next := String.ofList (behind.take length)
      ∃ o t, run (.literal length test) = .ok o t ∧
        (s.Adds t "Can't parse Literal - text is too short" ↔ text.length < s.cursor + length) ∧
        (text.length < s.cursor + length → o = .failed ∧ t.events = s.events) ∧
        (s.cursor + length ≤ text.length → next.length = length ∧
          (∀ journal ∈ test.journal, t.events = s.events.push (.called journal next)) ∧
          (test.apply next = true → o = .matched t.cursor (.str next) ∧
            t.cursor = if s.skipping then env.skipBlanks (s.cursor + length)
              else s.cursor + length) ∧
          (test.apply next = false → o = .failed ∧ t.cursor = s.cursor))) ∧
    (text.length < UInt64.size → input.length = env.length ∧ ∀ position length,
      input.charAt? position = env.text[position]? ∧
        input.slice? position length = env.slice? position length) := by
  intro env input run behind
  refine ⟨fun str hne hskip => ?_, fun length test => ?_, Env.indexed_ofText text config⟩
  · by_cases hstr : str.toList <+: behind
    · obtain ⟨x, hx, hrun⟩ := spelled?_matched env call hne hskip hstr
      have htext := run_text_matched env call hne hskip hstr
      exact ⟨x, hx, display_chars str, fun _ => ⟨htext, hrun⟩, fun hno => absurd hstr hno⟩
    · obtain ⟨x, t, hx, hrun, ht⟩ := spelled?_failed env call hne hskip hstr
      obtain ⟨cause, htext⟩ := run_text_failed env call hstr
      refine ⟨x, hx, display_chars str, fun hyes => absurd hyes hstr, fun _ => ?_⟩
      refine ⟨_, t, htext, hrun, fun hcursor => ⟨rfl, ?_⟩⟩
      rw [ht, Env.length_ofText, Nat.min_eq_left hcursor]
  · intro next
    have hlen : env.length = text.length := Env.length_ofText text config
    by_cases hshort : text.length < s.cursor + length
    · have hrun := run_literal_short env call test (hlen ▸ hshort)
      -- the two messages of a literal differ, so the failure tells which case it was
      have hadds : s.Adds (s.record (.tooShort "Literal"))
          "Can't parse Literal - text is too short" :=
        (State.adds_record_iff rfl).mpr (by decide)
      refine ⟨_, _, hrun, iff_of_true hadds hshort, fun _ => ⟨rfl, rfl⟩, fun h => ?_⟩
      omega
    · have hle : s.cursor + length ≤ env.length := by omega
      have hnext : next.length = length := by
        rw [String.length_ofList, List.length_take, List.length_drop, String.length_toList]
        omega
      cases htest : test.apply next with
      | true =>
        obtain ⟨t, hrun, hcursor, hfailures, hevents⟩ := run_literal_passed env call hle rfl htest
        refine ⟨_, t, hrun, iff_of_false (State.not_adds hfailures) hshort,
          fun h => absurd h hshort, fun _ => ⟨hnext, fun journal h => ?_, ?_, nofun⟩⟩
        · exact hevents.trans (State.note_events h ..)
        · exact fun _ => ⟨rfl, hcursor⟩
      | false =>
        have hrun := run_literal_refused env call hle rfl htest
        have hfailures := State.note_failures s test.journal id next
        refine ⟨_, _, hrun, iff_of_false (fun h => ?_) hshort,
          fun h => absurd h hshort, fun _ => ⟨hnext, fun journal h => ?_, nofun, ?_⟩⟩
        · exact absurd ((State.adds_record_iff hfailures).mp h) (by decide)
        · exact State.note_events h ..
        · exact fun _ => ⟨rfl, State.note_cursor ..⟩

/-- Two wide characters behind a narrow one, as a literal and one by one. A literal as long as the
largest word is too short there. -/
theorem literals_exact_wide :
    let text := "f↙↙o"
    let env := Env.ofText text .plain
    let s := { State.start env {} with cursor := 1 }
    let run (x : Expr) := x.matcher env (callRule env 0) s
    (∃ x t, spelled? "↙↙" = .ok x ∧ run (.text "↙↙") = .ok (.matched 3 (.str "↙↙")) t ∧
      run x = .ok (.matched 3 (.list [.char '↙', .char '↙'])) t) ∧
    (∃ t, run (.literal 0xffffffffffffffff { apply := fun _ => true }) = .ok .failed t) ∧
    (IndexedText.ofText text).slice? 1 2 = env.slice? 1 2 := by
  intro text env s run
  obtain ⟨hspelled, hliteral, hindexed⟩ := literals_exact text .plain (callRule env 0) s
  refine ⟨?_, ?_, ((hindexed (by decide)).2 1 2).2⟩
  · obtain ⟨x, hx, -, hmatched, -⟩ := hspelled "↙↙" (by decide) rfl
    obtain ⟨htext, hrun⟩ := hmatched (by decide)
    exact ⟨x, _, hx, htext, hrun⟩
  · obtain ⟨o, t, hrun, -, hshort, -⟩ :=
      hliteral 0xffffffffffffffff { apply := fun _ => true }
    obtain ⟨rfl, -⟩ := hshort (by decide)
    exact ⟨t, hrun⟩

end Expr

end Packrat
