import Packrat.Proofs.Answer
import Packrat.Proofs.Base

/-!
# Cursor discipline

An evaluation that fails leaves the cursor where it found it and adds failures, the last of them its
own. One that matches leaves the cursor at the end of the match, not before its start and inside the
text, and the failures as it found them. `Lands` says this of one evaluation.

It holds from every state that is `Sane`: the cursor is inside the text, and so is every remembered
outcome. Each matcher keeps it if its parts do, so it holds of all expressions (`Expr.orderly`), and
from there of the answers, whatever is remembered and however many rules may be open
(`orderly_answer`). A part that keeps it also makes the loop of a repetition end in time, so nothing
but a rule can exhaust an evaluation.
-/

namespace Packrat

/-- The failures lie between `p` and the end of the text. -/
def Within (env : Env) (p : Nat) (fs : Array Failure) : Prop :=
  ∀ f ∈ fs, p ≤ f.position ∧ f.position ≤ env.length

/-- The failures of an attempt at `p`: those of its parts, and its own behind them. -/
def Blames (env : Env) (p : Nat) (fs : Array Failure) : Prop :=
  Within env p fs ∧ ∃ parts cause, fs = Array.push parts ⟨p, cause⟩

/-- A remembered outcome of an attempt at `p` that stays inside the text. -/
def Entry.Fits (env : Env) (p : Nat) : Entry → Prop
  | .success stop _ => p ≤ stop ∧ stop ≤ env.length
  | .failure fs => Blames env p fs

/-- A state from which evaluations stay inside the text. -/
structure Sane (env : Env) (s : State) : Prop where
  /-- The cursor is inside the text. -/
  cursor : s.cursor ≤ env.length
  /-- What can be recalled stays inside the text. -/
  memo : ∀ p key entry, s.Recalls env p key entry → entry.Fits env p

/-- `t` is as far as `s` or further on, with failures of parts added. -/
structure Advances (env : Env) (s t : State) : Prop where
  le : s.cursor ≤ t.cursor
  bound : t.cursor ≤ env.length
  failures : ∃ fs, t.failures = s.failures ++ fs ∧ Within env s.cursor fs

/-- Where an outcome of an attempt at `start` leaves the cursor. -/
def Outcome.stopFrom {α : Type} (start : Nat) : Outcome α → Nat
  | .matched stop _ => stop
  | .failed => start

/-- How an evaluation that began in `s` leaves cursor and failures. -/
def Lands (env : Env) (s : State) : Outcome Value → State → Prop
  | .matched stop _, t =>
    t.cursor = stop ∧ s.cursor ≤ stop ∧ stop ≤ env.length ∧ t.failures = s.failures
  | .failed, t => t.cursor = s.cursor ∧ ∃ fs, Blames env s.cursor fs ∧ t.failures = s.failures ++ fs

/-- A run that ends as `P` says or is halted, in a sane state either way. If it is `total` it is not
exhausted. -/
def Orderly {α : Type} (env : Env) (total : Prop) (P : α → State → Prop) : Result α → Prop
  | .ok a t => Sane env t ∧ P a t
  | .error h t => Sane env t ∧ (total → h ≠ .exhausted)

/-- A matcher whose evaluations land. -/
def Matcher.Orderly (env : Env) (total : Prop) (m : Matcher) : Prop :=
  ∀ s, Sane env s → Packrat.Orderly env total (Lands env s) (m s)

section

variable {env : Env} {total : Prop} {s t u : State}

/-! ## Failures and places -/

theorem Within.empty (env : Env) (p : Nat) : Within env p #[] := by simp [Within]

/-- Failures behind a later position are behind an earlier one. -/
theorem Within.mono {p q : Nat} (h : p ≤ q) {fs : Array Failure} (hfs : Within env q fs) :
    Within env p fs := fun f hf => ⟨Nat.le_trans h (hfs f hf).1, (hfs f hf).2⟩

theorem Within.append {p : Nat} {fs fs' : Array Failure} (h : Within env p fs)
    (h' : Within env p fs') : Within env p (fs ++ fs') := by
  intro f hf
  rcases Array.mem_append.mp hf with hf | hf
  · exact h f hf
  · exact h' f hf

theorem Within.push {p : Nat} (hp : p ≤ env.length) {fs : Array Failure} (h : Within env p fs)
    (cause : Cause) : Within env p (fs.push ⟨p, cause⟩) := by
  intro f hf
  rcases Array.mem_push.mp hf with hf | rfl
  · exact h f hf
  · exact ⟨Nat.le_refl _, hp⟩

theorem Blames.le {p : Nat} {fs : Array Failure} (h : Blames env p fs) : p ≤ env.length := by
  obtain ⟨hw, parts, cause, rfl⟩ := h
  exact (hw _ Array.mem_push_self).2

theorem Entry.Fits.le {p : Nat} {entry : Entry} (h : entry.Fits env p) : p ≤ env.length := by
  cases entry with
  | success stop v => exact Nat.le_trans h.1 h.2
  | failure fs => exact Blames.le h

/-- A state is sane if nothing new is remembered and the cursor stays in the text. -/
theorem Sane.of_memo (h : Sane env s) (hm : t.memo = s.memo) (hc : t.cursor ≤ env.length) :
    Sane env t := ⟨hc, fun p key entry hr => h.memo p key entry (hr.congr hm)⟩

/-- Going back to a cursor that was inside the text gets there. -/
theorem moveTo_start (hs : s.cursor ≤ env.length) (t : State) :
    (t.moveTo env s.cursor).cursor = s.cursor := by
  rw [State.moveTo_cursor, Nat.min_eq_left hs]

namespace Advances

theorem refl (h : s.cursor ≤ env.length) : Advances env s s :=
  ⟨Nat.le_refl _, h, #[], by simp, .empty env _⟩

theorem trans (h : Advances env s t) (h' : Advances env t u) : Advances env s u := by
  obtain ⟨fs, hfs, hw⟩ := h.failures
  obtain ⟨fs', hfs', hw'⟩ := h'.failures
  refine ⟨Nat.le_trans h.le h'.le, h'.bound, fs ++ fs', ?_, hw.append (hw'.mono h.le)⟩
  rw [hfs', hfs, Array.append_assoc]

/-- Going back to the start keeps the failures of the parts. -/
theorem back (h : Advances env s t) : Advances env s (t.moveTo env s.cursor) := by
  have hc := moveTo_start (Nat.le_trans h.le h.bound) t
  exact ⟨Nat.le_of_eq hc.symm, Nat.min_le_right .., h.failures⟩

/-- A composite that matches drops the failures of its parts. -/
theorem matched (h : Advances env s t) (v : Value) :
    Lands env s (.matched t.cursor v) (t.cutBack s.failures.size) := by
  obtain ⟨fs, hfs, -⟩ := h.failures
  refine ⟨rfl, h.le, h.bound, ?_⟩
  rw [State.cutBack_failures, hfs, Array.take_eq_extract, Array.extract_append_left,
    Array.extract_size]

/-- A composite that fails adds its own failure at its start. -/
theorem failed (h : Advances env s t) (hc : u.cursor = s.cursor) (hf : u.failures = t.failures)
    (cause : Cause) : Lands env s .failed (u.record cause) := by
  obtain ⟨fs, hfs, hw⟩ := h.failures
  have hb := hw.push (Nat.le_trans h.le h.bound) cause
  refine ⟨hc, fs.push ⟨s.cursor, cause⟩, ⟨hb, fs, cause, rfl⟩, ?_⟩
  rw [State.record_failures, hf, hfs, hc, Array.append_push]

/-- A composite that fails goes back and adds its own failure to those of its parts. -/
theorem giveUp (ht : Sane env t) (h : Advances env s t) (cause : Cause) :
    Orderly env total (Lands env s) (.ok .failed ((t.moveTo env s.cursor).record cause)) :=
  ⟨ht.of_memo rfl (Nat.min_le_right ..),
    h.failed (moveTo_start (Nat.le_trans h.le h.bound) t) rfl cause⟩

end Advances

/-- An evaluation that has landed is no further back, whatever it came to. -/
theorem Lands.advances (hs : s.cursor ≤ env.length) {o : Outcome Value} (h : Lands env s o t) :
    Advances env s t := by
  cases o with
  | matched stop v =>
    obtain ⟨hc, h1, h2, hf⟩ := h
    exact ⟨by rw [hc]; exact h1, by rw [hc]; exact h2, #[], by simp [hf], .empty env _⟩
  | failed =>
    obtain ⟨hc, fs, hb, hf⟩ := h
    exact ⟨Nat.le_of_eq hc.symm, by rw [hc]; exact hs, fs, hf, hb.1⟩

/-! ## Terminals -/

theorem Matcher.orderly_scan (label : String) (test : Hook Char Bool) :
    (scan env label test).Orderly env total := by
  intro s hs
  rw [run_scan]
  cases hc : env.text[s.cursor]? with
  | none => exact ⟨hs.of_memo rfl hs.cursor, (Advances.refl hs.cursor).failed rfl rfl _⟩
  | some c =>
    have hlt : s.cursor < env.length := (Array.getElem?_eq_some_iff.mp hc).1
    have hn := (State.Works.note env s test.journal Char.toString c).memo
    dsimp only
    split
    · have hcur : ((s.note test.journal Char.toString c).advance env 1).cursor = s.cursor + 1 := by
        rw [State.advance, State.moveTo_cursor, State.note_cursor, Nat.min_eq_left hlt]
      refine ⟨hs.of_memo hn (by rw [hcur]; exact hlt), rfl, ?_, ?_, ?_⟩
      · rw [hcur]; exact Nat.le_succ _
      · rw [hcur]; exact hlt
      · rw [State.advance, State.moveTo_failures, State.note_failures]
    · refine ⟨hs.of_memo hn ?_, (Advances.refl hs.cursor).failed ?_ ?_ _⟩
      · rw [State.record_cursor, State.note_cursor]; exact hs.cursor
      · exact State.note_cursor ..
      · exact State.note_failures ..

/-- The blanks behind a match belong to it. -/
theorem Lands.skippingBlanks {o : Outcome Value} (ht : Sane env t) (h : Lands env s o t) :
    Packrat.Orderly env total (Lands env s) (Matcher.skippingBlanks env o t) := by
  cases o with
  | failed => exact ⟨ht, h⟩
  | matched stop v =>
    obtain ⟨rfl, h1, -, hf⟩ := h
    obtain ⟨hle, hbound⟩ := State.skipBlanks_bounds ht.cursor
    rw [Matcher.run_skippingBlanks_matched]
    have hsane := ht.of_memo (State.Works.skipBlanks env t).memo hbound
    refine ⟨hsane, rfl, Nat.le_trans h1 hle, hbound, ?_⟩
    rw [State.skipBlanks_failures, hf]

theorem Matcher.orderly_char (test : Hook Char Bool) : (char env test).Orderly env total := by
  intro s hs
  have h : Packrat.Orderly env total (Lands env s) (scan env "Character" test s) :=
    orderly_scan "Character" test s hs
  rw [char, ParseM.run_bind]
  cases hr : scan env "Character" test s with
  | ok o t =>
    rw [hr] at h
    exact h.2.skippingBlanks h.1
  | error e t =>
    rw [hr] at h
    exact h

theorem Matcher.orderly_literal (length : Nat) (test : Hook String Bool) :
    (literal env length test).Orderly env total := by
  intro s hs
  rw [run_literal]
  cases hc : env.slice? s.cursor length with
  | none => exact ⟨hs.of_memo rfl hs.cursor, (Advances.refl hs.cursor).failed rfl rfl _⟩
  | some text =>
    have hle : s.cursor + length ≤ env.length := by
      unfold Env.slice? at hc
      split at hc
      · assumption
      · cases hc
    have hn : (s.note test.journal id text).memo = s.memo := (State.Works.note env s _ _ text).memo
    dsimp only
    split
    · have hcur : ((s.note test.journal id text).advance env length).cursor =
          s.cursor + length := by
        rw [State.advance, State.moveTo_cursor, State.note_cursor, Nat.min_eq_left hle]
      have hl : Lands env s (.matched (s.cursor + length) (.str text))
          ((s.note test.journal id text).advance env length) := by
        refine ⟨hcur, Nat.le_add_right .., hle, ?_⟩
        rw [State.advance, State.moveTo_failures, State.note_failures]
      have hsane : Sane env ((s.note test.journal id text).advance env length) :=
        hs.of_memo hn (by rw [hcur]; exact hle)
      exact hl.skippingBlanks hsane
    · refine ⟨hs.of_memo hn ?_, (Advances.refl hs.cursor).failed ?_ ?_ _⟩
      · rw [State.record_cursor, State.note_cursor]; exact hs.cursor
      · exact State.note_cursor ..
      · exact State.note_failures ..

theorem Matcher.orderly_succeed (v : Value) : (succeed v).Orderly env total :=
  fun _ hs => ⟨hs, rfl, Nat.le_refl _, hs.cursor, rfl⟩

theorem Matcher.orderly_fail (cause : Cause) : (fail cause).Orderly env total :=
  fun _ hs => ⟨hs.of_memo rfl hs.cursor, (Advances.refl hs.cursor).failed rfl rfl cause⟩

/-! ## Composites -/

/-- An option matches where its part has landed. -/
theorem Matcher.orderly_optional {m : Matcher} (hm : m.Orderly env total) :
    (optional m).Orderly env total := by
  intro s hs
  have h := hm s hs
  rw [run_optional]
  cases hr : m s with
  | error e t => rw [hr] at h; exact h
  | ok o t =>
    rw [hr] at h
    have ha := h.2.advances hs.cursor
    cases o with
    | matched stop v => exact ⟨h.1.of_memo rfl ha.bound, ha.matched _⟩
    | failed => exact ⟨h.1.of_memo rfl ha.bound, ha.matched _⟩

/-- The loop of a repetition gets further on, and the budget lasts. -/
theorem Matcher.orderly_collect {m : Matcher} (hm : m.Orderly env total) (count : Count)
    (budget : Nat) : ∀ items s, Sane env s →
      count.least - Array.size items + (env.length - s.cursor) < budget →
      Packrat.Orderly env total (fun _ t => Advances env s t) (collect count m budget items s) := by
  induction budget with
  | zero => intro items s _ hb; omega
  | succ budget ih =>
    intro items s hs hb
    have h := hm s hs
    rw [run_collect_succ]
    split
    · exact ⟨hs, .refl hs.cursor⟩
    · cases hr : m s with
      | error e t => rw [hr] at h; exact h
      | ok o t =>
        rw [hr] at h
        have ha := h.2.advances hs.cursor
        cases o with
        | failed => exact ⟨h.1, ha⟩
        | matched stop v =>
          obtain ⟨ht, hc, -, -, -⟩ := h
          dsimp only
          split
          · exact ⟨ht, ha⟩
          · rename_i hstop
            have hle := ha.le
            have hbd := ha.bound
            -- either the match moved the cursor or it was needed to fill the count
            have hb' : count.least - (items.push v).size + (env.length - t.cursor) < budget := by
              rw [not_and_or, ← hc] at hstop
              rw [Array.size_push] at hstop ⊢
              omega
            have hi := ih (items.push v) t ht hb'
            cases hw : collect count m budget (items.push v) t with
            | error e u => rw [hw] at hi; exact hi
            | ok items' u => rw [hw] at hi; exact ⟨hi.1, ha.trans hi.2⟩

theorem Matcher.orderly_repeated {m : Matcher} (hm : m.Orderly env total) (label : String)
    (count : Count) : (repeated env label count m).Orderly env total := by
  intro s hs
  have h := orderly_collect hm count (count.least + (env.length - s.cursor) + 1) #[] s hs
    (by simp)
  rw [run_repeated]
  cases hr : collect count m (count.least + (env.length - s.cursor) + 1) #[] s with
  | error e t => rw [hr] at h; exact h
  | ok items t =>
    rw [hr] at h
    obtain ⟨ht, ha⟩ := h
    dsimp only
    split
    · exact ⟨ht.of_memo rfl ha.bound, ha.matched _⟩
    · exact ha.giveUp ht _

/-- A lookahead goes back, so it lands where it began. -/
theorem Matcher.orderly_lookahead {m : Matcher} (hm : m.Orderly env total) (label : String)
    (negated : Bool) : (lookahead env label negated m).Orderly env total := by
  intro s hs
  have h := hm s hs
  rw [run_lookahead]
  cases hr : m s with
  | error e t => rw [hr] at h; exact h
  | ok o t =>
    rw [hr] at h
    have ha := h.2.advances hs.cursor
    dsimp only
    split
    · exact ha.giveUp h.1 _
    · refine ⟨h.1.of_memo rfl ha.back.bound, ?_⟩
      have hl := ha.back.matched .unit
      rw [moveTo_start hs.cursor] at hl
      exact hl

/-- Steps in a row advance, each from where the one before it has landed. -/
theorem Matcher.orderly_runSteps (steps : List (Step Matcher))
    (hsteps : ∀ step ∈ steps, step.body.Orderly env total) : ∀ s, Sane env s →
      Packrat.Orderly env total (fun _ t => Advances env s t) (runSteps steps s) := by
  induction steps with
  | nil => intro s hs; exact ⟨hs, .refl hs.cursor⟩
  | cons step rest ih =>
    intro s hs
    have h := hsteps step List.mem_cons_self s hs
    rw [run_runSteps_cons]
    cases hr : step.body s with
    | error e t => rw [hr] at h; exact h
    | ok o t =>
      rw [hr] at h
      have ha := h.2.advances hs.cursor
      cases o with
      | failed => exact ⟨h.1, ha⟩
      | matched stop v =>
        have hi := ih (fun step hmem => hsteps step (List.mem_cons_of_mem _ hmem)) t h.1
        dsimp only
        cases hw : runSteps rest t with
        | error e u => rw [hw] at hi; exact hi
        | ok slots u =>
          rw [hw] at hi
          cases slots <;> exact ⟨hi.1, ha.trans hi.2⟩

theorem Matcher.orderly_sequence (label : String) (steps : List (Step Matcher))
    (build : Hook Slots (Except Fault Value))
    (hsteps : ∀ step ∈ steps, step.body.Orderly env total) :
    (sequence env label steps build).Orderly env total := by
  intro s hs
  have h := orderly_runSteps steps hsteps s hs
  rw [run_sequence]
  cases hr : runSteps steps s with
  | error e t => rw [hr] at h; exact h
  | ok slots t =>
    rw [hr] at h
    obtain ⟨ht, ha⟩ := h
    cases slots with
    | none => exact ha.giveUp ht _
    | some slots =>
      have hm : ((t.cutBack s.failures.size).note build.journal (fun _ => "run") slots).memo =
          t.memo := (State.Works.note env _ _ _ slots).memo
      have hsane : Sane env
          ((t.cutBack s.failures.size).note build.journal (fun _ => "run") slots) :=
        ht.of_memo hm (by rw [State.note_cursor]; exact ha.bound)
      dsimp only
      cases build.apply slots with
      | error f => exact ⟨hsane, fun _ => by simp⟩
      | ok v =>
        obtain ⟨-, h1, h2, hf⟩ := ha.matched v
        refine ⟨hsane, rfl, ?_, ?_, ?_⟩
        · rw [State.note_cursor]; exact h1
        · rw [State.note_cursor]; exact h2
        · rw [State.note_failures]; exact hf

/-- The failures of the alternatives that were tried stay until the choice has ended. -/
theorem Matcher.orderly_firstOf (ms : List Matcher) (hms : ∀ m ∈ ms, m.Orderly env total)
    (start : Nat) : ∀ s, Sane env s → s.cursor = start →
      Packrat.Orderly env total (fun o t => Advances env s t ∧ t.cursor = o.stopFrom s.cursor)
        (firstOf env start ms s) := by
  induction ms with
  | nil => intro s hs _; exact ⟨hs, .refl hs.cursor, rfl⟩
  | cons m rest ih =>
    intro s hs hstart
    have h := hms m List.mem_cons_self s hs
    rw [run_firstOf_cons]
    cases hr : m s with
    | error e t => rw [hr] at h; exact h
    | ok o t =>
      rw [hr] at h
      have ha := h.2.advances hs.cursor
      cases o with
      | matched stop v => exact ⟨h.1, ha, h.2.1⟩
      | failed =>
        subst hstart
        have hc := moveTo_start hs.cursor t
        have hback := ha.back
        have hi := ih (fun m hmem => hms m (List.mem_cons_of_mem _ hmem)) (t.moveTo env s.cursor)
          (h.1.of_memo rfl hback.bound) hc
        dsimp only
        cases hw : firstOf env s.cursor rest (t.moveTo env s.cursor) with
        | error e u => rw [hw] at hi; exact hi
        | ok o u =>
          rw [hw] at hi
          cases o with
          | matched stop v => exact ⟨hi.1, hback.trans hi.2.1, hi.2.2⟩
          | failed => exact ⟨hi.1, hback.trans hi.2.1, hi.2.2.trans hc⟩

theorem Matcher.orderly_choice (label : String) (ms : List Matcher)
    (hms : ∀ m ∈ ms, m.Orderly env total) : (choice env label ms).Orderly env total := by
  intro s hs
  have h := orderly_firstOf ms hms s.cursor s hs rfl
  rw [run_choice]
  cases hr : firstOf env s.cursor ms s with
  | error e t => rw [hr] at h; exact h
  | ok o t =>
    rw [hr] at h
    cases o with
    | matched stop v =>
      obtain ⟨ht, ha, rfl⟩ := h
      exact ⟨ht.of_memo rfl ha.bound, ha.matched v⟩
    | failed =>
      obtain ⟨ht, ha, hc⟩ := h
      exact ⟨ht.of_memo rfl ha.bound, ha.failed hc rfl _⟩

theorem Matcher.orderly_map (f : Hook Value Value) {m : Matcher} (hm : m.Orderly env total) :
    (map f m).Orderly env total := by
  intro s hs
  have h := hm s hs
  rw [run_map]
  cases hr : m s with
  | error e t => rw [hr] at h; exact h
  | ok o t =>
    rw [hr] at h
    cases o with
    | failed => exact h
    | matched stop v =>
      obtain ⟨ht, hc, h1, h2, hf⟩ := h
      have hn := (State.Works.note env t f.journal Value.display v).memo
      refine ⟨ht.of_memo hn (by rw [State.note_cursor]; exact ht.cursor), ?_, h1, h2, ?_⟩
      · rw [State.note_cursor, hc]
      · rw [State.note_failures, hf]

/-! ## Expressions -/

mutual

/-- An expression is orderly where rules and built-in classes are. -/
theorem Expr.orderly {call : RuleId → Matcher} (hcall : ∀ r, (call r).Orderly env total)
    (hbuiltin : ∀ c, (Matcher.builtin env c).Orderly env total) (x : Expr) :
    (x.matcher env call).Orderly env total := by
  cases x with
  | builtin c => exact hbuiltin c
  | char test => exact Matcher.orderly_char test
  | literal length test => exact Matcher.orderly_literal length test
  | empty => exact Matcher.orderly_succeed .unit
  | fail message => exact Matcher.orderly_fail (.custom message)
  | position => exact fun _ hs => ⟨hs, rfl, Nat.le_refl _, hs.cursor, rfl⟩
  | rule r => exact hcall r
  | optionalAs label x => exact Matcher.orderly_optional (x.orderly hcall hbuiltin)
  | repeatedAs label x count =>
    exact Matcher.orderly_repeated (x.orderly hcall hbuiltin) label count
  | lookaheadAs label negated x =>
    exact Matcher.orderly_lookahead (x.orderly hcall hbuiltin) label negated
  | sequenceAs label type steps build =>
    exact Matcher.orderly_sequence label _ build (steps_orderly hcall hbuiltin steps)
  | choiceAs label xs =>
    exact Matcher.orderly_choice label _ (alternatives_orderly hcall hbuiltin xs)
  | map type f x => exact Matcher.orderly_map f (x.orderly hcall hbuiltin)

theorem Expr.steps_orderly {call : RuleId → Matcher} (hcall : ∀ r, (call r).Orderly env total)
    (hbuiltin : ∀ c, (Matcher.builtin env c).Orderly env total) (steps : List (Step Expr)) :
    ∀ step ∈ stepMatchers env call steps, step.body.Orderly env total := by
  cases steps with
  | nil => intro step h; cases h
  | cons step rest =>
    obtain ⟨x, store⟩ := step
    intro step h
    rcases List.mem_cons.mp h with rfl | h
    · exact x.orderly hcall hbuiltin
    · exact steps_orderly hcall hbuiltin rest step h

theorem Expr.alternatives_orderly {call : RuleId → Matcher}
    (hcall : ∀ r, (call r).Orderly env total)
    (hbuiltin : ∀ c, (Matcher.builtin env c).Orderly env total) (xs : List Expr) :
    ∀ m ∈ matchers env call xs, m.Orderly env total := by
  cases xs with
  | nil => intro m h; cases h
  | cons x rest =>
    intro m h
    rcases List.mem_cons.mp h with rfl | h
    · exact x.orderly hcall hbuiltin
    · exact alternatives_orderly hcall hbuiltin rest m h

end

/-! ## Answers -/

/-- What an evaluation on an empty stack came to may be remembered. -/
theorem Lands.fits {o : Outcome Value} (h : Lands env s o t) (hf : s.failures = #[]) :
    (Entry.ofOutcome t.failures o).Fits env s.cursor := by
  cases o with
  | matched stop v => exact ⟨h.2.1, h.2.2.1⟩
  | failed =>
    obtain ⟨-, fs, hb, hfs⟩ := h
    rw [hf, Array.empty_append] at hfs
    rw [hfs]
    exact hb

/-- What is remembered of an attempt stays inside the text. -/
theorem Sane.settle (ht : Sane env t) {o : Outcome Value} (h : Lands env s o t)
    (hf : s.failures = #[]) (key : Key) (outer : Array Failure) :
    Sane env (t.settle env key s.cursor outer o) := by
  constructor
  · rw [State.settle_eq]
    exact ht.cursor
  · intro p key' entry hrec
    rcases hrec.of_settle with ⟨-, rfl, rfl, rfl⟩ | hrec
    · exact h.fits hf
    · exact ht.memo p key' entry hrec

/-- Answering is orderly if the work behind it is: what is known fits the text, a refusal fails at
the cursor, and what work came to is settled. -/
theorem orderly_answer_of_produce {n : Nat} {key : Key}
    (hp : (produce env n key).Orderly env total) : (answer env n key).Orderly env total := by
  intro s hs
  rcases answer_cases env key s with ⟨entry, hk⟩ | ⟨r, rfl, hk, hl⟩ | ⟨hk, hl⟩
  · have hfit := hs.memo _ _ _ (State.known?_eq_some.mp hk)
    cases entry with
    | success stop v =>
      obtain ⟨es, he⟩ := answer_known_success (n := n) hk
      rw [he]
      have hl : Lands env s (.matched stop v) { s with cursor := stop, events := es } :=
        ⟨rfl, hfit.1, hfit.2, rfl⟩
      exact hl.skippingBlanks (hs.of_memo rfl hfit.2)
    | failure fs =>
      obtain ⟨es, he⟩ := answer_known_failure (n := n) hk
      rw [he]
      exact ⟨hs.of_memo rfl hs.cursor, rfl, fs, hfit, rfl⟩
  · rw [answer_refused hk hl]
    exact ⟨hs.of_memo rfl hs.cursor, (Advances.refl hs.cursor).failed rfl rfl _⟩
  · rw [answer_unknown hk hl]
    obtain ⟨d, es, he⟩ := s.opened_eq key
    rw [he]
    -- work begins on an empty stack; settling puts what it left on top of the old one
    have h := hp { s with failures := #[], depth := d, events := es } (hs.of_memo rfl hs.cursor)
    cases hr : produce env n key { s with failures := #[], depth := d, events := es } with
    | error e t => rw [hr] at h; exact h
    | ok o t =>
      rw [hr] at h
      obtain ⟨ht, hland⟩ := h
      have hsettled : Sane env (t.settle env key s.cursor s.failures o) :=
        ht.settle hland rfl key s.failures
      obtain ⟨d', es', he'⟩ := (t.settle env key s.cursor s.failures o).closed_eq s.cursor o key
      dsimp only
      rw [he']
      refine Lands.skippingBlanks (hsettled.of_memo rfl hsettled.cursor) ?_
      rw [State.settle_eq]
      cases o with
      | matched stop v => exact ⟨hland.1, hland.2.1, hland.2.2.1, rfl⟩
      | failed =>
        obtain ⟨hc, fs, hb, hfs⟩ := hland
        refine ⟨hc, fs, hb, ?_⟩
        rw [Array.empty_append] at hfs
        rw [← hfs]
        rfl

theorem orderly_builtin (c : CharClass) : (Matcher.builtin env c).Orderly env total :=
  @orderly_answer_of_produce env total 0 (.builtin c) (Matcher.orderly_scan _ _)

/-- A body begins no further back than its rule, and inside the text. -/
theorem entering_bounds (hs : s.cursor ≤ env.length) (r : RuleId) :
    s.cursor ≤ (s.entering env r).cursor ∧ (s.entering env r).cursor ≤ env.length :=
  State.skipBlanks_bounds (s := { s with skipping := s.grammar.skipsBlanks r }) hs

theorem Sane.entering (hs : Sane env s) (r : RuleId) : Sane env (s.entering env r) :=
  hs.of_memo (State.Works.skipBlanks env _).memo (entering_bounds hs.cursor r).2

/-- A rule lands where its body does, and if it fails where it began. -/
theorem Lands.leaving (hs : s.cursor ≤ env.length) {r : RuleId}
    (hc : t.cursor = (s.entering env r).cursor) (hf : t.failures = s.failures)
    {o : Outcome Value} (h : Lands env t o u) :
    Lands env s o (s.leaving env r o u) := by
  obtain ⟨hle, hbound⟩ := entering_bounds hs r
  rw [← hc] at hle hbound
  cases o with
  | matched stop v =>
    obtain ⟨hstop, h1, h2, hfs⟩ := h
    exact ⟨hstop, Nat.le_trans hle h1, h2, hfs.trans hf⟩
  | failed =>
    obtain ⟨-, fs, hb, hfs⟩ := h
    have ha : Advances env s { t with failures := s.failures ++ fs } :=
      ⟨hle, hbound, fs, rfl, hb.1.mono hle⟩
    refine ha.failed (moveTo_start hs _) ?_ _
    rw [State.moveTo_failures, hfs, hf]

/-- Leaving a rule keeps the state sane, also where it goes back. -/
theorem Sane.leaving (s : State) (r : RuleId) (o : Outcome Value) (hu : Sane env u) :
    Sane env (s.leaving env r o u) := by
  cases o with
  | matched stop v => exact hu.of_memo rfl hu.cursor
  | failed => exact hu.of_memo rfl (Nat.min_le_right ..)

/-- The dialogue of an expression lands if all answers are orderly. -/
theorem Expr.orderly_run {n : Nat} (h : ∀ key, (answer env n key).Orderly env total) (x : Expr)
    (hs : Sane env s) :
    Packrat.Orderly env total (Lands env s) ((x.dialogue env s).run (answer env n)) := by
  rw [answer, ← Expr.matcher_eq_run]
  exact Expr.orderly (fun r => h (.rule r)) (fun c => h (.builtin c)) x s hs

/-- Work is orderly with any room, though it may be exhausted. -/
theorem orderly_produce (n : Nat) (key : Key) : (produce env n key).Orderly env False := by
  induction n generalizing key with
  | zero =>
    cases key with
    | builtin c => exact Matcher.orderly_scan _ _
    | rule r => exact fun s hs => ⟨hs, False.elim⟩
  | succ n ih =>
    cases key with
    | builtin c => exact Matcher.orderly_scan _ _
    | rule r =>
      intro s hs
      have he := hs.entering r
      have hf : (s.entering env r).failures = s.failures := State.skipBlanks_failures ..
      rw [produce_succ]
      rcases Matcher.body?_cases r (s.entering env r) with
        ⟨-, hb⟩ | ⟨x, t, hb, ⟨-, g, es, rfl⟩, -⟩ | ⟨f, t, hb, ⟨-, g, es, rfl⟩⟩
      · rw [hb]
        refine ⟨Sane.leaving s r .failed (he.of_memo rfl he.cursor), ?_⟩
        exact Lands.leaving hs.cursor rfl hf
          ((Advances.refl he.cursor).failed rfl rfl (.undefined r.label))
      · rw [hb]
        have ht : Sane env { s.entering env r with grammar := g, events := es } :=
          he.of_memo rfl he.cursor
        have h := Expr.orderly_run (fun key => orderly_answer_of_produce (ih key)) x ht
        dsimp only
        cases hr : (x.dialogue env { s.entering env r with grammar := g, events := es }).run
            (answer env n) with
        | error e u => rw [hr] at h; exact h
        | ok o u =>
          rw [hr] at h
          exact ⟨Sane.leaving s r o h.1, h.2.leaving hs.cursor rfl hf⟩
      · rw [hb]
        exact ⟨he.of_memo rfl he.cursor, False.elim⟩

/-- Every answer is orderly, with any room. -/
theorem orderly_answer (n : Nat) (key : Key) : (answer env n key).Orderly env False :=
  orderly_answer_of_produce (orderly_produce n key)

end

end Packrat
