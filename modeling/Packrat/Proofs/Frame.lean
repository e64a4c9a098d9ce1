import Packrat.Proofs.Answer
import Packrat.Proofs.Base
import Packrat.Proofs.Coupling

/-!
# What an evaluation does not look at

An evaluation adds to the failures and the events that it finds, and cuts back only what it has
added itself. So it does the same on top of any other failures and behind any other events, and
these are still there at its end: every matcher is `Local` (`Expr.local_run`). Only an evaluation
that is halted inside a rule has put its failures aside and does not bring them back.

So two evaluations that begin in states with other failures and events come to the same, up to the
failures and events (`ParseM.Local.related`).
-/

namespace Packrat

/-- The state with more failures below its own, and with more events in front of its own. -/
def State.atop (s : State) (below : Array Failure) (before : Array Event) : State :=
  { s with failures := below ++ s.failures, events := before ++ s.events }

/-- The state without failures and events. -/
def State.bare (s : State) : State := { s with failures := #[], events := #[] }

/-- The states differ at most in their failures. -/
def State.Resembles (s t : State) : Prop := ∃ fs, t = { s with failures := fs }

/-- The second result is the first with more failures and events in the state that it leaves. Where
the run is halted any failures may be left. -/
inductive Result.Atop {α : Type} (below : Array Failure) (before : Array Event) :
    Result α → Result α → Prop where
  | ok (a : α) (s : State) : Atop below before (.ok a s) (.ok a (s.atop below before))
  | error (h : Halt) (s : State) (failures : Array Failure) :
      Atop below before (.error h s) (.error h ({ s with failures }.atop #[] before))

/-- An action that does the same on top of other failures and behind other events. -/
def ParseM.Local {α : Type} (m : ParseM α) : Prop :=
  ∀ s below before, Result.Atop below before (m s) (m (s.atop below before))

section

variable {α : Type} {env : Env} {s t : State} {below : Array Failure} {before : Array Event}

/-! ## Operations on states -/

namespace State

theorem bare_ext (hg : s.grammar = t.grammar) (hm : s.memo = t.memo) (hc : s.cursor = t.cursor)
    (hk : s.skipping = t.skipping) (hd : s.depth = t.depth) (ho : s.overflowed = t.overflowed) :
    s.bare = t.bare := by
  rw [bare, bare, hg, hm, hc, hk, hd, ho]

/-- Every state is a bare one on top of its own failures and events. -/
theorem bare_atop (s : State) : s.bare.atop s.failures s.events = s := by
  simp [bare, atop]

/-- A failure is put on top of those below. -/
theorem atop_record (s : State) (below : Array Failure) (before : Array Event) (cause : Cause) :
    (s.atop below before).record cause = (s.record cause).atop below before := by
  simp [atop, record]

theorem atop_emit (s : State) (below : Array Failure) (before : Array Event) (e : Event) :
    (s.atop below before).emit e = (s.emit e).atop below before := by
  simp [atop, emit]

theorem atop_note {β : Type} (s : State) (below : Array Failure) (before : Array Event)
    (journal : Option String) (text : β → String) (a : β) :
    (s.atop below before).note journal text a = (s.note journal text a).atop below before := by
  cases journal with
  | none => rfl
  | some journal => exact s.atop_emit below before _

theorem atop_moveTo (s : State) (below : Array Failure) (before : Array Event) (env : Env)
    (p : Nat) : (s.atop below before).moveTo env p = (s.moveTo env p).atop below before := rfl

theorem atop_skipBlanks (s : State) (below : Array Failure) (before : Array Event) (env : Env) :
    (s.atop below before).skipBlanks env = (s.skipBlanks env).atop below before := by
  unfold skipBlanks
  rw [show (s.atop below before).skipping = s.skipping from rfl]
  split <;> rfl

/-- Each side cuts back to the height at which it began. -/
theorem atop_cutBack (s t : State) (below : Array Failure) (before : Array Event) :
    (t.atop below before).cutBack (s.atop below before).failures.size =
      (t.cutBack s.failures.size).atop below before := by
  have hbelow : below.extract 0 (below.size + s.failures.size) = below :=
    Array.extract_eq_self_of_le (by omega)
  simp [atop, cutBack, Array.extract_append, hbelow]

theorem atop_recalled (s : State) (below : Array Failure) (before : Array Event) (p : Nat)
    (o : Outcome Value) (key : Key) :
    (s.atop below before).recalled p o key = (s.recalled p o key).atop below before := by
  cases key with
  | builtin c => rfl
  | rule r => exact s.atop_emit below before _

/-- The work behind a key begins without failures, also without those below. -/
theorem atop_opened (s : State) (below : Array Failure) (before : Array Event) (key : Key) :
    (s.atop below before).opened key = (s.opened key).atop #[] before := by
  cases key <;> simp [atop, opened, emit]

theorem atop_closed (s : State) (below : Array Failure) (before : Array Event) (p : Nat)
    (o : Outcome Value) (key : Key) :
    (s.atop below before).closed p o key = (s.closed p o key).atop below before := by
  cases key with
  | builtin c => rfl
  | rule r => exact State.atop_emit { s with depth := s.depth - 1 } below before _

theorem atop_entering (s : State) (below : Array Failure) (before : Array Event) (env : Env)
    (r : RuleId) : (s.atop below before).entering env r = (s.entering env r).atop below before :=
  State.atop_skipBlanks { s with skipping := s.grammar.skipsBlanks r } below before env

theorem atop_leaving (s t : State) (below : Array Failure) (before : Array Event) (env : Env)
    (r : RuleId) (o : Outcome Value) : (s.atop below before).leaving env r o (t.atop below before) =
      (s.leaving env r o t).atop below before := by
  cases o with
  | matched stop v => rfl
  | failed =>
    exact State.atop_record ({ t with skipping := s.skipping }.moveTo env s.cursor) below before _

/-- Settling puts aside the failures that were found and brings them back, whatever they are. -/
theorem atop_settle (t : State) (below : Array Failure) (before : Array Event) (env : Env)
    (key : Key) (p : Nat) (outer : Array Failure) (o : Outcome Value) :
    (t.atop #[] before).settle env key p (below ++ outer) o =
      (t.settle env key p outer o).atop below before := by
  rw [settle_eq, settle_eq]
  cases o with
  | matched stop v => simp [atop, Outcome.isMatched]
  | failed => simp [atop, Outcome.isMatched]

end State

/-! ## Matchers -/

namespace ParseM.Local

open Matcher

variable {m : Matcher}

/-- A local action comes to its end on both sides, or is halted on both. -/
theorem run_cases {m : ParseM α} (hm : Local m) (s : State) (below : Array Failure)
    (before : Array Event) :
    (∃ a t, m s = .ok a t ∧ m (s.atop below before) = .ok a (t.atop below before)) ∨
      ∃ h t fs, m s = .error h t ∧
        m (s.atop below before) = .error h ({ t with failures := fs }.atop #[] before) := by
  have h := hm s below before
  generalize m s = r at h ⊢
  generalize m (s.atop below before) = r' at h ⊢
  cases h with
  | ok a t => exact .inl ⟨a, t, rfl, rfl⟩
  | error e t fs => exact .inr ⟨e, t, fs, rfl, rfl⟩

theorem throw (h : Halt) : Local (MonadExcept.throw h : ParseM α) := by
  intro s below before
  have hstay :
      s.atop below before = { s with failures := below ++ s.failures }.atop #[] before := by
    simp [State.atop]
  rw [run_throw, run_throw, hstay]
  exact .error h s _

theorem bind {β : Type} {m : ParseM α} {f : α → ParseM β} (hm : Local m)
    (hf : ∀ a, Local (f a)) : Local (m >>= f) := by
  intro s below before
  rw [run_bind, run_bind]
  rcases hm.run_cases s below before with ⟨a, t, hs, ho⟩ | ⟨h, t, fs, hs, ho⟩
  · rw [hs, ho]
    exact hf a t below before
  · rw [hs, ho]
    exact .error h t fs

theorem fail (cause : Cause) : Local (Matcher.fail cause) := by
  intro s below before
  rw [run_fail, run_fail, s.atop_record]
  exact .ok _ _

theorem succeed (v : Value) : Local (Matcher.succeed v) :=
  fun s _ _ => .ok (Outcome.matched s.cursor v) s

theorem skippingBlanks (env : Env) (o : Outcome Value) : Local (Matcher.skippingBlanks env o) := by
  intro s below before
  cases o with
  | failed => exact .ok _ s
  | matched stop v =>
    rw [run_skippingBlanks_matched, run_skippingBlanks_matched, s.atop_skipBlanks]
    exact .ok _ _

theorem replay (entry : Entry) : Local (Matcher.replay entry) := by
  intro s below before
  cases entry with
  | success stop v => exact .ok _ { s with cursor := stop }
  | failure fs =>
    have hadd : { s.atop below before with failures := (s.atop below before).failures ++ fs } =
        { s with failures := s.failures ++ fs }.atop below before := by
      simp [State.atop]
    rw [run_replay_failure, run_replay_failure, hadd]
    exact .ok _ _

/-! ### Terminals -/

theorem scan (env : Env) (label : String) (test : Hook Char Bool) :
    Local (Matcher.scan env label test) := by
  intro s below before
  rw [run_scan, run_scan, show (s.atop below before).cursor = s.cursor from rfl]
  cases env.text[s.cursor]? with
  | none =>
    dsimp only
    rw [s.atop_record]
    exact .ok _ _
  | some c =>
    dsimp only
    rw [s.atop_note]
    split
    · exact .ok _ ((s.note test.journal Char.toString c).advance env 1)
    · rw [State.atop_record]
      exact .ok _ _

theorem char (env : Env) (test : Hook Char Bool) : Local (Matcher.char env test) :=
  (scan env "Character" test).bind (skippingBlanks env)

theorem literal (env : Env) (length : Nat) (test : Hook String Bool) :
    Local (Matcher.literal env length test) := by
  intro s below before
  rw [run_literal, run_literal, show (s.atop below before).cursor = s.cursor from rfl]
  cases env.slice? s.cursor length with
  | none =>
    dsimp only
    rw [s.atop_record]
    exact .ok _ _
  | some text =>
    dsimp only
    rw [s.atop_note]
    split
    · exact skippingBlanks env (.matched 0 (.str text))
        ((s.note test.journal id text).advance env length) below before
    · rw [State.atop_record]
      exact .ok _ _

/-! ### Composites -/

theorem optional (hm : Local m) : Local (Matcher.optional m) := by
  intro s below before
  rw [run_optional, run_optional]
  rcases hm.run_cases s below before with ⟨o, t, hs, ho⟩ | ⟨h, t, fs, hs, ho⟩
  · rw [hs, ho]
    cases o <;> dsimp only <;> rw [s.atop_cutBack t] <;> exact .ok _ _
  · rw [hs, ho]
    exact .error h t fs

theorem collect (count : Count) (hm : Local m) (budget : Nat) (items : Array Value) :
    Local (Matcher.collect count m budget items) := by
  induction budget generalizing items with
  | zero => exact throw _
  | succ budget ih =>
    intro s below before
    rw [run_collect_succ, run_collect_succ]
    split
    · exact .ok items s
    · rcases hm.run_cases s below before with ⟨o, t, hs, ho⟩ | ⟨h, t, fs, hs, ho⟩
      · rw [hs, ho, show (s.atop below before).cursor = s.cursor from rfl]
        cases o with
        | failed => exact .ok items t
        | matched stop v =>
          dsimp only
          split
          · exact .ok _ t
          · exact ih (items.push v) t below before
      · rw [hs, ho]
        exact .error h t fs

/-- Both sides give up where they began. -/
theorem giveUp {α : Type} (a : α) (env : Env) (p : Nat) (cause : Cause) (t : State)
    (below : Array Failure) (before : Array Event) :
    Result.Atop below before (.ok a ((t.moveTo env p).record cause))
      (.ok a (((t.atop below before).moveTo env p).record cause)) := by
  rw [t.atop_moveTo, State.atop_record]
  exact .ok _ _

theorem repeated (env : Env) (label : String) (count : Count) (hm : Local m) :
    Local (Matcher.repeated env label count m) := by
  intro s below before
  rw [run_repeated, run_repeated, show (s.atop below before).cursor = s.cursor from rfl]
  rcases (collect count hm (count.least + (env.length - s.cursor) + 1) #[]).run_cases s below
    before with ⟨items, t, hs, ho⟩ | ⟨h, t, fs, hs, ho⟩
  · rw [hs, ho]
    dsimp only
    split
    · rw [s.atop_cutBack t]
      exact .ok _ _
    · exact giveUp _ env s.cursor _ t below before
  · rw [hs, ho]
    exact .error h t fs

theorem lookahead (env : Env) (label : String) (negated : Bool) (hm : Local m) :
    Local (Matcher.lookahead env label negated m) := by
  intro s below before
  rw [run_lookahead, run_lookahead]
  rcases hm.run_cases s below before with ⟨o, t, hs, ho⟩ | ⟨h, t, fs, hs, ho⟩
  · rw [hs, ho]
    dsimp only
    split
    · exact giveUp _ env s.cursor _ t below before
    · rw [show (s.atop below before).cursor = s.cursor from rfl, t.atop_moveTo, s.atop_cutBack]
      exact .ok _ _
  · rw [hs, ho]
    exact .error h t fs

theorem runSteps {steps : List (Step Matcher)} (hm : ∀ step ∈ steps, Local step.body) :
    Local (Matcher.runSteps steps) := by
  induction steps with
  | nil => exact fun s _ _ => .ok (some []) s
  | cons step rest ih =>
    have hrest := ih fun step hstep => hm step (List.mem_cons_of_mem _ hstep)
    intro s below before
    rw [run_runSteps_cons, run_runSteps_cons]
    rcases (hm step List.mem_cons_self).run_cases s below before with
      ⟨o, t, hs, ho⟩ | ⟨h, t, fs, hs, ho⟩
    · rw [hs, ho]
      cases o with
      | failed => exact .ok none t
      | matched stop v =>
        dsimp only
        rcases hrest.run_cases t below before with ⟨slots, u, ht, ho'⟩ | ⟨h, u, fs, ht, ho'⟩
        · rw [ht, ho']
          cases slots <;> exact .ok _ u
        · rw [ht, ho']
          exact .error h u fs
    · rw [hs, ho]
      exact .error h t fs

/-- A sequence that matches cuts back what its steps have added, and one that fails adds to it. -/
theorem sequence (env : Env) (label : String) {steps : List (Step Matcher)}
    (build : Hook Slots (Except Fault Value)) (hm : ∀ step ∈ steps, Local step.body) :
    Local (Matcher.sequence env label steps build) := by
  intro s below before
  rw [run_sequence, run_sequence]
  rcases (runSteps hm).run_cases s below before with ⟨slots, t, hs, ho⟩ | ⟨h, t, fs, hs, ho⟩
  · rw [hs, ho]
    cases slots with
    | none => exact giveUp _ env s.cursor _ t below before
    | some slots =>
      dsimp only
      rw [s.atop_cutBack t, State.atop_note]
      cases build.apply slots with
      | ok v => exact .ok _ _
      | error f => exact throw (.fault f) _ below before
  · rw [hs, ho]
    exact .error h t fs

theorem firstOf (env : Env) (start : Nat) {ms : List Matcher} (hm : ∀ m ∈ ms, Local m) :
    Local (Matcher.firstOf env start ms) := by
  induction ms with
  | nil => exact fun s _ _ => .ok Outcome.failed s
  | cons m rest ih =>
    have hrest := ih fun m hmem => hm m (List.mem_cons_of_mem _ hmem)
    intro s below before
    rw [run_firstOf_cons, run_firstOf_cons]
    rcases (hm m List.mem_cons_self).run_cases s below before with
      ⟨o, t, hs, ho⟩ | ⟨h, t, fs, hs, ho⟩
    · rw [hs, ho]
      cases o with
      | matched stop v => exact .ok _ t
      | failed => exact hrest (t.moveTo env start) below before
    · rw [hs, ho]
      exact .error h t fs

theorem choice (env : Env) (label : String) {ms : List Matcher} (hm : ∀ m ∈ ms, Local m) :
    Local (Matcher.choice env label ms) := by
  intro s below before
  rw [run_choice, run_choice, show (s.atop below before).cursor = s.cursor from rfl]
  rcases (firstOf env s.cursor hm).run_cases s below before with
    ⟨o, t, hs, ho⟩ | ⟨h, t, fs, hs, ho⟩
  · rw [hs, ho]
    cases o with
    | matched stop v =>
      dsimp only
      rw [s.atop_cutBack t]
      exact .ok _ _
    | failed =>
      dsimp only
      rw [t.atop_record]
      exact .ok _ _
  · rw [hs, ho]
    exact .error h t fs

theorem map (f : Hook Value Value) (hm : Local m) : Local (Matcher.map f m) := by
  intro s below before
  rw [run_map, run_map]
  rcases hm.run_cases s below before with ⟨o, t, hs, ho⟩ | ⟨h, t, fs, hs, ho⟩
  · rw [hs, ho]
    cases o with
    | failed => exact .ok _ t
    | matched stop v =>
      dsimp only
      rw [t.atop_note]
      exact .ok _ _
  · rw [hs, ho]
    exact .error h t fs

/-! ### Rules -/

theorem body? (r : RuleId) : Local (Matcher.body? r) := by
  intro s below before
  cases hb : s.grammar.body r with
  | undefined =>
    have hb' : (s.atop below before).grammar.body r = .undefined := hb
    rw [run_body?_undefined hb, run_body?_undefined hb']
    exact .ok none s
  | defined x =>
    have hb' : (s.atop below before).grammar.body r = .defined x := hb
    rw [run_body?_defined hb, run_body?_defined hb']
    exact .ok (some x) s
  | delayed build =>
    have hb' : (s.atop below before).grammar.body r = .delayed build := hb
    rw [run_body?_delayed hb, run_body?_delayed hb', s.atop_note]
    dsimp only
    rw [show (s.atop below before).grammar = s.grammar from rfl]
    cases (Matcher.built s.grammar r build).1 with
    | ok x => exact .ok _ _
    | error f => exact throw (.fault f) _ below before

/-- The work behind a rule is local if its body is. -/
theorem produce_succ {n : Nat} (hrun : ∀ x : Expr, Local (x.matcher env (callRule env n)))
    (r : RuleId) : Local (produce env (n + 1) (.rule r)) := by
  intro s below before
  rw [Packrat.produce_succ, Packrat.produce_succ, s.atop_entering]
  rcases (body? r).run_cases (s.entering env r) below before with
    ⟨x, t, hs, ho⟩ | ⟨h, t, fs, hs, ho⟩
  · rw [hs, ho]
    cases x with
    | none =>
      dsimp only
      rw [t.atop_record, s.atop_leaving]
      exact .ok _ _
    | some x =>
      dsimp only
      rw [answer, ← x.matcher_eq_run, ← x.matcher_eq_run]
      rcases (hrun x).run_cases t below before with ⟨o, u, ht, ho⟩ | ⟨h, u, fs, ht, ho⟩
      · rw [ht, ho]
        dsimp only
        rw [s.atop_leaving]
        exact .ok _ _
      · rw [ht, ho]
        exact .error h u fs
  · rw [hs, ho]
    exact .error h t fs

/-- An answer is local if the work behind it is. -/
theorem answer {n : Nat} {key : Key} (hp : Local (produce env n key)) :
    Local (answer env n key) := by
  intro s below before
  rcases answer_cases env key s with ⟨entry, hk⟩ | ⟨r, rfl, hk, hl⟩ | ⟨hk, hl⟩
  · have hk' : (s.atop below before).known? env key = some entry := hk
    rw [answer_known hk, answer_known hk']
    rcases (replay entry).run_cases s below before with ⟨o, t, hs, ho⟩ | ⟨h, t, fs, hs, ho⟩
    · rw [hs, ho]
      dsimp only
      rw [t.atop_recalled]
      exact skippingBlanks env o _ below before
    · rw [hs, ho]
      exact .error h t fs
  · have hk' : (s.atop below before).known? env (.rule r) = none := hk
    rw [answer_refused hk hl, answer_refused hk' hl]
    change Result.Atop below before _ (.ok Outcome.failed ((({ s with overflowed := true }.atop
      below before).emit (.limitReached r s.cursor)).record (.tooDeep r.label)))
    rw [State.atop_emit, State.atop_record]
    exact .ok _ _
  · have hk' : (s.atop below before).known? env key = none := hk
    have hl' : key.refused env (s.atop below before) = false := by
      cases key <;> exact hl
    rw [answer_unknown hk hl, answer_unknown hk' hl', s.atop_opened]
    rcases hp.run_cases (s.opened key) #[] before with ⟨o, t, hs, ho⟩ | ⟨h, t, fs, hs, ho⟩
    · have hsettle := t.atop_settle below before env key s.cursor s.failures o
      rw [hs, ho]
      change Result.Atop below before _ (Matcher.skippingBlanks env o (State.closed
        ((t.atop #[] before).settle env key s.cursor (below ++ s.failures) o) s.cursor o key))
      rw [hsettle, State.atop_closed]
      exact skippingBlanks env o _ below before
    · rw [hs, ho]
      exact .error h t fs

end ParseM.Local

/-! ## Expressions -/

namespace Expr

open ParseM (Local)

variable {call : RuleId → Matcher}

mutual

/-- Every expression is local if the rules in it are. -/
theorem local_matcher (env : Env) (hcall : ∀ r, Local (call r)) (x : Expr) :
    Local (x.matcher env call) := by
  cases x with
  | builtin c =>
    have hanswer : Local (answer env 0 (.builtin c)) := .answer (.scan env _ _)
    exact hanswer
  | char test => exact .char env test
  | literal length test => exact .literal env length test
  | empty => exact .succeed _
  | fail message => exact .fail _
  | position => exact fun s _ _ => .ok (Outcome.matched s.cursor (Value.int s.cursor)) s
  | rule r => exact hcall r
  | optionalAs label x => exact .optional (local_matcher env hcall x)
  | repeatedAs label x count => exact .repeated env label count (local_matcher env hcall x)
  | lookaheadAs label negated x => exact .lookahead env label negated (local_matcher env hcall x)
  | sequenceAs label type steps build =>
    exact .sequence env label build (local_stepMatchers env hcall steps)
  | choiceAs label xs => exact .choice env label (local_matchers env hcall xs)
  | map type f x => exact .map f (local_matcher env hcall x)

theorem local_stepMatchers (env : Env) (hcall : ∀ r, Local (call r)) (steps : List (Step Expr)) :
    ∀ step ∈ stepMatchers env call steps, Local step.body := by
  cases steps with
  | nil => exact fun _ h => nomatch h
  | cons step rest =>
    obtain ⟨x, store⟩ := step
    rw [stepMatchers]
    intro step hstep
    rcases List.mem_cons.mp hstep with rfl | hstep
    · exact local_matcher env hcall x
    · exact local_stepMatchers env hcall rest step hstep

theorem local_matchers (env : Env) (hcall : ∀ r, Local (call r)) (xs : List Expr) :
    ∀ m ∈ matchers env call xs, Local m := by
  cases xs with
  | nil => exact fun _ h => nomatch h
  | cons x rest =>
    rw [matchers]
    intro m hm
    rcases List.mem_cons.mp hm with rfl | hm
    · exact local_matcher env hcall x
    · exact local_matchers env hcall rest m hm

end

/-- Every rule is local, with any room. -/
theorem local_callRule (env : Env) (n : Nat) (r : RuleId) : Local (callRule env n r) := by
  induction n generalizing r with
  | zero =>
    have hanswer : Local (answer env 0 (.rule r)) := .answer (.throw .exhausted)
    exact hanswer
  | succ n ih =>
    have hanswer : Local (answer env (n + 1) (.rule r)) :=
      .answer (.produce_succ (local_matcher env ih) r)
    exact hanswer

/-- The matcher of an expression is local, with any room. -/
theorem local_run (env : Env) (n : Nat) (x : Expr) : Local (x.matcher env (callRule env n)) :=
  local_matcher env (local_callRule env n) x

end Expr

/-! ## Two evaluations -/

namespace ParseM.Local

variable {m : ParseM α} {a : α} {h : Halt}

/-- Whatever failures an action begins with, it adds the same ones, or is halted in the same way. -/
theorem withFailures_cases (hm : Local m) (s : State) :
    (∃ (a : α) (t : State), ∀ below, m { s with failures := below } =
        .ok a { t with failures := below ++ t.failures }) ∨
      ∃ (h : Halt) (t : State), ∀ below, ∃ fs,
        m { s with failures := below } = .error h { t with failures := fs } := by
  have hatop : ∀ below, s.bare.atop below s.events = { s with failures := below } := by
    simp [State.bare, State.atop]
  have hrun := fun below => hm s.bare below s.events
  simp only [hatop] at hrun
  generalize m s.bare = r at hrun
  cases r with
  | ok a t =>
    refine .inl ⟨a, { t with events := s.events ++ t.events }, fun below => ?_⟩
    have hb := hrun below
    generalize m { s with failures := below } = r' at hb ⊢
    cases hb
    rfl
  | error h t =>
    refine .inr ⟨h, { t with events := s.events ++ t.events }, fun below => ?_⟩
    have hb := hrun below
    generalize m { s with failures := below } = r' at hb ⊢
    cases hb with
    | error h t fs => exact ⟨#[] ++ fs, rfl⟩

/-- With other failures to begin with, an action comes to the same end and adds the same ones. -/
theorem ok_withFailures (hm : Local m) (hr : m s = .ok a t) :
    ∃ fs, t.failures = s.failures ++ fs ∧
      ∀ below, m { s with failures := below } = .ok a { t with failures := below ++ fs } := by
  rcases hm.withFailures_cases s with ⟨b, u, hrun⟩ | ⟨e, u, hrun⟩
  · have hu : m s = _ := hrun s.failures
    rw [hr] at hu
    cases hu
    exact ⟨u.failures, rfl, hrun⟩
  · obtain ⟨fs, hu⟩ := hrun s.failures
    rw [show m s = _ from hu] at hr
    cases hr

/-- With other failures to begin with, an action is halted in the same way. -/
theorem error_withFailures (hm : Local m) (hr : m s = .error h t) (below : Array Failure) :
    ∃ fs, m { s with failures := below } = .error h { t with failures := fs } := by
  rcases hm.withFailures_cases s with ⟨b, u, hrun⟩ | ⟨e, u, hrun⟩
  · rw [show m s = _ from hrun s.failures] at hr
    cases hr
  · obtain ⟨fs, hu⟩ := hrun s.failures
    rw [show m s = _ from hu] at hr
    cases hr
    exact hrun below

/-- Actions that begin in states with the same bare state come to the same, and their ends have the
same bare state again. -/
theorem related (hm : Local m) (hst : s.bare = t.bare) :
    Result.Related Eq (fun u w => u.bare = w.bare) (m s) (m t) := by
  have hs := hm s.bare s.failures s.events
  have ht := hm t.bare t.failures t.events
  rw [s.bare_atop] at hs
  rw [t.bare_atop, ← hst] at ht
  generalize m s = r at hs ⊢
  generalize m t = r' at ht ⊢
  generalize m s.bare = r₀ at hs ht
  cases hs with
  | ok a u =>
    cases ht
    exact .ok rfl rfl
  | error e u fs =>
    cases ht
    exact .error e rfl

end ParseM.Local

end

end Packrat
