import Packrat.Proofs.Dialogue
import Packrat.Proofs.Growth

/-!
# Answers

What a rule or a built-in class does when an evaluation asks for it. Both go the same way: a
remembered outcome is repeated, a rule too many is refused, and otherwise the outcome is worked out
(`produce`) and remembered. `answer_known`, `answer_refused` and `answer_unknown` are these three
ways, and `produce_succ` is the work behind a rule, its body being carried out as a dialogue.
`produce_rule_cases` is all that this work can have done when it comes to an outcome.

The number `n` of rules that may be open only decides whether a run is exhausted: a run that is not
goes the same way with more room (`answer_mono`).
-/

namespace Packrat

/-- The answers with room for `n` open rules. -/
def answer (env : Env) (n : Nat) : Key → Matcher := answers env (callRule env n)

/-- The work behind an answer, if it is not remembered. -/
def produce (env : Env) : Nat → Key → Matcher
  | _, .builtin c => .scan env c.label { apply := c.holds }
  | 0, .rule _ => throw .exhausted
  | n + 1, .rule r => .enterBody env (Expr.matcher env (callRule env n)) r

/-- Whether a key is refused because too many rules are open. -/
def Key.refused (env : Env) (s : State) : Key → Bool
  | .builtin _ => false
  | .rule _ => s.atLimit env

namespace State

/-- The state after a remembered outcome was used. -/
def recalled (s : State) (start : Nat) (o : Outcome Value) : Key → State
  | .builtin _ => s
  | .rule r => s.emit (if o.isMatched then .cachedMatch r start else .cachedFail r start)

/-- The state in which the work behind a key begins, with no failures yet. -/
def opened (s : State) : Key → State
  | .builtin _ => { s with failures := #[] }
  | .rule r => { { s with depth := s.depth + 1 }.emit (.attempt r s.cursor) with failures := #[] }

/-- The state after the work behind a key has ended. -/
def closed (s : State) (start : Nat) (o : Outcome Value) : Key → State
  | .builtin _ => s
  | .rule r => { s with depth := s.depth - 1 }.emit <|
    match o with
    | .matched stop _ => .matched r start stop
    | .failed => .failed r start

/-- The state in which the body of a rule begins. -/
def entering (s : State) (env : Env) (r : RuleId) : State :=
  { s with skipping := s.grammar.skipsBlanks r }.skipBlanks env

/-- The state after the body of a rule that was entered in `s` has ended in `t`. -/
def leaving (s : State) (env : Env) (r : RuleId) (o : Outcome Value) (t : State) : State :=
  match o with
  | .matched _ _ => { t with skipping := s.skipping }
  | .failed => ({ t with skipping := s.skipping }.moveTo env s.cursor).record (.wrong r.label)

/-- When a remembered outcome is used, only the events change. -/
theorem recalled_eq (s : State) (start : Nat) (o : Outcome Value) (key : Key) :
    ∃ es, s.recalled start o key = { s with events := es } := by
  cases key <;> exact ⟨_, rfl⟩

theorem recalled_grammar (s : State) (start : Nat) (o : Outcome Value) (key : Key) :
    (s.recalled start o key).grammar = s.grammar := by
  cases key <;> rfl

/-- Work begins on an empty stack of failures; otherwise only the depth and the events change. -/
theorem opened_eq (s : State) (key : Key) :
    ∃ d es, s.opened key = { s with failures := #[], depth := d, events := es } := by
  cases key <;> exact ⟨_, _, rfl⟩

theorem opened_failures (s : State) (key : Key) : (s.opened key).failures = #[] := by
  cases key <;> rfl

theorem opened_cursor (s : State) (key : Key) : (s.opened key).cursor = s.cursor := by
  cases key <;> rfl

theorem opened_grammar (s : State) (key : Key) : (s.opened key).grammar = s.grammar := by
  cases key <;> rfl

/-- To begin work makes nothing known and forgets nothing. -/
theorem opened_known? (s : State) (env : Env) (key key' : Key) :
    (s.opened key).known? env key' = s.known? env key' := by
  cases key <;> rfl

theorem opened_skipping (s : State) (key : Key) : (s.opened key).skipping = s.skipping := by
  cases key <;> rfl

/-- When work ends, only the depth and the events change. -/
theorem closed_eq (s : State) (start : Nat) (o : Outcome Value) (key : Key) :
    ∃ d es, s.closed start o key = { s with depth := d, events := es } := by
  cases key <;> exact ⟨_, _, rfl⟩

theorem closed_grammar (s : State) (start : Nat) (o : Outcome Value) (key : Key) :
    (s.closed start o key).grammar = s.grammar := by
  cases key <;> rfl

theorem leaving_grammar (s : State) (env : Env) (r : RuleId) (o : Outcome Value) (t : State) :
    (s.leaving env r o t).grammar = t.grammar := by
  cases o <;> rfl

theorem leaving_skipping (s : State) (env : Env) (r : RuleId) (o : Outcome Value) (t : State) :
    (s.leaving env r o t).skipping = s.skipping := by
  cases o <;> rfl

end State

/-! ## The three ways to an answer -/

section Answer

variable {env : Env} {n : Nat} {key : Key} {s : State}

/-- A rule is looked up or refused, or `produce` works on it. -/
theorem callRule_eq (env : Env) (n : Nat) (r : RuleId) :
    callRule env n r = .rule env (produce env n (.rule r)) r := by
  cases n <;> rfl

/-- What is known is used again, in the mode of the caller, and that is noted. -/
theorem answer_known {entry : Entry} (h : s.known? env key = some entry) :
    answer env n key s = match Matcher.replay entry s with
      | .ok o t => Matcher.skippingBlanks env o (t.recalled s.cursor o key)
      | .error h t => .error h t := by
  cases key with
  | builtin c =>
    rw [answer, answers, Matcher.run_builtin_known env c s h]
    cases Matcher.replay entry s <;> rfl
  | rule r =>
    rw [answer, answers, callRule_eq, Matcher.run_rule_known env _ r s h]
    cases Matcher.replay entry s <;> rfl

/-- A remembered match puts the cursor at its end, and the blanks behind it are skipped. -/
theorem answer_known_success {stop : Nat} {v : Value}
    (h : s.known? env key = some (.success stop v)) :
    ∃ es, answer env n key s =
      Matcher.skippingBlanks env (.matched stop v) { s with cursor := stop, events := es } := by
  rw [answer_known h, Matcher.run_replay_success]
  cases key <;> exact ⟨_, rfl⟩

/-- A remembered failure brings its failures along. -/
theorem answer_known_failure {fs : Array Failure} (h : s.known? env key = some (.failure fs)) :
    ∃ es, answer env n key s =
      .ok .failed { s with failures := s.failures ++ fs, events := es } := by
  rw [answer_known h, Matcher.run_replay_failure]
  cases key <;> exact ⟨_, rfl⟩

/-- A rule that is refused fails at the cursor, and the limit has been hit. -/
theorem answer_refused {r : RuleId} (h : s.known? env (.rule r) = none)
    (hl : s.atLimit env = true) :
    answer env n (.rule r) s = .ok .failed
      (({ s with overflowed := true }.emit (.limitReached r s.cursor)).record
        (.tooDeep r.label)) := by
  rw [answer, answers, callRule_eq, Matcher.run_rule_atLimit env _ r s h hl]

/-- Otherwise `produce` works on the question, and what it comes to is settled. -/
theorem answer_unknown (h : s.known? env key = none) (hl : key.refused env s = false) :
    answer env n key s = match produce env n key (s.opened key) with
      | .ok o t => Matcher.skippingBlanks env o
        ((t.settle env key s.cursor s.failures o).closed s.cursor o key)
      | .error h t => .error h t := by
  cases key with
  | builtin c =>
    rw [answer, answers, Matcher.run_builtin_unknown env c s h, Matcher.run_remembering]
    rw [produce, State.opened]
    cases Matcher.scan env c.label { apply := c.holds } { s with failures := #[] } <;> rfl
  | rule r =>
    rw [answer, answers, callRule_eq, Matcher.run_rule_enter env _ r s h hl,
      Matcher.run_remembering]
    rw [State.opened]
    cases produce env n (.rule r)
      { { s with depth := s.depth + 1 }.emit (.attempt r s.cursor) with failures := #[] } <;> rfl

/-- A question is known, refused or worked on. -/
theorem answer_cases (env : Env) (key : Key) (s : State) :
    (∃ entry, s.known? env key = some entry) ∨
    (∃ r, key = .rule r ∧ s.known? env (.rule r) = none ∧ s.atLimit env = true) ∨
    (s.known? env key = none ∧ key.refused env s = false) := by
  cases hk : s.known? env key with
  | some entry => exact Or.inl ⟨entry, rfl⟩
  | none =>
    right
    cases key with
    | builtin c => exact Or.inr ⟨rfl, rfl⟩
    | rule r =>
      cases hl : s.atLimit env with
      | true => exact Or.inl ⟨r, rfl, hk, rfl⟩
      | false => exact Or.inr ⟨rfl, hl⟩

/-- Only the work behind an answer can halt it: neither recalling does nor refusing. -/
theorem answer_error {e : Halt} {t : State} (h : answer env n key s = .error e t) :
    s.known? env key = none ∧ key.refused env s = false ∧
      produce env n key (s.opened key) = .error e t := by
  have hblanks : ∀ o u, Matcher.skippingBlanks env o u ≠ .error e t := by
    intro o u
    cases o <;> exact nofun
  rcases answer_cases env key s with ⟨entry, hk⟩ | ⟨r, rfl, hk, hl⟩ | ⟨hk, hl⟩
  · rw [answer_known hk] at h
    cases entry <;> exact absurd h (hblanks _ _)
  · rw [answer_refused hk hl] at h
    cases h
  · refine ⟨hk, hl, ?_⟩
    rw [answer_unknown hk hl] at h
    cases hr : produce env n key (s.opened key) with
    | ok o u => rw [hr] at h; exact absurd h (hblanks _ _)
    | error e' u => rw [hr] at h; exact h

theorem produce_builtin (env : Env) (n : Nat) (c : CharClass) :
    produce env n (.builtin c) = .scan env c.label { apply := c.holds } := by
  cases n <;> rfl

/-- To work on a rule is to make its body and to evaluate it with room for one open rule less. -/
theorem produce_succ (env : Env) (n : Nat) (r : RuleId) (s : State) :
    produce env (n + 1) (.rule r) s = match Matcher.body? r (s.entering env r) with
      | .error h t => .error h t
      | .ok none t => .ok .failed (s.leaving env r .failed (t.record (.undefined r.label)))
      | .ok (some x) t =>
        match (x.dialogue env t).run (answer env n) with
        | .ok o u => .ok o (s.leaving env r o u)
        | .error h u => .error h u := by
  rw [produce, Matcher.run_enterBody, State.entering]
  cases Matcher.body? r ({ s with skipping := s.grammar.skipsBlanks r }.skipBlanks env) with
  | error h t => rfl
  | ok x t =>
    cases x with
    | none => rfl
    | some x =>
      dsimp only
      rw [Expr.matcher_eq_run]
      change (match (x.dialogue env t).run (answer env n) with
        | .ok (.matched stop v) u => _
        | .ok .failed u => _
        | .error h u => _) = _
      cases (x.dialogue env t).run (answer env n) with
      | error h u => rfl
      | ok o u => cases o <;> rfl

/-- All that the work behind a rule can have done when it comes to an outcome: it has found no body
and failed, or it has evaluated the body. -/
theorem produce_rule_cases {r : RuleId} {o : Outcome Value} {t : State}
    (h : produce env n (.rule r) s = .ok o t) :
    ∃ k, n = k + 1 ∧
      ((s.entering env r).grammar.body r = .undefined ∧
          Matcher.body? r (s.entering env r) = .ok none (s.entering env r) ∧ o = .failed ∧
          t = s.leaving env r .failed ((s.entering env r).record (.undefined r.label)) ∨
        ∃ x u w, Matcher.body? r (s.entering env r) = .ok (some x) u ∧
          (s.entering env r).Rebuilt u ∧ u.grammar.Defines r x ∧
          (x.dialogue env u).run (answer env k) = .ok o w ∧ t = s.leaving env r o w) := by
  cases n with
  | zero => cases h
  | succ k =>
    refine ⟨k, rfl, ?_⟩
    rw [produce_succ] at h
    rcases Matcher.body?_cases r (s.entering env r) with
      ⟨hd, hb⟩ | ⟨x, u, hb, hru, hx⟩ | ⟨f, u, hb, -⟩
    · rw [hb] at h
      cases h
      exact .inl ⟨hd, hb, rfl, rfl⟩
    · rw [hb] at h
      dsimp only at h
      cases hr : (x.dialogue env u).run (answer env k) with
      | error e w => rw [hr] at h; cases h
      | ok o' w =>
        rw [hr] at h
        cases h
        exact .inr ⟨x, u, w, hb, hru, hx, hr, rfl⟩
    · rw [hb] at h
      cases h

end Answer

/-! ## More room -/

/-- `m'` goes the way of `m` wherever `m` is not exhausted. -/
def Refines {α : Type} (m m' : ParseM α) : Prop := ∀ s, ¬ Result.Exhausted (m s) → m' s = m s

/-- Answers that are only less often exhausted change nothing where a dialogue is not exhausted. -/
theorem Dialogue.run_refines {α : Type} {f f' : Key → Matcher}
    (hf : ∀ key, Refines (f key) (f' key)) (d : Dialogue α)
    (h : ¬ Result.Exhausted (d.run f)) : d.run f' = d.run f := by
  induction d with
  | done a s => rfl
  | halt e s => rfl
  | ask key s next ih =>
    rw [run_ask] at h ⊢
    rw [run_ask]
    have hk : ¬ Result.Exhausted (f key s) := by
      intro he
      obtain ⟨t, ht⟩ := he.eq
      exact h (by rw [ht]; trivial)
    rw [hf key s hk]
    cases hr : f key s with
    | ok o t => rw [hr] at h; exact ih o t h
    | error e t => rfl

/-- An answer whose work is not exhausted is the same wherever the work is. -/
theorem answer_congr {env : Env} {n k : Nat} {key : Key}
    (h : Refines (produce env n key) (produce env k key)) :
    Refines (answer env n key) (answer env k key) := by
  intro s hs
  rcases answer_cases env key s with ⟨entry, hk⟩ | ⟨r, rfl, hk, hl⟩ | ⟨hk, hl⟩
  · rw [answer_known hk, answer_known hk]
  · rw [answer_refused hk hl, answer_refused hk hl]
  · rw [answer_unknown hk hl] at hs ⊢
    rw [answer_unknown hk hl]
    rw [h _ fun he => ?_]
    obtain ⟨t, ht⟩ := he.eq
    exact hs (by rw [ht]; trivial)

/-- Room for one more rule changes nothing unless the room was exhausted. -/
theorem produce_refines_succ (env : Env) (n : Nat) (key : Key) :
    Refines (produce env n key) (produce env (n + 1) key) := by
  induction n generalizing key with
  | zero =>
    cases key with
    | builtin c => exact fun _ _ => rfl
    | rule r => exact fun s hs => absurd trivial hs
  | succ n ih =>
    cases key with
    | builtin c => exact fun _ _ => rfl
    | rule r =>
      intro s hs
      rw [produce_succ] at hs
      rw [produce_succ, produce_succ]
      cases hb : Matcher.body? r (s.entering env r) with
      | error e t => rfl
      | ok x t =>
        cases x with
        | none => rfl
        | some x =>
          rw [hb] at hs
          dsimp only at hs ⊢
          rw [Dialogue.run_refines (fun key => answer_congr (ih key)) _ fun he => ?_]
          obtain ⟨u, hu⟩ := he.eq
          exact hs (by rw [hu]; trivial)

/-- More room changes nothing unless the room was exhausted. -/
theorem produce_mono (env : Env) {n k : Nat} (hk : n ≤ k) (key : Key) :
    Refines (produce env n key) (produce env k key) := by
  induction hk with
  | refl => exact fun _ _ => rfl
  | step _ ih =>
    intro s hs
    have he := ih s hs
    rw [← he]
    exact produce_refines_succ env _ key s (by rw [he]; exact hs)

/-- More room does not change an answer. -/
theorem answer_mono (env : Env) {n k : Nat} (hk : n ≤ k) (key : Key) :
    Refines (answer env n key) (answer env k key) :=
  answer_congr (produce_mono env hk key)

/-- A dialogue that is not exhausted comes to the same with more room. -/
theorem Dialogue.run_mono {α : Type} (env : Env) {n k : Nat} (hk : n ≤ k) (d : Dialogue α)
    (h : ¬ Result.Exhausted (d.run (answer env n))) :
    d.run (answer env k) = d.run (answer env n) :=
  d.run_refines (answer_mono env hk) h

end Packrat
