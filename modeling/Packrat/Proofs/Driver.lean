import Packrat.Parse
import Packrat.Proofs.Transparency

/-!
# Parsing a whole text

What comes of a text is decided by the evaluation of the root rule at its start. A match of the
whole text is its value, one that ends early is rejected with one failure, and a rule that fails is
rejected with the failures it left, the last of them its own.
-/

namespace Packrat

theorem message_wrong (r : RuleId) :
    (Cause.wrong r.label).message = "Wrong Symbol(" ++ r.name ++ ")" := by
  have h : "Wrong Symbol(" = "Wrong " ++ "Symbol(" := by simp
  rw [h, String.append_assoc, String.append_assoc]
  rfl

theorem message_tooDeep (r : RuleId) :
    (Cause.tooDeep r.label).message = "Stack overflow in Symbol(" ++ r.name ++ ")" := by
  have h : "Stack overflow in Symbol(" = "Stack overflow in " ++ "Symbol(" := by simp
  rw [h, String.append_assoc, String.append_assoc]
  rfl

section

variable {env : Env} {n : Nat} {r : RuleId} {s t : State}

/-- A rule that fails leaves its own failure as the last one, at its start. -/
theorem leaving_failed (hs : s.cursor ≤ env.length) (u : State) :
    ∃ parts, (s.leaving env r .failed u).failures =
      Array.push parts ⟨s.cursor, .wrong r.label⟩ := by
  refine ⟨u.failures, ?_⟩
  rw [State.leaving, State.record_failures, moveTo_start hs]
  rfl

theorem produce_failed (hs : s.cursor ≤ env.length)
    (h : produce env n (.rule r) s = .ok .failed t) :
    ∃ parts, t.failures = Array.push parts ⟨s.cursor, .wrong r.label⟩ := by
  obtain ⟨k, -, ⟨-, -, -, rfl⟩ | ⟨x, u, w, -, -, -, -, rfl⟩⟩ := produce_rule_cases h
  · exact leaving_failed hs _
  · exact leaving_failed hs w

/-- A rule that fails at the start of a run leaves failures inside the text, and its own is the last
of them, unless no rule may be opened at all. -/
theorem start_failed (g : Grammar)
    (h : answer env n (.rule r) (.start env g) = .ok .failed t) :
    (∀ f ∈ t.failures, f.position ≤ env.length) ∧
      ((∃ parts, t.failures = Array.push parts ⟨0, .wrong r.label⟩) ∨
        (t.failures = #[⟨0, .tooDeep r.label⟩] ∧ env.limit = some 0)) := by
  have hs := sane_start env g
  have hland := orderly_answer n (.rule r) _ hs
  rw [h] at hland
  obtain ⟨-, -, fs, hb, hfs⟩ := hland
  have hfs' : t.failures = fs := by rw [hfs]; exact Array.empty_append
  refine ⟨fun f hf => (hb.1 f (hfs' ▸ hf)).2, ?_⟩
  rcases answer_cases env (.rule r) (.start env g) with ⟨entry, hk⟩ | ⟨r', hr', hk, hl⟩ | ⟨hk, hl⟩
  · exact absurd (State.known?_eq_some.mp hk) (not_recalls_start env g _ _ entry)
  · -- refused: no rule is open yet, so the limit is zero
    cases hr'
    right
    rw [answer_refused hk hl] at h
    cases h
    refine ⟨rfl, ?_⟩
    unfold State.atLimit at hl
    cases hlim : env.limit with
    | none => rw [hlim] at hl; cases hl
    | some limit =>
      rw [hlim] at hl
      have hzero : limit ≤ 0 := of_decide_eq_true hl
      rw [Nat.le_zero.mp hzero]
  · left
    obtain ⟨d, es, ho⟩ := (State.start env g).opened_eq (.rule r)
    rw [answer_unknown hk hl] at h
    cases hr : produce env n (.rule r) ((State.start env g).opened (.rule r)) with
    | error e u => rw [hr] at h; cases h
    | ok o u =>
      rw [hr] at h
      cases o with
      | matched stop v => cases h
      | failed =>
        cases h
        have hc := State.opened_cursor (.start env g) (.rule r)
        obtain ⟨parts, hparts⟩ := produce_failed (by rw [hc]; exact hs.cursor) hr
        refine ⟨parts, ?_⟩
        rw [hc] at hparts
        have hend := State.settle_eq u env (.rule r) 0 #[] .failed
        change (u.settle env (.rule r) 0 #[] .failed).failures = _
        rw [hend]
        exact (Array.empty_append).trans hparts

end

/-! ## What comes of a text -/

/-- A parse by the outcome of its root: a match of the whole text is the value, any other match one
failure more. -/
theorem run_parseText (env : Env) (r : RuleId) (s : State) :
    parseText env r s = match (Expr.rule r).evaluate env s with
      | .ok (.matched _ v) t =>
        if t.atEnd env then .ok (.ok v) (t.emit (.parsed r env.length))
        else
          let u := (t.record .tooLong).emit (.stopped r t.cursor env.length)
          .ok (.error ⟨u.failures.toList⟩) u
      | .ok .failed t =>
        .ok (.error ⟨t.failures.toList⟩) (t.emit (.rejected r t.failures.size))
      | .error h t => .error h t := by
  rw [parseText, ParseM.run_bind]
  cases (Expr.rule r).evaluate env s with
  | error h t => rfl
  | ok o t =>
    cases o with
    | failed => rfl
    | matched stop v =>
      simp only [ParseM.run_bind, ParseM.run_get]
      cases t.atEnd env <;> rfl

/-- The answer to a text, by the outcome of the root rule. -/
theorem Grammar.parse_answer (g : Grammar) (r : RuleId) (config : Config) (text : String) :
    (g.parse r config text).answer =
      match (Expr.rule r).evaluate (.ofText text config) (.start (.ofText text config) g) with
      | .ok (.matched stop v) _ =>
        if stop = text.length then .ok (.ok v) else .ok (.error ⟨[⟨stop, .tooLong⟩]⟩)
      | .ok .failed t => .ok (.error ⟨t.failures.toList⟩)
      | .error h _ => .error h := by
  generalize henv : Env.ofText text config = env
  have hlen : env.length = text.length := henv ▸ Env.length_ofText text config
  have hland := (Expr.rule r).orderly_evaluate (sane_start env g)
  rw [Grammar.parse, henv, run_parseText]
  cases hr : (Expr.rule r).evaluate env (.start env g) with
  | error h t => rfl
  | ok o t =>
    rw [hr] at hland
    cases o with
    | failed => rfl
    | matched stop v =>
      obtain ⟨-, hc, -, hle, hf⟩ := hland
      dsimp only
      by_cases hstop : stop = text.length
      · have hend : t.atEnd env = true := decide_eq_true (by rw [hlen, hc, hstop])
        rw [if_pos hend, if_pos hstop]
      · have hend : ¬ t.atEnd env = true := by
          intro h
          have := of_decide_eq_true h
          omega
        have hfs : ((t.record .tooLong).emit (.stopped r t.cursor env.length)).failures =
            #[⟨stop, .tooLong⟩] := by
          change (t.record .tooLong).failures = _
          rw [State.record_failures, hf, hc]
          rfl
        rw [if_neg hend, if_neg hstop]
        dsimp only
        rw [hfs]

/-- Without a limit, the root matches as in the reference run. -/
theorem root_matched_iff {env : Env} (hlim : env.limit = none) (g : Grammar) (r : RuleId)
    (stop : Nat) (v : Value) :
    (∃ t, (Expr.rule r).evaluate env (.start env g) = .ok (.matched stop v) t) ↔
      ∃ t, (Expr.rule r).evaluate env.reference (.start env g) = .ok (.matched stop v) t := by
  have hagree := evaluate_agrees hlim (.rule r) (sane_start env g) (memoSound_start env g)
  rw [show (State.start env g).anew env = .start env g from rfl] at hagree
  constructor
  · rintro ⟨t, ht⟩
    rw [ht] at hagree
    cases hr : (Expr.rule r).evaluate env.reference (.start env g) with
    | error e u => rw [hr] at hagree; cases hagree
    | ok o u =>
      rw [hr] at hagree
      exact ⟨u, by rw [← hagree.1]⟩
  · rintro ⟨t, ht⟩
    rw [ht] at hagree
    cases hr : (Expr.rule r).evaluate env (.start env g) with
    | error e u => rw [hr] at hagree; cases hagree
    | ok o u =>
      rw [hr] at hagree
      exact ⟨u, by rw [hagree.1]⟩

/-- A text is accepted exactly where its root matches all of it. -/
theorem Grammar.parse_ok_iff (g : Grammar) (r : RuleId) (config : Config) (text : String)
    (v : Value) :
    (g.parse r config text).answer = .ok (.ok v) ↔
      ∃ t, (Expr.rule r).evaluate (.ofText text config) (.start (.ofText text config) g) =
        .ok (.matched text.length v) t := by
  rw [Grammar.parse_answer]
  cases (Expr.rule r).evaluate (.ofText text config) (.start (.ofText text config) g) with
  | error e t => simp
  | ok o t =>
    cases o with
    | failed => simp
    | matched stop w =>
      dsimp only
      by_cases hstop : stop = text.length
      · simp [hstop]
      · simp [hstop]

/-- Without a limit a text has a value exactly if the evaluation of the root rule that remembers
nothing matches all of it with that value. Under any limit, a match that ends early is rejected with
that one failure, and a root rule that fails is rejected with failures inside the text, the last of
them its own at the start, or, if no rule may be opened, with a single one. -/
theorem Grammar.parse_exact (g : Grammar) (r : RuleId) (config : Config) (text : String) :
    let env := Env.ofText text config
    let root := (Expr.rule r).evaluate env (.start env g)
    let answer := (g.parse r config text).answer
    (config.limit = none → ∀ v, answer = .ok (.ok v) ↔
      ∃ t, (Expr.rule r).evaluate env.reference (.start env g) =
        .ok (.matched text.length v) t) ∧
    (∀ stop v t, root = .ok (.matched stop v) t → stop < text.length →
      ∃ f, answer = .ok (.error ⟨[f]⟩) ∧ f.position = stop ∧ f.message = "Text is too long") ∧
    (∀ t, root = .ok .failed t → ∃ failures, answer = .ok (.error ⟨failures⟩) ∧
      failures ≠ [] ∧ (∀ f ∈ failures, f.position ≤ text.length) ∧
      ((∃ f, failures.getLast? = some f ∧ f.position = 0 ∧
          f.message = "Wrong Symbol(" ++ r.name ++ ")") ∨
        (∃ f, failures = [f] ∧ f.message = "Stack overflow in Symbol(" ++ r.name ++ ")" ∧
          config.limit = some 0))) := by
  intro env root answer
  have hanswer : answer = _ := Grammar.parse_answer g r config text
  refine ⟨fun hlim v => ?_, fun stop v t hroot hlt => ?_, fun t hroot => ?_⟩
  · rw [← root_matched_iff (show env.limit = none from hlim)]
    exact Grammar.parse_ok_iff g r config text v
  · refine ⟨⟨stop, .tooLong⟩, ?_, rfl, rfl⟩
    rw [hanswer, show (Expr.rule r).evaluate (.ofText text config) _ = _ from hroot]
    exact if_neg (by omega)
  · -- the root is answered in the first state, with nothing to recall
    have hrun := Expr.evaluate_eq_run env (.rule r) (.start env g)
    rw [show (Expr.rule r).evaluate env (.start env g) = _ from hroot] at hrun
    obtain ⟨hpos, hlast⟩ := start_failed g ((run_expr (.rule r) _ _).symm.trans hrun.symm)
    rw [Env.length_ofText] at hpos
    refine ⟨t.failures.toList, ?_, ?_, fun f hf => hpos f (Array.mem_toList_iff.mp hf), ?_⟩
    · rw [hanswer, show (Expr.rule r).evaluate (.ofText text config) _ = _ from hroot]
    · rcases hlast with ⟨parts, hparts⟩ | ⟨hone, -⟩
      · rw [hparts]
        simp
      · rw [hone]
        simp
    · rcases hlast with ⟨parts, hparts⟩ | ⟨hone, hlim⟩
      · left
        refine ⟨⟨0, .wrong r.label⟩, ?_, rfl, message_wrong r⟩
        rw [hparts]
        simp
      · right
        refine ⟨⟨0, .tooDeep r.label⟩, ?_, message_tooDeep r, hlim⟩
        rw [hone]

/-- A text that is a digit, one that goes on behind it, one without a digit, and one for which no
rule may be opened. -/
theorem Grammar.parse_exact_digit :
    (Grammar.digits.parse ⟨0, "digit"⟩ {} "7").answer = .ok (.ok (.char '7')) ∧
      (∃ f, (Grammar.digits.parse ⟨0, "digit"⟩ {} "7x").answer = .ok (.error ⟨[f]⟩) ∧
        f.position = 1 ∧ f.message = "Text is too long") ∧
      (∃ failures, (Grammar.digits.parse ⟨0, "digit"⟩ {} "x").answer = .ok (.error ⟨failures⟩) ∧
        failures ≠ []) ∧
      ∃ failures, (Grammar.digits.parse ⟨0, "digit"⟩ { limit := some 0 } "7").answer =
        .ok (.error ⟨failures⟩) ∧ failures ≠ [] := by
  obtain ⟨t, hfull⟩ : ∃ t, (Expr.rule ⟨0, "digit"⟩).evaluate (Env.ofText "7" {}).reference
      (.start (.ofText "7" {}) .digits) = .ok (.matched 1 (.char '7')) t := ⟨_, rfl⟩
  obtain ⟨u, hlong⟩ : ∃ u, (Expr.rule ⟨0, "digit"⟩).evaluate (.ofText "7x" {})
      (.start (.ofText "7x" {}) .digits) = .ok (.matched 1 (.char '7')) u := ⟨_, rfl⟩
  obtain ⟨w, hwrong⟩ : ∃ w, (Expr.rule ⟨0, "digit"⟩).evaluate (.ofText "x" {})
      (.start (.ofText "x" {}) .digits) = .ok .failed w := ⟨_, rfl⟩
  obtain ⟨z, hdeep⟩ : ∃ z, (Expr.rule ⟨0, "digit"⟩).evaluate (.ofText "7" { limit := some 0 })
      (.start (.ofText "7" { limit := some 0 }) .digits) = .ok .failed z := ⟨_, rfl⟩
  obtain ⟨fs, hfs, hne, -⟩ := (Grammar.parse_exact .digits ⟨0, "digit"⟩ {} "x").2.2 w hwrong
  obtain ⟨gs, hgs, hne', -⟩ :=
    (Grammar.parse_exact .digits ⟨0, "digit"⟩ { limit := some 0 } "7").2.2 z hdeep
  exact ⟨((Grammar.parse_exact .digits ⟨0, "digit"⟩ {} "7").1 rfl (.char '7')).mpr ⟨t, hfull⟩,
    (Grammar.parse_exact .digits ⟨0, "digit"⟩ {} "7x").2.1 1 (.char '7') u hlong (by decide),
    ⟨fs, hfs, hne⟩, ⟨gs, hgs, hne'⟩⟩

end Packrat
