import Packrat.Proofs.Permanence
import Packrat.Proofs.Transparency

/-!
# What is remembered is used again

An entry is there for the rest of a session. Evaluations make entries only for places that have none
(`work_unknown`), and nothing else that a session does touches them: not the cursor, not the
failures, not the mode for blanks, and not a definition, even if it gives a body to a rule that
failed for want of one.

And wherever an entry is, it is used: `State.reuse` says what it comes to, which depends neither on
the grammar nor on the limit.
-/

namespace Packrat

/-- What an entry for a key at the cursor comes to. A match ends behind the blanks of the caller, a
failure adds the failures of the entry; that it was used is noted, and nothing else changes. -/
def State.reuse (s : State) (env : Env) (key : Key) : Entry → Result (Outcome Value)
  | .success stop v =>
    let stop := if s.skipping then env.skipBlanks stop else stop
    .ok (.matched stop v) ({ s with cursor := stop }.recalled s.cursor (.matched stop v) key)
  | .failure fs =>
    .ok .failed ({ s with failures := s.failures ++ fs }.recalled s.cursor .failed key)

section

variable {env : Env} {n : Nat} {key : Key} {s t : State} {entry : Entry}

theorem answer_reuse (h : s.known? env key = some entry) :
    answer env n key s = s.reuse env key entry := by
  rw [answer_known h]
  cases entry with
  | failure fs => rfl
  | success stop v =>
    rw [Matcher.run_replay_success, State.reuse]
    dsimp only
    rw [Matcher.run_skippingBlanks_matched]
    by_cases hk : s.skipping = true
    · cases key <;> simp [State.skipBlanks, State.recalled, State.emit, Outcome.isMatched, hk]
    · cases key <;> simp [State.skipBlanks, State.recalled, State.emit, hk]

/-- An entry is used with any room and so by every evaluation of its key. -/
theorem Key.matcher_reuse (h : s.known? env key = some entry) (n : Nat) :
    key.expr.matcher env (callRule env n) s = s.reuse env key entry := by
  rw [Expr.matcher_eq_run, run_expr]
  exact answer_reuse h

/-! ## Along a session -/

/-- What can be recalled stays along a run, also where definitions change the grammar. -/
theorem kept_retains (env : Env) (n : Nat) :
    Kept env n (Sized env) fun s t => Retains env s t ∧ Sized env t where
  trans h h' := ⟨h.1.trans h'.1, h'.2⟩
  holds h := h.2
  quiet hs h := ⟨.of_memo h.memo, (kept_sized env n).quiet hs h⟩
  settle outer hk hs hz hf hun hr ht :=
    ((kept_later env n).settle outer hk hs hz hf hun hr ht).imp_left Later.retains

/-- In a session, definitions included, a later moment recalls what an earlier one does. -/
theorem Session.pairwise_retains (text : String) (config : Config) (g : Grammar)
    (cs : List (Command RuleId Expr)) :
    ((Session.start text config g).moments cs).Pairwise (Retains (.ofText text config)) := by
  obtain ⟨l, hl, hpath⟩ := Session.passes_moments (kept_retains (.ofText text config)) cs
    (fun s _ _ _ _ _ hz => ⟨.of_memo rfl, hz⟩) _ (sane_start _ g) (sized_start _ g)
  rw [Session.start, hl]
  exact (hpath.pairwise (kept_retains _ 0)).imp fun h => h.2.1

end

/-- What is remembered at a moment of a session is remembered at every later one, whatever
evaluations, definitions and other steps lie between. There, at its position, the evaluation of its
rule or built-in class comes to what is remembered, with any room for open rules. -/
theorem Session.memo_permanent (text : String) (blanks : List Char) (limit : Option Nat)
    (g : Grammar) (cs : List (Command RuleId Expr)) :
    let env := Env.ofText text { blanks, limit }
    let moments := (Session.start text { blanks, limit } g).moments cs
    ∀ (i j : Nat) (s t : State), i ≤ j → moments[i]? = some s → moments[j]? = some t →
      ∀ p key entry, s.memo.find? p key = some entry →
        t.memo.find? p key = some entry ∧
          (t.cursor = p → key.expr.evaluate env t = t.reuse env key entry ∧
            ∀ n, key.expr.matcher env (callRule env n) t = t.reuse env key entry) := by
  intro env moments i j s t hij hi hj p key entry hfind
  obtain ⟨hilt, rfl⟩ := List.getElem?_eq_some_iff.mp hi
  obtain ⟨hjlt, rfl⟩ := List.getElem?_eq_some_iff.mp hj
  have hstay : moments[j].Recalls env p key entry := by
    rcases Nat.lt_or_eq_of_le hij with hlt | rfl
    · have hpair := Session.pairwise_retains text { blanks, limit } g cs
      exact List.pairwise_iff_getElem.mp hpair i j hilt hjlt hlt p key entry ⟨rfl, hfind⟩
    · exact ⟨rfl, hfind⟩
  refine ⟨hstay.2, fun hcur => ?_⟩
  subst hcur
  have hreuse := Key.matcher_reuse (State.known?_eq_some.mpr hstay)
  exact ⟨hreuse _, hreuse⟩

/-- A rule without a body and one that refers to it. -/
def Grammar.late : Grammar where
  rules := #[⟨"late", false, .undefined⟩, ⟨"outer", false, .defined (.rule ⟨0, "late"⟩)⟩]

/-- A rule fails for want of a body, is given one, and is asked for again inside another rule, where
no more rules may be opened: it still fails as it did. -/
theorem Session.memo_permanent_redefined :
    let late : RuleId := ⟨0, "late"⟩
    let outer : RuleId := ⟨1, "outer"⟩
    let config : Config := { limit := some 1 }
    let env := Env.ofText "7" config
    let first := [.evaluate (.rule late)]
    let others := [.define late (.builtin .digit), .evaluate (.rule outer)]
    let undefined := (Session.start "7" config .late).after first
    let defined := undefined.after [.define late (.builtin .digit)]
    let moments := (Session.start "7" config .late).moments (first ++ others)
    let s := undefined.state
    let t := (defined.state.opened (.rule outer)).entering env outer
    ∃ (i j : Nat) (entry : Entry), i ≤ j ∧ moments[i]? = some s ∧ moments[j]? = some t ∧
      s.memo.find? 0 (.rule late) = some entry ∧ (s.grammar.define late .empty).isOk = true ∧
      (t.grammar.define late .empty).isOk = false ∧ t.atLimit env = true ∧
      (Expr.rule late).evaluate env t = t.reuse env (.rule late) entry := by
  intro late outer config env first others undefined defined moments s t
  have hmem : t ∈ undefined.moments others := by
    have hinside : t ∈ defined.moments [.evaluate (.rule outer)] :=
      defined.entering_mem_moments [] (Option.isNone_iff_eq_none.mp (by decide +kernel))
        (by decide +kernel) (by decide +kernel)
    exact List.mem_cons_of_mem _ hinside
  obtain ⟨i, j, hij, hi, hj⟩ := Session.exists_le_of_mem_moments _ first others hmem
  obtain ⟨entry, hentry⟩ : ∃ entry, s.memo.find? 0 (.rule late) = some entry :=
    Option.isSome_iff_exists.mp (by decide +kernel)
  have hperm := Session.memo_permanent "7" defaultBlanks (some 1) .late (first ++ others) i j s t
    hij hi hj 0 (.rule late) entry hentry
  have hcursor : t.cursor = 0 := by decide +kernel
  exact ⟨i, j, entry, hij, hi, hj, hentry, by decide +kernel, by decide +kernel, by decide +kernel,
    (hperm.2 hcursor).1⟩

end Packrat
