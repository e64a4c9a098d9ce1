import Packrat.Proofs.Driver
import Packrat.Proofs.Permanence
import Packrat.Proofs.Visits

/-!
# Blanks behind a match

Blanks are skipped piecemeal: behind tokens, behind rules in the mode of the caller, and in front of
bodies. What holds the pieces together is that in a body that skips blanks the cursor never stands
at one. `Poised` is this invariant of a state; every expression keeps it (`Expr.poises`), and the
body of a rule that skips blanks begins with it (`poised_entering`). So such a rule ends where no
blank is, also where its end is remembered for callers with another mode (`kept_memoSettled`).
-/

namespace Packrat

/-- No blank stands at the position. -/
def Env.Settled (env : Env) (p : Nat) : Prop := ∀ c, env.text[p]? = some c → c ∉ env.blanks

/-- Blanks are skipped, and none stands at the cursor. -/
structure Poised (env : Env) (s : State) : Prop where
  skipping : s.skipping = true
  settled : env.Settled s.cursor

/-- A matcher that leaves no blank at the cursor if it finds none there. -/
def Matcher.Poises (env : Env) (m : Matcher) : Prop :=
  ∀ s o t, Poised env s → m s = .ok o t → Poised env t

/-- Matches of rules that skip blanks are remembered to end where no blank is. -/
def MemoSettled (env : Env) (s : State) : Prop :=
  ∀ p r stop v, s.Recalls env p (.rule r) (.success stop v) → s.grammar.skipsBlanks r = true →
    env.Settled stop

/-! ## Positions -/

namespace Env

variable {env : Env} {p : Nat}

/-- There are no blanks behind the text. -/
theorem settled_of_le (h : env.length ≤ p) : env.Settled p := by
  intro c hc
  rw [Array.getElem?_eq_none h] at hc
  cases hc

/-- Skipping stops where no blank stands. -/
theorem settled_skipBlanksFrom (n : Nat) :
    ∀ p, env.length ≤ p + n → env.Settled (env.skipBlanksFrom p n) := by
  induction n with
  | zero => intro p h; exact settled_of_le h
  | succ n ih =>
    intro p h
    rw [skipBlanksFrom]
    cases hc : env.text[p]? with
    | none =>
      intro c hc'
      rw [hc] at hc'
      cases hc'
    | some c =>
      dsimp only
      by_cases hb : env.blanks.contains c = true
      · rw [if_pos hb]
        exact ih (p + 1) (by omega)
      · rw [if_neg hb]
        intro c' hc'
        rw [hc] at hc'
        cases hc'
        simpa using hb

/-- Behind the blanks there is no blank. -/
theorem settled_skipBlanks (env : Env) (p : Nat) : env.Settled (env.skipBlanks p) :=
  settled_skipBlanksFrom _ p (by omega)

/-- Where no blank stands there is nothing to skip. -/
theorem skipBlanks_of_settled (h : env.Settled p) : env.skipBlanks p = p := by
  unfold skipBlanks
  cases env.length - p with
  | zero => rfl
  | succ n =>
    rw [skipBlanksFrom]
    cases hc : env.text[p]? with
    | none => rfl
    | some c => simp [h c hc]

theorem Settled.min (h : env.Settled p) : env.Settled (min p env.length) := by
  rcases Nat.le_total p env.length with hle | hle
  · rwa [Nat.min_eq_left hle]
  · rw [Nat.min_eq_right hle]
    exact settled_of_le (Nat.le_refl _)

end Env

section

variable {env : Env} {n : Nat} {key : Key} {r : RuleId} {s t u : State} {o : Outcome Value}
  {stop : Nat} {v : Value}

/-! ## Poised states -/

namespace Poised

theorem of_cursor (h : Poised env s) (hc : t.cursor = s.cursor) (hk : t.skipping = s.skipping) :
    Poised env t := ⟨hk.trans h.skipping, by rw [hc]; exact h.settled⟩

/-- A composite goes back to where it began. -/
theorem back (h : Poised env s) (ht : Poised env t) : Poised env (t.moveTo env s.cursor) :=
  ⟨ht.skipping, h.settled.min⟩

theorem note {α : Type} (h : Poised env s) (journal : Option String) (text : α → String) (a : α) :
    Poised env (s.note journal text a) :=
  h.of_cursor (State.note_cursor ..) (State.Works.note env s journal text a).skipping

/-- Skipping blanks leaves none at the cursor. -/
theorem skipBlanks (h : s.skipping = true) : Poised env (s.skipBlanks env) := by
  refine ⟨(State.Works.skipBlanks env s).skipping.trans h, ?_⟩
  rw [State.skipBlanks, if_pos h]
  exact env.settled_skipBlanks s.cursor

end Poised

/-- Where blanks are skipped, none is left behind a match. -/
theorem poised_skippingBlanks {o' : Outcome Value} (h : Matcher.skippingBlanks env o s = .ok o' t)
    (hk : s.skipping = true) (hs : o = .failed → env.Settled s.cursor) : Poised env t := by
  cases o with
  | matched stop v => cases h; exact .skipBlanks hk
  | failed => cases h; exact ⟨hk, hs rfl⟩

/-! ## Matchers -/

namespace Matcher

theorem scan_failed_cursor {label : String} {test : Hook Char Bool}
    (h : scan env label test s = .ok .failed t) : t.cursor = s.cursor := by
  rw [run_scan] at h
  cases hc : env.text[s.cursor]? with
  | none => rw [hc] at h; cases h; rfl
  | some c =>
    rw [hc] at h
    dsimp only at h
    split at h <;> cases h
    exact State.note_cursor ..

theorem poises_char (test : Hook Char Bool) : (char env test).Poises env := by
  intro s o t hs h
  rw [char, ParseM.run_bind] at h
  cases hr : scan env "Character" test s with
  | error e u => rw [hr] at h; cases h
  | ok o' u =>
    rw [hr] at h
    refine poised_skippingBlanks h ((scan_skipping hr).trans hs.skipping) ?_
    rintro rfl
    rw [scan_failed_cursor hr]
    exact hs.settled

theorem poises_literal (length : Nat) (test : Hook String Bool) :
    (literal env length test).Poises env := by
  intro s o t hs h
  rw [run_literal] at h
  cases hc : env.slice? s.cursor length with
  | none => rw [hc] at h; cases h; exact hs.of_cursor rfl rfl
  | some text =>
    have hn := hs.note test.journal id text
    rw [hc] at h
    dsimp only at h
    split at h
    · cases h
      exact .skipBlanks hn.skipping
    · cases h
      exact hn.of_cursor rfl rfl

theorem poises_optional {m : Matcher} (hm : m.Poises env) : (optional m).Poises env := by
  intro s o t hs h
  rw [run_optional] at h
  cases hr : m s with
  | error e u => rw [hr] at h; cases h
  | ok o' u =>
    have hu := hm s o' u hs hr
    rw [hr] at h
    cases o' <;> cases h <;> exact hu.of_cursor rfl rfl

theorem poised_collect {m : Matcher} (hm : m.Poises env) {count : Count} {budget : Nat}
    {items items' : Array Value} (hs : Poised env s)
    (h : collect count m budget items s = .ok items' t) : Poised env t := by
  induction budget generalizing items s with
  | zero => cases h
  | succ budget ih =>
    rw [run_collect_succ] at h
    split at h
    · cases h; exact hs
    · cases hr : m s with
      | error e u => rw [hr] at h; cases h
      | ok o u =>
        have hu := hm s o u hs hr
        rw [hr] at h
        cases o with
        | failed => cases h; exact hu
        | matched stop v =>
          dsimp only at h
          split at h
          · cases h; exact hu
          · exact ih hu h

/-- A repetition that falls short goes back to a start without a blank. -/
theorem poises_repeated (label : String) (count : Count) {m : Matcher} (hm : m.Poises env) :
    (repeated env label count m).Poises env := by
  intro s o t hs h
  rw [run_repeated] at h
  cases hr : collect count m (count.least + (env.length - s.cursor) + 1) #[] s with
  | error e u => rw [hr] at h; cases h
  | ok items u =>
    have hu := poised_collect hm hs hr
    rw [hr] at h
    dsimp only at h
    split at h
    · cases h; exact hu.of_cursor rfl rfl
    · cases h; exact (hs.back hu).of_cursor rfl rfl

theorem poises_lookahead (label : String) (negated : Bool) {m : Matcher} (hm : m.Poises env) :
    (lookahead env label negated m).Poises env := by
  intro s o t hs h
  rw [run_lookahead] at h
  cases hr : m s with
  | error e u => rw [hr] at h; cases h
  | ok o' u =>
    have hback := hs.back (hm s o' u hs hr)
    rw [hr] at h
    dsimp only at h
    split at h <;> cases h <;> exact hback.of_cursor rfl rfl

theorem poised_runSteps {steps : List (Step Matcher)}
    (hm : ∀ step ∈ steps, step.body.Poises env) {slots : Option Slots} (hs : Poised env s)
    (h : runSteps steps s = .ok slots t) : Poised env t := by
  induction steps generalizing s slots t with
  | nil => cases h; exact hs
  | cons step rest ih =>
    rw [run_runSteps_cons] at h
    cases hr : step.body s with
    | error e u => rw [hr] at h; cases h
    | ok o u =>
      have hu := hm step List.mem_cons_self s o u hs hr
      rw [hr] at h
      cases o with
      | failed => cases h; exact hu
      | matched stop v =>
        dsimp only at h
        cases hw : runSteps rest u with
        | error e w => rw [hw] at h; cases h
        | ok slots' w =>
          have hend := ih (fun step hmem => hm step (List.mem_cons_of_mem _ hmem)) hu hw
          rw [hw] at h
          cases slots' <;> cases h <;> exact hend

theorem poises_sequence (label : String) {steps : List (Step Matcher)}
    (build : Hook Slots (Except Fault Value)) (hm : ∀ step ∈ steps, step.body.Poises env) :
    (sequence env label steps build).Poises env := by
  intro s o t hs h
  rw [run_sequence] at h
  cases hr : runSteps steps s with
  | error e u => rw [hr] at h; cases h
  | ok slots u =>
    have hu := poised_runSteps hm hs hr
    rw [hr] at h
    cases slots with
    | none => cases h; exact (hs.back hu).of_cursor rfl rfl
    | some slots =>
      have hcut : Poised env (u.cutBack s.failures.size) := hu.of_cursor rfl rfl
      dsimp only at h
      cases hb : build.apply slots with
      | error f => rw [hb] at h; cases h
      | ok v => rw [hb] at h; cases h; exact hcut.note _ _ slots

/-- Every alternative begins at the start of the choice, where no blank stands. -/
theorem poised_firstOf {ms : List Matcher} (hm : ∀ m ∈ ms, m.Poises env) {start : Nat}
    (hstart : env.Settled start) (hs : Poised env s) (h : firstOf env start ms s = .ok o t) :
    Poised env t := by
  induction ms generalizing s with
  | nil => cases h; exact hs
  | cons m rest ih =>
    rw [run_firstOf_cons] at h
    cases hr : m s with
    | error e u => rw [hr] at h; cases h
    | ok o' u =>
      have hu := hm m List.mem_cons_self s o' u hs hr
      rw [hr] at h
      cases o' with
      | matched stop v => cases h; exact hu
      | failed =>
        have hback : Poised env (u.moveTo env start) := ⟨hu.skipping, hstart.min⟩
        exact ih (fun m hmem => hm m (List.mem_cons_of_mem _ hmem)) hback h

theorem poises_choice (label : String) {ms : List Matcher} (hm : ∀ m ∈ ms, m.Poises env) :
    (choice env label ms).Poises env := by
  intro s o t hs h
  rw [run_choice] at h
  cases hr : firstOf env s.cursor ms s with
  | error e u => rw [hr] at h; cases h
  | ok o' u =>
    have hu := poised_firstOf hm hs.settled hs hr
    rw [hr] at h
    cases o' <;> cases h <;> exact hu.of_cursor rfl rfl

theorem poises_map (f : Hook Value Value) {m : Matcher} (hm : m.Poises env) :
    (map f m).Poises env := by
  intro s o t hs h
  rw [run_map] at h
  cases hr : m s with
  | error e u => rw [hr] at h; cases h
  | ok o' u =>
    have hu := hm s o' u hs hr
    rw [hr] at h
    cases o' with
    | matched stop v => cases h; exact hu.note _ _ v
    | failed => cases h; exact hu

end Matcher

namespace Expr

variable {call : RuleId → Matcher}

mutual

/-- An expression leaves no blank at the cursor where rules and built-in classes do not. -/
theorem poises (hcall : ∀ r, (call r).Poises env)
    (hbuiltin : ∀ c, (Matcher.builtin env c).Poises env) (x : Expr) :
    (x.matcher env call).Poises env := by
  cases x with
  | builtin c => exact hbuiltin c
  | char test => exact Matcher.poises_char test
  | literal length test => exact Matcher.poises_literal length test
  | empty => intro s o t hs h; cases h; exact hs
  | fail message => intro s o t hs h; cases h; exact hs.of_cursor rfl rfl
  | position => intro s o t hs h; cases h; exact hs
  | rule r => exact hcall r
  | optionalAs label x => exact Matcher.poises_optional (x.poises hcall hbuiltin)
  | repeatedAs label x count => exact Matcher.poises_repeated label count (x.poises hcall hbuiltin)
  | lookaheadAs label negated x =>
    exact Matcher.poises_lookahead label negated (x.poises hcall hbuiltin)
  | sequenceAs label type steps build =>
    exact Matcher.poises_sequence label build (steps_poise hcall hbuiltin steps)
  | choiceAs label xs => exact Matcher.poises_choice label (alternatives_poise hcall hbuiltin xs)
  | map type f x => exact Matcher.poises_map f (x.poises hcall hbuiltin)

theorem steps_poise (hcall : ∀ r, (call r).Poises env)
    (hbuiltin : ∀ c, (Matcher.builtin env c).Poises env) (steps : List (Step Expr)) :
    ∀ step ∈ stepMatchers env call steps, step.body.Poises env := by
  cases steps with
  | nil => intro step h; cases h
  | cons step rest =>
    obtain ⟨x, store⟩ := step
    intro step h
    rcases List.mem_cons.mp h with rfl | h
    · exact x.poises hcall hbuiltin
    · exact steps_poise hcall hbuiltin rest step h

theorem alternatives_poise (hcall : ∀ r, (call r).Poises env)
    (hbuiltin : ∀ c, (Matcher.builtin env c).Poises env) (xs : List Expr) :
    ∀ m ∈ matchers env call xs, m.Poises env := by
  cases xs with
  | nil => intro m h; cases h
  | cons x rest =>
    intro m h
    rcases List.mem_cons.mp h with rfl | h
    · exact x.poises hcall hbuiltin
    · exact alternatives_poise hcall hbuiltin rest m h

end

end Expr

/-! ## Answers -/

/-- The work behind a key that fails goes back to where it began. -/
theorem settled_of_produce_failed (hs : env.Settled s.cursor)
    (h : produce env n key s = .ok .failed t) : env.Settled t.cursor := by
  cases key with
  | builtin c =>
    rw [produce_builtin] at h
    rw [Matcher.scan_failed_cursor h]
    exact hs
  | rule r =>
    obtain ⟨k, -, ⟨-, -, -, rfl⟩ | ⟨x, u, w, -, -, -, -, rfl⟩⟩ := produce_rule_cases h
    · exact hs.min
    · exact hs.min

/-- Every answer keeps the cursor off blanks: the caller skips what the callee has left. -/
theorem poises_answer (env : Env) (n : Nat) (key : Key) : (answer env n key).Poises env := by
  intro s o t hs h
  rcases answer_cases env key s with ⟨entry, hk⟩ | ⟨r, rfl, hk, hl⟩ | ⟨hk, hl⟩
  · cases entry with
    | success stop v =>
      obtain ⟨es, he⟩ := answer_known_success (n := n) hk
      rw [he] at h
      exact poised_skippingBlanks h hs.skipping fun ho => by cases ho
    | failure fs =>
      obtain ⟨es, he⟩ := answer_known_failure (n := n) hk
      rw [he] at h
      cases h
      exact hs.of_cursor rfl rfl
  · rw [answer_refused hk hl] at h
    cases h
    exact hs.of_cursor rfl rfl
  · obtain ⟨o', u, hr, hend⟩ := answer_worked hk hl h
    obtain ⟨d, es, he⟩ := (u.settle env key s.cursor s.failures o').closed_eq s.cursor o' key
    have hopen : env.Settled (s.opened key).cursor := by
      rw [s.opened_cursor key]
      exact hs.settled
    rw [he, State.settle_eq] at hend
    refine poised_skippingBlanks hend ?_ ?_
    · exact (produce_skipping hr).trans ((s.opened_skipping key).trans hs.skipping)
    · rintro rfl
      have hu := settled_of_produce_failed hopen hr
      exact hu

/-- In a mode that skips blanks, every expression leaves no blank at the cursor. -/
theorem Expr.poises_callRule (x : Expr) : (x.matcher env (callRule env n)).Poises env :=
  x.poises (fun r => poises_answer env n (.rule r)) fun c => poises_answer env n (.builtin c)

/-! ## Rules that skip blanks -/

/-- The body of a rule that skips blanks begins behind those at its start. -/
theorem poised_entering (hr : s.grammar.skipsBlanks r = true) : Poised env (s.entering env r) :=
  .skipBlanks hr

/-- The work behind a rule that skips blanks ends where no blank is. -/
theorem settled_of_produce (hr : s.grammar.skipsBlanks r = true)
    (h : produce env n (.rule r) s = .ok (.matched stop v) t) : env.Settled t.cursor := by
  obtain ⟨k, -, ⟨-, -, ho, -⟩ | ⟨x, u, w, -, ⟨-, g, es, rfl⟩, -, hrun, rfl⟩⟩ :=
    produce_rule_cases h
  · cases ho
  · rw [answer, ← x.matcher_eq_run] at hrun
    have hbegin : Poised env { s.entering env r with grammar := g, events := es } :=
      (poised_entering hr).of_cursor rfl rfl
    exact (x.poises_callRule _ _ _ hbegin hrun).settled

/-- What is remembered of rules that skip blanks ends where no blank is, all along a run. -/
theorem kept_memoSettled (env : Env) (n : Nat) :
    Kept env n (MemoSettled env) fun _ t => MemoSettled env t where
  trans _ h := h
  holds h := h
  quiet hI hq p r stop v hrec hr := by
    rw [hq.grows.skipsBlanks] at hr
    exact hI p r stop v (hrec.congr hq.memo) hr
  settle {k key s o t} outer hk hs hI hf hun hp ht p r stop v hrec hr := by
    rw [State.settle_grammar] at hr
    rcases hrec.of_settle with ⟨-, -, rfl, he⟩ | hrec
    · cases o with
      | failed => cases he
      | matched stop' v' =>
        cases he
        have hland := orderly_produce k (.rule r) s hs
        have honward := (produce_reaches_end (kept_onward env k) (.rule r) hs trivial).2
        rw [hp] at hland honward
        rw [show t.grammar.skipsBlanks r = _ from honward.grows.skipsBlanks r] at hr
        rw [← hland.2.1]
        exact settled_of_produce hr hp
    · exact ht p r stop v hrec hr

/-- A match ends where no blank stands if the cursor was at none, in either mode. -/
theorem settled_of_skippingBlanks (h : Matcher.skippingBlanks env o s = .ok (.matched stop v) t)
    (hs : env.Settled s.cursor) : env.Settled stop := by
  cases o with
  | failed => cases h
  | matched stop' v' =>
    rw [Matcher.run_skippingBlanks_matched] at h
    cases h
    by_cases hk : s.skipping = true
    · exact (Poised.skipBlanks hk).settled
    · rw [State.skipBlanks, if_neg hk]
      exact hs

/-- A rule that skips blanks ends where no blank is, in every mode of the caller. -/
theorem settled_of_answer (hm : MemoSettled env s) (hr : s.grammar.skipsBlanks r = true)
    (h : answer env n (.rule r) s = .ok (.matched stop v) t) : env.Settled stop := by
  rcases answer_cases env (.rule r) s with ⟨entry, hk⟩ | ⟨r', hr', hk, hl⟩ | ⟨hk, hl⟩
  · cases entry with
    | failure fs =>
      obtain ⟨es, he⟩ := answer_known_failure (n := n) hk
      rw [he] at h
      cases h
    | success stop' v' =>
      obtain ⟨es, he⟩ := answer_known_success (n := n) hk
      rw [he] at h
      exact settled_of_skippingBlanks h (hm _ r stop' v' (State.known?_eq_some.mp hk) hr)
  · cases hr'
    rw [answer_refused hk hl] at h
    cases h
  · obtain ⟨o', u, hp, hend⟩ := answer_worked hk hl h
    cases o' with
    | failed => cases hend
    | matched stop' v' =>
      rw [← s.opened_grammar (.rule r)] at hr
      have hu := settled_of_produce hr hp
      obtain ⟨d, es, he⟩ := (u.settle env (.rule r) s.cursor s.failures
        (.matched stop' v')).closed_eq s.cursor (.matched stop' v') (.rule r)
      rw [he, State.settle_eq] at hend
      exact settled_of_skippingBlanks hend hu

/-- A match ends where no blank is, if it is one of a rule that skips blanks, or one in a mode that
skips blanks and from where no blank is. -/
theorem Expr.settled_of_matched {x : Expr} (hs : Sane env s) (hm : MemoSettled env s)
    (h : x.matcher env (callRule env n) s = .ok (.matched stop v) t)
    (hx : (∃ r, x = .rule r ∧ s.grammar.skipsBlanks r = true) ∨
      (s.skipping = true ∧ env.Settled s.cursor)) : env.Settled stop := by
  rcases hx with ⟨r, rfl, hr⟩ | ⟨hk, hc⟩
  · exact settled_of_answer hm hr h
  · have hend := x.poises_callRule s _ t ⟨hk, hc⟩ h
    have hland := x.orderly_run (orderly_answer n) hs
    rw [answer, ← x.matcher_eq_run, h] at hland
    rw [← hland.2.1]
    exact hend.settled

end

/-! ## Sessions and whole texts -/

theorem memoSettled_start (env : Env) (g : Grammar) : MemoSettled env (.start env g) :=
  fun p r stop v hrec => absurd hrec (not_recalls_start env g p (.rule r) (.success stop v))

/-- What is remembered of rules that skip blanks ends where no blank is, at every moment of a
session. Definitions do not matter, as they leave the modes of the rules. -/
theorem Session.memoSettled_of_mem_moments {text : String} {config : Config} {g : Grammar}
    {cs : List (Command RuleId Expr)} {s : State}
    (hs : s ∈ (Session.start text config g).moments cs) :
    MemoSettled (.ofText text config) s := by
  refine Session.holds_of_mem_moments (kept_memoSettled _) ?_ (sane_start _ g)
    (memoSettled_start _ g) hs
  intro s r x g' hc hg hI p r' stop v hrec hr
  obtain ⟨-, rfl⟩ := Grammar.define_ok hg
  rw [show ({ s with grammar := s.grammar.setBody r x } : State).grammar.skipsBlanks r' = _ from
    s.grammar.skipsBlanks_setBody r r' x] at hr
  exact hI p r' stop v (hrec.congr rfl) hr

/-- What a rule that failed says last is not that the text is too long. -/
theorem last_message_ne {env : Env} {n : Nat} {r : RuleId} {t : State} {f : Failure} (g : Grammar)
    (h : answer env n (.rule r) (.start env g) = .ok .failed t)
    (hf : t.failures.toList.getLast? = some f) : f.message ≠ "Text is too long" := by
  obtain ⟨-, ⟨parts, hparts⟩ | ⟨hone, -⟩⟩ := start_failed g h
  · rw [hparts] at hf
    simp only [Array.toList_push, List.getLast?_append, List.getLast?_singleton] at hf
    cases hf
    change (Cause.wrong r.label).message ≠ _
    rw [message_wrong]
    intro he
    have := congrArg (fun m => m.toList.head?) he
    simp at this
  · rw [hone] at hf
    cases hf
    change (Cause.tooDeep r.label).message ≠ _
    rw [message_tooDeep]
    intro he
    have := congrArg (fun m => m.toList.head?) he
    simp at this

/-- A text is too long where no blank is, if the root rule skips blanks. -/
theorem Grammar.settled_of_tooLong {g : Grammar} {root : RuleId} {config : Config} {text : String}
    (hr : g.skipsBlanks root = true) {failures : List Failure} {f : Failure}
    (h : (g.parse root config text).answer = .ok (.error ⟨failures⟩))
    (hf : failures.getLast? = some f) (hm : f.message = "Text is too long") :
    (Env.ofText text config).Settled f.position := by
  rw [Grammar.parse_answer, Expr.evaluate_eq_run,
    show (Expr.rule root).dialogue _ _ = (Key.rule root).expr.dialogue _ _ from rfl, run_expr] at h
  generalize headroom _ _ = n at h
  cases ha : answer (.ofText text config) n (.rule root) (.start (.ofText text config) g) with
  | error e t => rw [ha] at h; cases h
  | ok o t =>
    rw [ha] at h
    cases o with
    | failed =>
      cases h
      exact absurd hm (last_message_ne g ha hf)
    | matched stop v =>
      dsimp only at h
      split at h
      · cases h
      · cases h
        cases hf
        exact settled_of_answer (memoSettled_start _ g) hr ha

/-- At every moment of a session, a rule that skips blanks ends where no blank is, or at the end of
the text, whether it is evaluated or recalled and whatever the mode of its caller. So does every
expression that is evaluated, at any depth, in a mode that skips blanks and from where no blank is.
If the root rule of a text skips blanks, it is not at a blank that the text is called too long. -/
theorem Session.trailing_blanks_absorbed (text : String) (config : Config) (g : Grammar)
    (cs : List (Command RuleId Expr)) :
    let env := Env.ofText text config
    (∀ s ∈ (Session.start text config g).moments cs,
      (∀ n (x : Expr) rules k (y : Expr) u, x.Visits env n s rules k y u → ∀ stop v t,
        y.matcher env (callRule env k) u = .ok (.matched stop v) t →
        (∃ r, y = .rule r ∧ u.grammar.skipsBlanks r = true) ∨
          (u.skipping = true ∧ env.Settled u.cursor) → env.Settled stop) ∧
      ∀ p r stop v, s.Recalls env p (.rule r) (.success stop v) →
        s.grammar.skipsBlanks r = true → env.Settled stop) ∧
    ∀ root, g.skipsBlanks root = true → ∀ failures f,
      (g.parse root config text).answer = .ok (.error ⟨failures⟩) → failures.getLast? = some f →
      f.message = "Text is too long" → env.Settled f.position := by
  intro env
  refine ⟨fun s hs => ?_, fun root hr failures f h hf hm => Grammar.settled_of_tooLong hr h hf hm⟩
  have hsettled := Session.memoSettled_of_mem_moments hs
  refine ⟨fun n x rules k y u hv stop v t h hy => ?_, hsettled⟩
  obtain ⟨hu, hmu⟩ := hv.kept (kept_memoSettled env n) (Session.sane_of_mem_moments hs) hsettled
  exact Expr.settled_of_matched hu hmu h hy

/-- A digit and the blank behind it: recalled where blanks are not skipped, the digit still ends
behind the blank, and a text that goes on there is too long at what follows. -/
theorem Session.trailing_blanks_absorbed_digit :
    let env := Env.ofText "7 x" {}
    let s := ((Session.start "7 x" {} .digits).after
      [.evaluate (.rule ⟨0, "digit"⟩), .moveTo 0]).state
    s.skipping = false ∧ s.Recalls env 0 (.rule ⟨0, "digit"⟩) (.success 2 (.char '7')) ∧
      (∃ stop v t, (Expr.rule ⟨0, "digit"⟩).matcher env (callRule env 0) s =
        .ok (.matched stop v) t ∧ env.Settled stop) ∧
      ∃ failures f, (Grammar.digits.parse ⟨0, "digit"⟩ {} "7 x").answer =
        .ok (.error ⟨failures⟩) ∧ failures.getLast? = some f ∧ f.message = "Text is too long" ∧
        env.Settled f.position := by
  intro env s
  obtain ⟨hmoments, hparse⟩ := Session.trailing_blanks_absorbed "7 x" {} .digits
    [.evaluate (.rule ⟨0, "digit"⟩), .moveTo 0]
  obtain ⟨hmatch, -⟩ := hmoments s (Session.after_mem_moments _ _)
  obtain ⟨t, ht⟩ : ∃ t, (Expr.rule ⟨0, "digit"⟩).matcher env (callRule env 0) s =
      .ok (.matched 2 (.char '7')) t := ⟨_, rfl⟩
  refine ⟨rfl, ⟨rfl, rfl⟩, ⟨_, _, _, ht, ?_⟩, _, ⟨2, .tooLong⟩, rfl, rfl, rfl, ?_⟩
  · exact hmatch 0 _ _ _ _ _ .here 2 _ t ht (Or.inl ⟨_, rfl, rfl⟩)
  · exact hparse ⟨0, "digit"⟩ rfl _ ⟨2, .tooLong⟩ rfl rfl rfl

end Packrat
