import Mathlib.Data.ENat.Basic
import Mathlib.Data.List.Infix
import Packrat.Proofs.Driver
import Packrat.Proofs.Termination

/-!
# What a limit changes

The events of a run show how many rules are open after each of them, so also the largest number of
rules that were open at a time (`Event.deepest`). A run with a limit and the one without go the same
way until a rule is refused; there the run without a limit opens one rule more than the limit allows
(`answer_coincides`). So a limit that is not below this number changes nothing, and a smaller one is
hit (`Grammar.parse_limit_exact`).
-/

namespace Packrat

/-! ## Open rules in a list of events -/

namespace Event

/-- The number of open rules after an event, if there are `n` before. -/
def opening (n : Nat) : Event → Nat
  | .attempt _ _ => n + 1
  | .matched _ _ _ | .failed _ _ => n - 1
  | _ => n

/-- The number of open rules after a list of events. -/
def openRules (events : List Event) : Nat := events.foldl opening 0

/-- The largest number of rules that are open at a time. -/
def deepest (events : List Event) : Nat := (events.inits.map openRules).foldr max 0

theorem openRules_append (events : List Event) (e : Event) :
    openRules (events ++ [e]) = e.opening (openRules events) := by
  simp [openRules]

theorem foldr_max_append (l : List Nat) (n : Nat) :
    (l ++ [n]).foldr max 0 = max (l.foldr max 0) n := by
  induction l with
  | nil => simp
  | cons m l ih => simp [ih, Nat.max_assoc]

/-- An event is as deep as the rules that are open after it. -/
theorem deepest_append (events : List Event) (e : Event) :
    deepest (events ++ [e]) = max (deepest events) (e.opening (openRules events)) := by
  unfold deepest
  rw [List.inits_append]
  simp only [List.inits, List.tail_cons, List.map_append, List.map_cons, List.map_nil]
  rw [foldr_max_append, openRules_append]

end Event

/-! ## Runs that differ in the limit -/

namespace Env.Alike

variable {env env' : Env}

theorem moveTo (h : Alike env env') (s : State) (p : Nat) : s.moveTo env' p = s.moveTo env p := by
  rw [State.moveTo, State.moveTo, h.length]

theorem skip (h : Alike env env') (s : State) : s.skipBlanks env' = s.skipBlanks env := by
  rw [State.skipBlanks, State.skipBlanks, h.skipBlanks]

theorem skippingBlanks (h : Alike env env') (o : Outcome Value) (s : State) :
    Matcher.skippingBlanks env' o s = Matcher.skippingBlanks env o s := by
  cases o with
  | matched stop v =>
    rw [Matcher.run_skippingBlanks_matched, Matcher.run_skippingBlanks_matched, h.skip]
  | failed => rfl

theorem scan (h : Alike env env') (label : String) (test : Hook Char Bool) (s : State) :
    Matcher.scan env' label test s = Matcher.scan env label test s := by
  rw [Matcher.run_scan, Matcher.run_scan, h.text]
  simp only [State.advance, h.moveTo]

theorem char (h : Alike env env') (test : Hook Char Bool) (s : State) :
    Matcher.char env' test s = Matcher.char env test s := by
  rw [Matcher.char, Matcher.char, ParseM.run_bind, ParseM.run_bind, h.scan]
  cases Matcher.scan env "Character" test s with
  | ok o t => exact h.skippingBlanks o t
  | error e t => rfl

theorem literal (h : Alike env env') (length : Nat) (test : Hook String Bool) (s : State) :
    Matcher.literal env' length test s = Matcher.literal env length test s := by
  rw [Matcher.run_literal, Matcher.run_literal, h.slice?]
  simp only [State.advance, h.moveTo, h.skip]

theorem entering (h : Alike env env') (s : State) (r : RuleId) :
    s.entering env' r = s.entering env r := h.skip _

theorem leaving (h : Alike env env') (s : State) (r : RuleId) (o : Outcome Value) (t : State) :
    s.leaving env' r o t = s.leaving env r o t := by
  cases o with
  | matched stop v => rfl
  | failed => rw [State.leaving, State.leaving, h.moveTo]

mutual

/-- The dialogue of an expression depends on the text and the blanks only. -/
theorem dialogue (h : Alike env env') (x : Expr) (s : State) :
    x.dialogue env' s = x.dialogue env s := by
  cases x with
  | builtin c => rw [Expr.dialogue, Expr.dialogue]
  | char test => rw [Expr.dialogue, Expr.dialogue, h.char]
  | literal length test => rw [Expr.dialogue, Expr.dialogue, h.literal]
  | empty => rw [Expr.dialogue, Expr.dialogue]
  | fail message => rw [Expr.dialogue, Expr.dialogue]
  | position => rw [Expr.dialogue, Expr.dialogue]
  | rule r => rw [Expr.dialogue, Expr.dialogue]
  | optionalAs label x => rw [Expr.dialogue, Expr.dialogue, dialogue h x s]
  | repeatedAs label x count =>
    rw [Expr.dialogue, Expr.dialogue, h.length, show x.dialogue env' = x.dialogue env from
      funext (dialogue h x)]
    simp only [h.moveTo]
  | lookaheadAs label negated x =>
    rw [Expr.dialogue, Expr.dialogue, dialogue h x s]
    simp only [h.moveTo]
  | sequenceAs label type steps build =>
    rw [Expr.dialogue, Expr.dialogue, stepsDialogue h steps s]
    simp only [h.moveTo]
  | choiceAs label xs => rw [Expr.dialogue, Expr.dialogue, firstDialogue h s.cursor xs s]
  | map type f x => rw [Expr.dialogue, Expr.dialogue, dialogue h x s]

theorem stepsDialogue (h : Alike env env') (steps : List (Step Expr)) (s : State) :
    Expr.stepsDialogue env' steps s = Expr.stepsDialogue env steps s := by
  cases steps with
  | nil => rw [Expr.stepsDialogue, Expr.stepsDialogue]
  | cons step rest =>
    obtain ⟨x, store⟩ := step
    rw [Expr.stepsDialogue, Expr.stepsDialogue, dialogue h x s,
      show Expr.stepsDialogue env' rest = Expr.stepsDialogue env rest from
        funext (stepsDialogue h rest)]

theorem firstDialogue (h : Alike env env') (start : Nat) (xs : List Expr) (s : State) :
    Expr.firstDialogue env' start xs s = Expr.firstDialogue env start xs s := by
  cases xs with
  | nil => rw [Expr.firstDialogue, Expr.firstDialogue]
  | cons x rest =>
    rw [Expr.firstDialogue, Expr.firstDialogue, dialogue h x s,
      show Expr.firstDialogue env' start rest = Expr.firstDialogue env start rest from
        funext (firstDialogue h start rest)]
    simp only [h.moveTo]

end

end Env.Alike

/-- The same run without a limit. -/
def Env.unlimited (env : Env) : Env := { env with limit := none }

/-- The events of a state tell how many rules are open and whether one was refused, and never were
more rules open than the limit allows. -/
structure Logged (env : Env) (s : State) : Prop where
  depth : s.depth = Event.openRules s.events.toList
  refused : s.overflowed = true ↔ ∃ r p, Event.limitReached r p ∈ s.events
  bounded : ∀ limit, env.limit = some limit → Event.deepest s.events.toList ≤ limit

/-- What was refused in `s` and how deep `s` was is still known in `t`. -/
structure Deepens (s t : State) : Prop where
  overflowed : s.overflowed = true → t.overflowed = true
  deepest : Event.deepest s.events.toList ≤ Event.deepest t.events.toList

/-- Two runs that are the same, unless the first one was refused a rule with which the second one
has more than `limit` rules open. -/
def Coincide {α : Type} (limit : Nat) (r r' : Result α) : Prop :=
  r = r' ∨ (r.state.overflowed = true ∧ limit < Event.deepest r'.state.events.toList)

section

variable {env : Env} {limit n : Nat} {key : Key} {s t u : State}

/-! ## What the events tell -/

/-- The rules that are open in the end are among those that count. -/
theorem Event.openRules_le_deepest (events : List Event) : openRules events ≤ deepest events := by
  induction events using List.reverseRecOn with
  | nil => exact Nat.zero_le _
  | append_singleton events e ih =>
    rw [openRules_append, deepest_append]
    exact Nat.le_max_right _ _

/-- A state stays logged if its depth follows the events and a refusal is flagged. -/
theorem Logged.emit (h : Logged env s) (e : Event) (he : t.events = s.events.push e)
    (hd : t.depth = e.opening s.depth)
    (ho : t.overflowed = true ↔ s.overflowed = true ∨ ∃ r p, e = .limitReached r p)
    (hb : ∀ limit, env.limit = some limit → e.opening s.depth ≤ max s.depth limit) :
    Logged env t where
  depth := by rw [hd, he, Array.toList_push, Event.openRules_append, h.depth]
  refused := by
    rw [ho, h.refused, he]
    simp only [Array.mem_push, exists_or, eq_comm]
  bounded limit hlim := by
    have hold := h.bounded limit hlim
    have hopen := Event.openRules_le_deepest s.events.toList
    have hnew := hb limit hlim
    rw [he, Array.toList_push, Event.deepest_append, ← h.depth]
    rw [← h.depth] at hopen
    omega

/-- Every move leaves its state logged. -/
theorem Move.logged (h : Move env s t) (hs : Logged env s) : Logged env t := by
  cases h with
  | work cursor failures => exact ⟨hs.depth, hs.refused, hs.bounded⟩
  | switch on => exact ⟨hs.depth, hs.refused, hs.bounded⟩
  | call journal argument =>
    refine hs.emit (.called journal argument) rfl rfl ?_ fun _ _ => Nat.le_max_left _ _
    simp [State.emit]
  | reuse r p o =>
    cases o with
    | matched stop v =>
      refine hs.emit (.cachedMatch r p) rfl rfl ?_ fun _ _ => Nat.le_max_left _ _
      simp [State.recalled, State.emit]
    | failed =>
      refine hs.emit (.cachedFail r p) rfl rfl ?_ fun _ _ => Nat.le_max_left _ _
      simp [State.recalled, State.emit]
  | refuse r hl =>
    refine hs.emit (.limitReached r s.cursor) rfl rfl ?_ fun _ _ => Nat.le_max_left _ _
    simp [State.emit]
  | enter r hl =>
    refine hs.emit (.attempt r s.cursor) rfl rfl (by simp [State.emit]) fun limit hlim => ?_
    simp only [State.atLimit, hlim, decide_eq_false_iff_not] at hl
    simp only [Event.opening]
    omega
  | leave r p o =>
    cases o with
    | matched stop v =>
      refine hs.emit (.matched r p stop) rfl rfl (by simp [State.closed, State.emit]) fun _ _ => ?_
      simp only [Event.opening]
      omega
    | failed =>
      refine hs.emit (.failed r p) rfl rfl (by simp [State.closed, State.emit]) fun _ _ => ?_
      simp only [Event.opening]
      omega
  | build r b hb => exact ⟨hs.depth, hs.refused, hs.bounded⟩
  | remember p key entry => exact ⟨hs.depth, hs.refused, hs.bounded⟩

theorem Moves.logged (h : Moves env s t) (hs : Logged env s) : Logged env t :=
  h.lift (R := fun s t => Logged env s → Logged env t) (fun _ => id) (fun h h' hs => h' (h hs))
    Move.logged hs

/-- Without a limit no rule is refused. -/
theorem Moves.overflowed_eq (hlim : env.limit = none) (h : Moves env s t) :
    t.overflowed = s.overflowed := by
  refine h.lift (R := fun s t => t.overflowed = s.overflowed) (fun _ => rfl)
    (fun h h' => h'.trans h) ?_
  intro s t hm
  cases hm with
  | refuse r hl => simp [State.atLimit, hlim] at hl
  | _ => rfl

theorem logged_start (env : Env) (g : Grammar) : Logged env (.start env g) where
  depth := rfl
  refused := by simp [State.start]
  bounded limit _ := Nat.zero_le limit

namespace Deepens

theorem refl (s : State) : Deepens s s := ⟨id, Nat.le_refl _⟩

theorem trans (h : Deepens s t) (h' : Deepens t u) : Deepens s u :=
  ⟨fun hs => h'.overflowed (h.overflowed hs), Nat.le_trans h.deepest h'.deepest⟩

theorem emit {e : Event} (ho : s.overflowed = true → t.overflowed = true)
    (he : t.events = s.events.push e) : Deepens s t := by
  refine ⟨ho, ?_⟩
  rw [he, Array.toList_push, Event.deepest_append]
  exact Nat.le_max_left _ _

/-- What was refused stays flagged, and the depth that was reached is kept. -/
theorem of_moves (h : Moves env s t) : Deepens s t := by
  refine h.lift refl trans ?_
  intro s t hm
  cases hm with
  | call | enter | leave => exact .emit id rfl
  | reuse => exact .emit id rfl
  | refuse => exact .emit (fun _ => rfl) rfl
  | work | switch | build | remember => exact ⟨id, Nat.le_refl _⟩

end Deepens

/-! ## Side by side until a rule is refused -/

namespace Coincide

variable {α β : Type}

theorem of_eq {r r' : Result α} (h : r = r') : Coincide limit r r' := Or.inl h

/-- Runs that coincide still do after both went on, if they go on alike. -/
theorem next {r r' : Result α} {q q' : Result β} (h : Coincide limit r r')
    (hq : Deepens r.state q.state) (hq' : Deepens r'.state q'.state)
    (heq : r = r' → Coincide limit q q') : Coincide limit q q' := by
  rcases h with h | ⟨ho, hd⟩
  · exact heq h
  · exact Or.inr ⟨hq.overflowed ho, Nat.lt_of_lt_of_le hd hq'.deepest⟩

end Coincide

theorem alike_unlimited (env : Env) : env.Alike env.unlimited := ⟨rfl, rfl⟩

/-- The work behind an answer is a part of it. -/
theorem answer_deepens (env : Env) (n : Nat) (hk : s.known? env key = none)
    (hl : key.refused env s = false) :
    Deepens (Result.state (produce env n key (s.opened key)))
      (Result.state (answer env n key s)) := by
  rw [answer_unknown hk hl]
  cases produce env n key (s.opened key) with
  | error e t => exact .refl t
  | ok o t =>
    have hend : Moves env t _ := (Moves.settle t key s.cursor s.failures o).trans
      ((Moves.closed _ s.cursor o key).trans (.skippingBlanks o _))
    exact .of_moves hend

/-- A rule that is refused is opened without a limit, which is one too many. -/
theorem deepest_of_refused {r : RuleId} (hlim : env.limit = some limit)
    (hs : Logged env.unlimited s) (hk : s.known? env (.rule r) = none)
    (hl : s.atLimit env = true) :
    limit < Event.deepest (Result.state (answer env.unlimited n (.rule r) s)).events.toList := by
  have hopen : limit < Event.deepest (s.opened (.rule r)).events.toList := by
    simp only [State.atLimit, hlim, decide_eq_true_eq] at hl
    change limit < Event.deepest (s.events.push (.attempt r s.cursor)).toList
    rw [Array.toList_push, Event.deepest_append, ← hs.depth, Event.opening]
    omega
  have hwork := Deepens.of_moves (produce_moves env.unlimited n (.rule r) (s.opened (.rule r)))
  have hend : Deepens _ (Result.state (answer env.unlimited n (.rule r) s)) :=
    answer_deepens env.unlimited n hk rfl
  exact Nat.lt_of_lt_of_le hopen (hwork.trans hend).deepest

/-- Answers coincide if the work behind them does: until the limit is hit both runs recall and
refuse the same. -/
theorem answer_coincides_of_produce (hlim : env.limit = some limit)
    (hp : ∀ s, Logged env.unlimited s →
      Coincide limit (produce env n key s) (produce env.unlimited n key s))
    (hs : Logged env.unlimited s) :
    Coincide limit (answer env n key s) (answer env.unlimited n key s) := by
  have henv := alike_unlimited env
  rcases answer_cases env key s with ⟨entry, hk⟩ | ⟨r, rfl, hk, hl⟩ | ⟨hk, hl⟩
  · have hk' : s.known? env.unlimited key = some entry := hk
    rw [answer_known hk, answer_known hk']
    simp only [henv.skippingBlanks]
    exact .of_eq rfl
  · refine Or.inr ⟨?_, deepest_of_refused hlim hs hk hl⟩
    rw [answer_refused hk hl]
    rfl
  · have hl' : key.refused env.unlimited s = false := by cases key <;> rfl
    have hk' : s.known? env.unlimited key = none := hk
    have hopen : Moves env.unlimited s (s.opened key) := .opened hl'
    refine (hp _ (hopen.logged hs)).next (answer_deepens env n hk hl)
      (answer_deepens env.unlimited n hk' hl') fun heq => .of_eq ?_
    rw [answer_unknown hk hl, answer_unknown hk' hl', heq]
    simp only [henv.skippingBlanks]
    rfl

/-- A dialogue comes to the same unless one of its questions was refused. -/
theorem Linked.coincide {α : Type} {d d' : Dialogue α}
    (hf : ∀ key s, Logged env.unlimited s →
      Coincide limit (answer env n key s) (answer env.unlimited n key s))
    (h : Linked env env #[] #[] s t d d') (hs : Logged env.unlimited s) :
    Coincide limit (d.run (answer env n)) (d.run (answer env.unlimited n)) := by
  induction h with
  | done hu hw huw a => exact .of_eq rfl
  | halt hu hw huw e => exact .of_eq rfl
  | @ask s t u w hu hw huw key next next' hnext ih =>
    have hlu : Logged env.unlimited u := (Moves.of_works hu).logged hs
    have hrest : ∀ env' : Env, Deepens (Result.state (answer env' n key u))
        ((Dialogue.ask key u next).run (answer env' n)).state := by
      intro env'
      rw [Dialogue.run_ask]
      cases answer env' n key u with
      | error e v => exact .refl v
      | ok o v => exact .of_moves ((hnext o v v (.refl v)).moves (answer_moves env' n))
    refine (hf key u hlu).next (hrest env) (hrest env.unlimited) fun heq => ?_
    rw [Dialogue.run_ask, Dialogue.run_ask, heq]
    have hmoves := answer_moves env.unlimited n key u
    cases hr : answer env.unlimited n key u with
    | error e v => exact .of_eq rfl
    | ok o v =>
      rw [hr] at hmoves
      exact ih o v v (.refl v) (hmoves.logged hlu)

/-- With and without a limit the work behind a key is the same until a rule is refused. -/
theorem produce_coincides (hlim : env.limit = some limit) (n : Nat) (key : Key) (s : State)
    (hs : Logged env.unlimited s) :
    Coincide limit (produce env n key s) (produce env.unlimited n key s) := by
  have henv := alike_unlimited env
  induction n generalizing key s with
  | zero =>
    cases key with
    | builtin c => exact .of_eq (henv.scan _ _ s).symm
    | rule r => exact .of_eq rfl
  | succ n ih =>
    cases key with
    | builtin c => exact .of_eq (henv.scan _ _ s).symm
    | rule r =>
      have hf : ∀ key s, Logged env.unlimited s →
          Coincide limit (answer env n key s) (answer env.unlimited n key s) :=
        fun key s hs => answer_coincides_of_produce hlim (fun s hs => ih key s hs) hs
      have hmoves : Moves env.unlimited s _ := (Moves.entering s r).trans (.body? r _)
      rw [henv.entering] at hmoves
      rw [produce_succ, produce_succ, henv.entering]
      simp only [henv.leaving]
      cases hb : Matcher.body? r (s.entering env r) with
      | error e t => exact .of_eq rfl
      | ok x t =>
        cases x with
        | none => exact .of_eq rfl
        | some x =>
          rw [hb] at hmoves
          dsimp only
          rw [henv.dialogue]
          -- leaving a rule ends an attempt, which is not deeper than the attempt itself
          have hend : ∀ o u, Deepens u (s.leaving env r o u) := by
            intro o u
            have hmoves : Moves env u (s.leaving env r o u) := .leaving s r o u
            exact .of_moves hmoves
          refine ((x.linked_self env t).coincide hf (hmoves.logged hs)).next ?_ ?_
            fun heq => .of_eq (by rw [heq])
          · cases (x.dialogue env t).run (answer env n) with
            | error e u => exact .refl u
            | ok o u => exact hend o u
          · cases (x.dialogue env t).run (answer env.unlimited n) with
            | error e u => exact .refl u
            | ok o u => exact hend o u

/-- An answer is the one of the run without a limit, unless a rule is refused. -/
theorem answer_coincides (hlim : env.limit = some limit) (n : Nat) (key : Key) (s : State)
    (hs : Logged env.unlimited s) :
    Coincide limit (answer env n key s) (answer env.unlimited n key s) :=
  answer_coincides_of_produce hlim (produce_coincides hlim n key) hs

/-- An evaluation is the one without a limit, unless a rule is refused. Without a limit it may have
no end; then a rule is refused. -/
theorem Expr.evaluate_coincides (hlim : env.limit = some limit) (x : Expr) (hs : Sane env s)
    (hm : MemoSound env.unlimited s) (hlog : Logged env.unlimited s) :
    (¬ Result.Exhausted (x.evaluate env.unlimited s) →
      Coincide limit (x.evaluate env s) (x.evaluate env.unlimited s)) ∧
    (Result.Exhausted (x.evaluate env.unlimited s) →
      (Result.state (x.evaluate env s)).overflowed = true) := by
  obtain ⟨n, hn, hfree⟩ : ∃ n, limit ≤ n ∧ headroom env.unlimited s.grammar ≤ n :=
    ⟨_, Nat.le_max_left _ _, Nat.le_max_right _ _⟩
  have hlimited : (x.dialogue env s).run (answer env n) = x.evaluate env s := by
    rw [← x.matcher_eq_evaluate hlim hs hn, x.matcher_eq_run, answer]
  have hcoin := (x.linked_self env s).coincide (answer_coincides hlim n) hlog
  rw [hlimited, ← (alike_unlimited env).dialogue] at hcoin
  refine ⟨fun hne => ?_, fun hex => ?_⟩
  · rw [Expr.evaluate_eq_run env.unlimited] at hne ⊢
    rw [Dialogue.run_mono env.unlimited hfree _ hne] at hcoin
    exact hcoin
  · have hs' : Sane env.unlimited s := ⟨hs.cursor, hs.memo⟩
    have hdiv := (exhausted_iff_diverges rfl x hs' hm).mp hex n
    rw [exhausted_matcher_iff] at hdiv
    rcases hcoin with heq | ⟨ho, -⟩
    · rw [← heq] at hdiv
      exact absurd hdiv (x.evaluate_not_exhausted hlim hs)
    · exact ho

end

/-! ## Whole texts -/

/-- The largest number of rules that are open at a time during a parse; without end if the parse has
none. -/
def Report.nesting (report : Report) : ℕ∞ :=
  match report.answer with
  | .error .exhausted => ⊤
  | _ => Event.deepest report.events

/-- The report of what came of a parse. -/
def Report.ofResult : Result (Except Rejection Value) → Report
  | .ok answer s => ⟨.ok answer, s.events.toList, s.grammar⟩
  | .error halt s => ⟨.error halt, s.events.toList, s.grammar⟩

/-- After the root rule a parse notes at most how it went. -/
theorem parseText_events (env : Env) (r : RuleId) (s : State) :
    let ended := (Result.state ((Expr.rule r).evaluate env s)).events
    let events := (Result.state (parseText env r s)).events
    events = ended ∨ ∃ e, events = ended.push e ∧ (∀ n, e.opening n = n) ∧
      ∀ r' p, e ≠ .limitReached r' p := by
  intro ended events
  have hevents : events = (Result.state (parseText env r s)).events := rfl
  have hended : ended = (Result.state ((Expr.rule r).evaluate env s)).events := rfl
  rw [run_parseText] at hevents
  cases hr : (Expr.rule r).evaluate env s with
  | error e t =>
    rw [hr] at hevents hended
    exact Or.inl (hevents.trans hended.symm)
  | ok o t =>
    rw [hr] at hevents hended
    right
    cases o with
    | failed =>
      exact ⟨.rejected r _, by rw [hevents, hended]; rfl, fun _ => rfl, fun _ _ => nofun⟩
    | matched stop v =>
      dsimp only at hevents
      split at hevents
      · exact ⟨.parsed r _, by rw [hevents, hended]; rfl, fun _ => rfl, fun _ _ => nofun⟩
      · exact ⟨.stopped r _ _, by rw [hevents, hended]; rfl, fun _ => rfl, fun _ _ => nofun⟩

theorem deepest_parseText (env : Env) (r : RuleId) (s : State) :
    Event.deepest (Result.state (parseText env r s)).events.toList =
      Event.deepest (Result.state ((Expr.rule r).evaluate env s)).events.toList := by
  rcases parseText_events env r s with h | ⟨e, h, hopen, -⟩
  · rw [h]
  · rw [h, Array.toList_push, Event.deepest_append, hopen]
    exact Nat.max_eq_left (Event.openRules_le_deepest _)

theorem limitReached_parseText (env : Env) (r : RuleId) (s : State) (r' : RuleId) (p : Nat) :
    Event.limitReached r' p ∈ (Result.state (parseText env r s)).events ↔
      .limitReached r' p ∈ (Result.state ((Expr.rule r).evaluate env s)).events := by
  rcases parseText_events env r s with h | ⟨e, h, -, hne⟩
  · rw [h]
  · rw [h, Array.mem_push]
    exact or_iff_left (Ne.symm (hne r' p))

/-- A parse ends exactly where the evaluation of its root does. -/
theorem exhausted_parseText (env : Env) (r : RuleId) (s : State) :
    Result.Exhausted (parseText env r s) ↔ Result.Exhausted ((Expr.rule r).evaluate env s) := by
  rw [run_parseText]
  cases (Expr.rule r).evaluate env s with
  | error e t => cases e <;> rfl
  | ok o t =>
    cases o with
    | failed => exact iff_of_false (Result.exhausted_ok _ _) (Result.exhausted_ok _ _)
    | matched stop v =>
      dsimp only
      split <;> exact iff_of_false (Result.exhausted_ok _ _) (Result.exhausted_ok _ _)

/-- A parse is a run from the start, of which the answer, the events and the grammar are reported.
-/
theorem Grammar.parse_eq (g : Grammar) (r : RuleId) (config : Config) (text : String) :
    g.parse r config text =
      .ofResult (parseText (.ofText text config) r (.start (.ofText text config) g)) := by
  rw [Grammar.parse]
  cases parseText (.ofText text config) r (.start (.ofText text config) g) <;> rfl

theorem Grammar.parse_events (g : Grammar) (r : RuleId) (config : Config) (text : String) :
    (g.parse r config text).events = (Result.state (parseText (.ofText text config) r
      (.start (.ofText text config) g))).events.toList := by
  rw [g.parse_eq]
  cases parseText (.ofText text config) r (.start (.ofText text config) g) <;> rfl

/-- The nesting of a parse is that of the evaluation of its root. -/
theorem Grammar.nesting_parse (g : Grammar) (r : RuleId) (config : Config) (text : String) :
    let ended := (Expr.rule r).evaluate (.ofText text config) (.start (.ofText text config) g)
    (Result.Exhausted ended → (g.parse r config text).nesting = ⊤) ∧
    (¬ Result.Exhausted ended →
      (g.parse r config text).nesting = Event.deepest (Result.state ended).events.toList) := by
  dsimp only
  have hdeep := deepest_parseText (.ofText text config) r (.start (.ofText text config) g)
  have hexh := exhausted_parseText (.ofText text config) r (.start (.ofText text config) g)
  rw [← hexh, ← hdeep, g.parse_eq]
  cases parseText (.ofText text config) r (.start (.ofText text config) g) with
  | ok a t => exact ⟨fun h => absurd h (Result.exhausted_ok a t), fun _ => rfl⟩
  | error e t =>
    cases e with
    | exhausted => exact ⟨fun _ => rfl, fun h => absurd trivial h⟩
    | fault f => exact ⟨fun h => absurd h (by simp), fun _ => rfl⟩

/-- The nesting of a parse is infinite exactly where its root diverges. -/
theorem Grammar.nesting_eq_top_iff (g : Grammar) (r : RuleId) (text : String)
    (blanks : List Char) :
    (g.parse r { blanks } text).nesting = ⊤ ↔
      (Expr.rule r).Diverges (.ofText text { blanks }) (.start (.ofText text { blanks }) g) := by
  obtain ⟨htop, hdeep⟩ := g.nesting_parse r { blanks } text
  have hiff := exhausted_iff_diverges rfl (.rule r) (sane_start (.ofText text { blanks }) g)
    (memoSound_start _ g)
  rw [← hiff]
  constructor
  · intro h
    by_contra hne
    rw [hdeep hne] at h
    exact ENat.natCast_ne_top _ h
  · exact htop

section

variable {g : Grammar} {r : RuleId} {text : String} {blanks : List Char} {limit : Nat}

/-- A limit that is not below the nesting changes nothing, up to the last state. -/
theorem Grammar.evaluate_eq_of_nesting_le (h : (g.parse r { blanks } text).nesting ≤ limit) :
    let free := Env.ofText text { blanks }
    let limited := Env.ofText text { blanks, limit := some limit }
    (Expr.rule r).evaluate limited (.start limited g) =
      (Expr.rule r).evaluate free (.start free g) := by
  intro free limited
  obtain ⟨htop, hdeep⟩ := g.nesting_parse r { blanks } text
  have hne : ¬ Result.Exhausted ((Expr.rule r).evaluate free (.start free g)) := by
    intro hex
    rw [htop hex] at h
    exact absurd h (by simp)
  rw [hdeep hne, Nat.cast_le] at h
  have hcoin := (Expr.evaluate_coincides rfl (.rule r) (sane_start limited g)
    (memoSound_start free g) (logged_start free g)).1 hne
  exact hcoin.resolve_right fun hov => absurd h (Nat.not_le.mpr hov.2)

/-- A limit below the nesting is hit. -/
theorem Grammar.overflowed_of_lt_nesting (h : limit < (g.parse r { blanks } text).nesting) :
    let limited := Env.ofText text { blanks, limit := some limit }
    (Result.state ((Expr.rule r).evaluate limited (.start limited g))).overflowed = true := by
  intro limited
  obtain ⟨htop, hdeep⟩ := g.nesting_parse r { blanks } text
  have hlogged := (Expr.evaluate_moves limited (.rule r) _).logged (logged_start limited g)
  obtain ⟨hsame, hrefused⟩ := Expr.evaluate_coincides rfl (.rule r)
    (sane_start limited g) (memoSound_start (Env.ofText text { blanks }) g) (logged_start _ g)
  by_cases hex : Result.Exhausted ((Expr.rule r).evaluate (.ofText text { blanks })
    (.start (.ofText text { blanks }) g))
  · exact hrefused hex
  · rcases hsame hex with heq | ⟨hov, -⟩
    · -- the same run without a limit would not have gone deeper than the limit
      have hbound := hlogged.bounded limit rfl
      rw [heq] at hbound
      rw [hdeep hex, Nat.cast_lt] at h
      exact absurd h (Nat.not_lt.mpr hbound)
    · exact hov

/-- A parse with a limit ends, with an answer or a fault. -/
theorem Grammar.parse_ends (g : Grammar) (r : RuleId) (text : String) (blanks : List Char)
    (limit : Nat) :
    (∃ answer, (g.parse r { blanks, limit := some limit } text).answer = .ok answer) ∨
      ∃ f, (g.parse r { blanks, limit := some limit } text).answer = .error (.fault f) ∧
        g.Faults f := by
  rw [g.parse_answer]
  rcases (Expr.rule r).evaluate_ends rfl
    (sane_start (.ofText text { blanks, limit := some limit }) g) with ⟨o, t, ht⟩ | ⟨f, t, ht, hf⟩
  · rw [ht]
    left
    cases o with
    | failed => exact ⟨_, rfl⟩
    | matched stop v =>
      dsimp only
      split <;> exact ⟨_, rfl⟩
  · rw [ht]
    exact Or.inr ⟨f, rfl, hf.resolve_left (by simp [Expr.Faults])⟩

/-- A refusal among the events of a parse is one in the evaluation of its root. -/
theorem Grammar.limitReached_iff (g : Grammar) (r : RuleId) (text : String) (config : Config) :
    (∃ r' p, .limitReached r' p ∈ (g.parse r config text).events) ↔
      (Result.state ((Expr.rule r).evaluate (.ofText text config)
        (.start (.ofText text config) g))).overflowed = true := by
  have hlogged := (Expr.evaluate_moves (.ofText text config) (.rule r) _).logged
    (logged_start (.ofText text config) g)
  rw [hlogged.refused, g.parse_events]
  simp only [Array.mem_toList_iff, limitReached_parseText]

end

/-- A limit shows exactly if it is below the largest number of rules that are open at a time without
one. If it is not, then the parse ends in the same state with the same answer, memo and events, and
no rule is refused. If it is, then the parse ends, and a rule is refused. -/
theorem Grammar.parse_limit_exact (g : Grammar) (r : RuleId) (text : String) (blanks : List Char)
    (limit : Nat) :
    let free := Env.ofText text { blanks }
    let limited := Env.ofText text { blanks, limit := some limit }
    let report := g.parse r { blanks, limit := some limit } text
    let nesting := (g.parse r { blanks } text).nesting
    (nesting = ⊤ ↔ (Expr.rule r).Diverges free (.start free g)) ∧
    (nesting ≤ limit →
      parseText limited r (.start limited g) = parseText free r (.start free g) ∧
      report = g.parse r { blanks } text ∧ ¬ ∃ r' p, .limitReached r' p ∈ report.events) ∧
    (limit < nesting →
      ((∃ answer, report.answer = .ok answer) ∨
        ∃ f, report.answer = .error (.fault f) ∧ g.Faults f) ∧
      ∃ r' p, .limitReached r' p ∈ report.events) := by
  intro free limited report nesting
  refine ⟨g.nesting_eq_top_iff r text blanks, fun hle => ?_, fun hlt => ?_⟩
  · have heq : (Expr.rule r).evaluate limited (.start limited g) =
        (Expr.rule r).evaluate free (.start free g) := Grammar.evaluate_eq_of_nesting_le hle
    have hparse : parseText limited r (.start limited g) = parseText free r (.start free g) := by
      rw [run_parseText, run_parseText, heq]
      rfl
    have hreport : report = g.parse r { blanks } text :=
      (g.parse_eq r _ text).trans ((congrArg Report.ofResult hparse).trans
        (g.parse_eq r _ text).symm)
    refine ⟨hparse, hreport, fun hmem => ?_⟩
    rw [hreport, g.limitReached_iff, (Expr.evaluate_moves free (.rule r) _).overflowed_eq rfl]
      at hmem
    cases hmem
  · exact ⟨g.parse_ends r text blanks limit,
      (g.limitReached_iff r text _).mpr (Grammar.overflowed_of_lt_nesting hlt)⟩

/-- A digit opens one rule, so one is enough and none is too few. A rule that begins with itself
has no end, so no limit is enough. -/
theorem Grammar.parse_limit_exact_digits :
    (Grammar.digits.parse ⟨0, "digit"⟩ {} "7").nesting = 1 ∧
      Grammar.digits.parse ⟨0, "digit"⟩ { limit := some 1 } "7" =
        Grammar.digits.parse ⟨0, "digit"⟩ {} "7" ∧
      (∃ r p, .limitReached r p ∈
        (Grammar.digits.parse ⟨0, "digit"⟩ { limit := some 0 } "7").events) ∧
      ∃ r p, .limitReached r p ∈
        (Grammar.digits.parse ⟨1, "loop"⟩ { limit := some 5 } "7").events := by
  have hone : (Grammar.digits.parse ⟨0, "digit"⟩ {} "7").nesting = 1 := rfl
  have hloop : (Grammar.digits.parse ⟨1, "loop"⟩ {} "7").nesting = ⊤ :=
    (Grammar.digits.nesting_parse ⟨1, "loop"⟩ {} "7").1 (by decide +kernel)
  have hdigit := Grammar.parse_limit_exact .digits ⟨0, "digit"⟩ "7" defaultBlanks
  have hle : (Grammar.digits.parse ⟨0, "digit"⟩ {} "7").nesting ≤ (1 : Nat) := by rw [hone]; rfl
  have hlt : (0 : Nat) < (Grammar.digits.parse ⟨0, "digit"⟩ {} "7").nesting := by rw [hone]; simp
  have hlt' : (5 : Nat) < (Grammar.digits.parse ⟨1, "loop"⟩ {} "7").nesting := by
    rw [hloop]
    exact ENat.natCast_lt_top 5
  exact ⟨hone, ((hdigit 1).2.1 hle).2.1, ((hdigit 0).2.2 hlt).2,
    ((Grammar.parse_limit_exact .digits ⟨1, "loop"⟩ "7" defaultBlanks 5).2.2 hlt').2⟩

end Packrat
