import Packrat.Expr.Build
import Packrat.Proofs.Limit
import Packrat.Proofs.Permanence
import Packrat.Proofs.Visits

/-!
# Recovering from the limit

A rule that is refused fails like any other, so what stands around it may recover: a choice tries
its next alternative, an option and a repetition end without it, and a negated lookahead matches.
A limit can therefore change what is accepted (`Grammar.shy`).

This is the only way. If an evaluation matches although the limit was hit in it, then it recovered
where the limit was hit for the first time (`Expr.recovers_of_hits`). Up to there the run without
the limit goes the same way, so a match without recovery is one without the limit too.
-/

namespace Packrat

/-- The limit is hit in an evaluation, for the first time. -/
structure Matcher.Hits (m : Matcher) (s : State) (o : Outcome Value) (t : State) : Prop where
  run : m s = .ok o t
  before : s.overflowed = false
  after : t.overflowed = true

namespace Expr

/-- The forms that may match although a part of them fails. -/
def Forgiving : Expr → Prop
  | .optionalAs _ _ | .repeatedAs _ _ _ | .choiceAs _ _ => True
  | .lookaheadAs _ negated _ => negated = true
  | _ => False

/-- The limit is hit, for the first time, in a part of an evaluation. -/
def HitsInPart (env : Env) (call : RuleId → Matcher) (x : Expr) (s : State) : Prop :=
  ∃ y w o w', x.Part env call s y w ∧ (y.matcher env call).Hits w o w'

/-- Somewhere in an evaluation a forgiving expression matches although a part of it fails, the one
in which the limit is hit for the first time. -/
def Recovers (env : Env) (n : Nat) (x : Expr) (s : State) : Prop :=
  ∃ rules k y u, x.Visits env n s rules k y u ∧ y.Forgiving ∧
    (∃ stop v t, y.matcher env (callRule env k) u = .ok (.matched stop v) t) ∧
    ∃ z w w', y.Part env (callRule env k) u z w ∧
      (z.matcher env (callRule env k)).Hits w .failed w'

end Expr

section

variable {env : Env} {call : RuleId → Matcher} {n k : Nat} {x y : Expr} {s t u w : State}
  {o : Outcome Value} {stop : Nat} {v : Value} {rules : List RuleId}

/-! ## The part in which the limit is hit -/

/-- If the limit is hit in a loop, it is hit in one of its rounds. -/
theorem exists_hit_of_collect {count : Count} {budget : Nat} {items items' : Array Value}
    (h : Matcher.collect count (x.matcher env call) budget items s = .ok items' t)
    (hs : s.overflowed = false) (ht : t.overflowed = true) :
    ∃ left items'' w o w',
      Matcher.Iterates count (x.matcher env call) budget items s (left + 1) items'' w ∧
      count.isFull items''.size = false ∧ (x.matcher env call).Hits w o w' := by
  induction budget generalizing items s with
  | zero => cases h
  | succ budget ih =>
    rw [Matcher.run_collect_succ] at h
    by_cases hfull : count.isFull items.size = true
    · rw [if_pos hfull] at h
      cases h
      rw [hs] at ht
      cases ht
    · rw [if_neg hfull] at h
      have hopen : count.isFull items.size = false := by simpa using hfull
      cases hr : x.matcher env call s with
      | error e u => rw [hr] at h; cases h
      | ok o u =>
        rw [hr] at h
        cases hu : u.overflowed with
        | true => exact ⟨budget, items, s, o, u, .start _ _ _, hopen, hr, hs, hu⟩
        | false =>
          cases o with
          | failed => cases h; rw [hu] at ht; cases ht
          | matched stop v =>
            dsimp only at h
            split at h
            · cases h; rw [hu] at ht; cases ht
            next hgo =>
              obtain ⟨left, items'', w, o, w', hi, hw, hhit⟩ := ih h hu
              exact ⟨left, items'', w, o, w', .next hopen hr hgo hi, hw, hhit⟩

/-- If it is hit in steps in a row, it is hit in one of them, behind others that matched. -/
theorem exists_hit_of_runSteps {steps : List (Step Expr)} {slots : Option Slots}
    (h : Matcher.runSteps (Expr.stepMatchers env call steps) s = .ok slots t)
    (hs : s.overflowed = false) (ht : t.overflowed = true) :
    ∃ done y store rest slots' w o w', steps = done ++ ⟨y, store⟩ :: rest ∧
      Matcher.runSteps (Expr.stepMatchers env call done) s = .ok (some slots') w ∧
      (y.matcher env call).Hits w o w' := by
  induction steps generalizing s slots t with
  | nil =>
    cases h
    rw [hs] at ht
    cases ht
  | cons step rest ih =>
    obtain ⟨x, store⟩ := step
    rw [Expr.stepMatchers, Matcher.run_runSteps_cons] at h
    dsimp only at h
    cases hr : x.matcher env call s with
    | error e u => rw [hr] at h; cases h
    | ok o u =>
      rw [hr] at h
      cases hu : u.overflowed with
      | true => exact ⟨[], x, store, rest, [], s, o, u, rfl, rfl, hr, hs, hu⟩
      | false =>
        cases o with
        | failed => cases h; rw [hu] at ht; cases ht
        | matched stop v =>
          dsimp only at h
          cases hw : Matcher.runSteps (Expr.stepMatchers env call rest) u with
          | error e w => rw [hw] at h; cases h
          | ok slots' w =>
            have hwt : w = t := by rw [hw] at h; cases slots' <;> cases h <;> rfl
            obtain ⟨done, y, store', rest', slots'', u', o, w', rfl, hdone, hhit⟩ :=
              ih hw hu (hwt ▸ ht)
            refine ⟨⟨x, store⟩ :: done, y, store', rest', store.map (⟨·, v⟩) :: slots'', u', o, w',
              rfl, ?_, hhit⟩
            rw [Expr.stepMatchers, Matcher.run_runSteps_cons]
            dsimp only
            rw [hr]
            dsimp only
            rw [hdone]

/-- If it is hit in alternatives in a row, it is hit in one of them, behind others that failed. -/
theorem exists_hit_of_firstOf {xs : List Expr} {start : Nat}
    (h : Matcher.firstOf env start (Expr.matchers env call xs) s = .ok o t)
    (hs : s.overflowed = false) (ht : t.overflowed = true) :
    ∃ tried y rest w o' w', xs = tried ++ y :: rest ∧
      Matcher.firstOf env start (Expr.matchers env call tried) s = .ok .failed w ∧
      (y.matcher env call).Hits w o' w' := by
  induction xs generalizing s with
  | nil =>
    cases h
    rw [hs] at ht
    cases ht
  | cons x rest ih =>
    rw [Expr.matchers, Matcher.run_firstOf_cons] at h
    cases hr : x.matcher env call s with
    | error e u => rw [hr] at h; cases h
    | ok o' u =>
      rw [hr] at h
      cases hu : u.overflowed with
      | true => exact ⟨[], x, rest, s, o', u, rfl, rfl, hr, hs, hu⟩
      | false =>
        cases o' with
        | matched stop v => cases h; rw [hu] at ht; cases ht
        | failed =>
          obtain ⟨tried, y, rest', w, o', w', rfl, htried, hhit⟩ := ih h hu
          refine ⟨x :: tried, y, rest', w, o', w', rfl, ?_, hhit⟩
          rw [Expr.matchers, Matcher.run_firstOf_cons, hr]
          exact htried

theorem builtin_overflowed {c : CharClass} (h : Matcher.builtin env c s = .ok o t) :
    t.overflowed = s.overflowed := by
  have ha : answer env 0 (.builtin c) s = .ok o t := h
  rcases answer_cases env (.builtin c) s with ⟨entry, hk⟩ | ⟨r, hr, -, -⟩ | ⟨hk, hl⟩
  · exact (still_of_known hk ha).overflowed
  · cases hr
  · obtain ⟨o', u, hp, hend⟩ := answer_worked hk hl ha
    obtain ⟨o'', u', hu', hw⟩ := exists_produce_builtin env 0 c (s.opened (.builtin c))
    rw [hu'] at hp
    cases hp
    have hov := (still_closing hend).overflowed
    rw [State.settle_eq] at hov
    exact hov.trans hw.overflowed

theorem Expr.works_of_done (x : Expr) (h : x.dialogue env s = .done o t) : s.Works env t := by
  have hl := x.linked_self env s
  rw [h] at hl
  cases hl with
  | done hu _ _ _ => exact hu

namespace Expr.HitsInPart

theorem of_optional {label : String} (h : ((optionalAs label y).matcher env call).Hits s o t) :
    (optionalAs label y).HitsInPart env call s := by
  obtain ⟨hr, hs, ht⟩ := h
  rw [matcher, Matcher.run_optional] at hr
  cases hy : y.matcher env call s with
  | error e u => rw [hy] at hr; cases hr
  | ok o' u =>
    rw [hy] at hr
    refine ⟨y, s, o', u, .optional label y s, hy, hs, ?_⟩
    cases o' <;> cases hr <;> exact ht

/-- In a repetition the limit is hit in one of the attempts. -/
theorem of_repeated {label : String} {count : Count}
    (h : ((repeatedAs label y count).matcher env call).Hits s o t) :
    (repeatedAs label y count).HitsInPart env call s := by
  obtain ⟨hr, hs, ht⟩ := h
  rw [matcher, Matcher.run_repeated] at hr
  cases hc : Matcher.collect count (y.matcher env call)
      (count.least + (env.length - s.cursor) + 1) #[] s with
  | error e u => rw [hc] at hr; cases hr
  | ok items u =>
    rw [hc] at hr
    dsimp only at hr
    have hu : u.overflowed = true := by split at hr <;> cases hr <;> exact ht
    obtain ⟨left, items', w, o', w', hi, hopen, hhit⟩ := exists_hit_of_collect hc hs hu
    exact ⟨y, w, o', w', .repeated label hi hopen, hhit⟩

theorem of_lookahead {label : String} {negated : Bool}
    (h : ((lookaheadAs label negated y).matcher env call).Hits s o t) :
    (lookaheadAs label negated y).HitsInPart env call s := by
  obtain ⟨hr, hs, ht⟩ := h
  rw [matcher, Matcher.run_lookahead] at hr
  cases hy : y.matcher env call s with
  | error e u => rw [hy] at hr; cases hr
  | ok o' u =>
    rw [hy] at hr
    dsimp only at hr
    refine ⟨y, s, o', u, .lookahead label negated y s, hy, hs, ?_⟩
    split at hr <;> cases hr <;> exact ht

/-- In a sequence the limit is hit in one of the steps; the build function opens no rules. -/
theorem of_sequence {label : String} {type : ValueType} {steps : List (Step Expr)}
    {build : Hook Slots (Except Fault Value)}
    (h : ((sequenceAs label type steps build).matcher env call).Hits s o t) :
    (sequenceAs label type steps build).HitsInPart env call s := by
  obtain ⟨hr, hs, ht⟩ := h
  rw [matcher, Matcher.run_sequence] at hr
  cases hc : Matcher.runSteps (stepMatchers env call steps) s with
  | error e u => rw [hc] at hr; cases hr
  | ok slots u =>
    rw [hc] at hr
    have hu : u.overflowed = true := by
      cases slots with
      | none => cases hr; exact ht
      | some slots =>
        dsimp only at hr
        cases hb : build.apply slots with
        | error f => rw [hb] at hr; cases hr
        | ok v =>
          rw [hb] at hr
          cases hr
          rw [(State.Works.note env _ _ _ _).overflowed] at ht
          exact ht
    obtain ⟨done, y, store, rest, slots', w, o', w', rfl, hdone, hhit⟩ :=
      exists_hit_of_runSteps hc hs hu
    exact ⟨y, w, o', w', .step label type build y store rest hdone, hhit⟩

/-- In a choice the limit is hit in one of the alternatives that are tried. -/
theorem of_choice {label : String} {xs : List Expr}
    (h : ((choiceAs label xs).matcher env call).Hits s o t) :
    (choiceAs label xs).HitsInPart env call s := by
  obtain ⟨hr, hs, ht⟩ := h
  rw [matcher, Matcher.run_choice] at hr
  cases hc : Matcher.firstOf env s.cursor (matchers env call xs) s with
  | error e u => rw [hc] at hr; cases hr
  | ok o' u =>
    rw [hc] at hr
    have hu : u.overflowed = true := by cases o' <;> cases hr <;> exact ht
    obtain ⟨tried, y, rest, w, o', w', rfl, htried, hhit⟩ := exists_hit_of_firstOf hc hs hu
    exact ⟨y, w, o', w', .alternative label y rest htried, hhit⟩

theorem of_map {type : ValueType} {f : Hook Value Value}
    (h : ((Expr.map type f y).matcher env call).Hits s o t) :
    (Expr.map type f y).HitsInPart env call s := by
  obtain ⟨hr, hs, ht⟩ := h
  rw [matcher, Matcher.run_map] at hr
  cases hy : y.matcher env call s with
  | error e u => rw [hy] at hr; cases hr
  | ok o' u =>
    rw [hy] at hr
    refine ⟨y, s, o', u, .map type f y s, hy, hs, ?_⟩
    cases o' with
    | failed => cases hr; exact ht
    | matched stop v =>
      cases hr
      rw [(State.Works.note env _ _ _ _).overflowed] at ht
      exact ht

end Expr.HitsInPart

/-- An evaluation that asks nothing does not hit the limit. -/
theorem Expr.not_hits_of_done (h : x.dialogue env s = .done o t) :
    ¬ (x.matcher env call).Hits s o t := by
  rintro ⟨-, hs, ht⟩
  rw [(x.works_of_done h).overflowed, hs] at ht
  cases ht

/-- The limit is hit in a rule or in a part. -/
theorem Expr.exists_hit (h : (x.matcher env call).Hits s o t) :
    (∃ r, x = .rule r) ∨ x.HitsInPart env call s := by
  cases x with
  | builtin c =>
    obtain ⟨hr, hs, ht⟩ := h
    rw [builtin_overflowed hr, hs] at ht
    cases ht
  | char test =>
    have hd : (Expr.char test).dialogue env s = .done o t := by
      rw [dialogue, show Matcher.char env test s = _ from h.run]
      rfl
    exact absurd h (not_hits_of_done hd)
  | literal length test =>
    have hd : (Expr.literal length test).dialogue env s = .done o t := by
      rw [dialogue, show Matcher.literal env length test s = _ from h.run]
      rfl
    exact absurd h (not_hits_of_done hd)
  | empty | fail message | position =>
    have hr := h.run
    cases hr
    exact absurd h (not_hits_of_done rfl)
  | rule r => exact .inl ⟨r, rfl⟩
  | optionalAs label y => exact .inr (.of_optional h)
  | repeatedAs label y count => exact .inr (.of_repeated h)
  | lookaheadAs label negated y => exact .inr (.of_lookahead h)
  | sequenceAs label type steps build => exact .inr (.of_sequence h)
  | choiceAs label xs => exact .inr (.of_choice h)
  | map type f y => exact .inr (.of_map h)

/-! ## Recovery -/

theorem runSteps_failed {done : List (Step Expr)} {slots : Slots} (store : Option ValueType)
    (rest : List (Step Expr))
    (h : Matcher.runSteps (Expr.stepMatchers env call done) s = .ok (some slots) t)
    (hy : y.matcher env call t = .ok .failed u) :
    Matcher.runSteps (Expr.stepMatchers env call (done ++ ⟨y, store⟩ :: rest)) s =
      .ok none u := by
  induction done generalizing s slots t with
  | nil =>
    cases h
    rw [List.nil_append, Expr.stepMatchers, Matcher.run_runSteps_cons]
    dsimp only
    rw [hy]
  | cons step done ih =>
    obtain ⟨x, store'⟩ := step
    rw [Expr.stepMatchers, Matcher.run_runSteps_cons] at h
    rw [List.cons_append, Expr.stepMatchers, Matcher.run_runSteps_cons]
    dsimp only at h ⊢
    cases hr : x.matcher env call s with
    | error e w => rw [hr] at h; cases h
    | ok o w =>
      rw [hr] at h
      cases o with
      | failed => cases h
      | matched stop v =>
        dsimp only at h ⊢
        cases hw : Matcher.runSteps (Expr.stepMatchers env call done) w with
        | error e w' => rw [hw] at h; cases h
        | ok slots' w' =>
          rw [hw] at h
          cases slots' with
          | none => cases h
          | some slots' =>
            cases h
            rw [ih hw hy]

/-- What matches although a part fails is forgiving. -/
theorem Expr.forgiving_of_failed (hx : x.matcher env call s = .ok (.matched stop v) t)
    (hp : x.Part env call s y u) (hy : y.matcher env call u = .ok .failed w) : x.Forgiving := by
  cases hp with
  | optional | repeated | alternative => trivial
  | lookahead label negated =>
    rw [matcher, Matcher.run_lookahead, hy] at hx
    dsimp only at hx
    split at hx
    · cases hx
    next hne =>
      change negated = true
      simpa [Outcome.isMatched] using hne
  | step label type build y store rest h =>
    rw [matcher, Matcher.run_sequence, runSteps_failed store rest h hy] at hx
    cases hx
  | map type f =>
    rw [matcher, Matcher.run_map, hy] at hx
    cases hx

/-- A recovery further inside is one of the whole evaluation. -/
theorem Expr.Recovers.of_visits (hv : x.Visits env n s rules k y t) (h : y.Recovers env k t) :
    x.Recovers env n s := by
  obtain ⟨rules', j, z, u, hz, hrest⟩ := h
  exact ⟨rules' ++ rules, j, z, u, hv.trans hz, hrest⟩

/-- The limit is hit in a rule that matches: it is hit in the body. -/
theorem exists_hit_of_rule {r : RuleId}
    (h : ((Expr.rule r).matcher env (callRule env n)).Hits s (.matched stop v) t) :
    ∃ k x u stop' v' w, n = k + 1 ∧ s.known? env (.rule r) = none ∧ s.atLimit env = false ∧
      Matcher.body? r ((s.opened (.rule r)).entering env r) = .ok (some x) u ∧
      (x.matcher env (callRule env k)).Hits u (.matched stop' v') w := by
  obtain ⟨hr, hs, ht⟩ := h
  have ha : answer env n (.rule r) s = .ok (.matched stop v) t := hr
  rcases answer_cases env (.rule r) s with ⟨entry, hk⟩ | ⟨r', hr', hk, hl⟩ | ⟨hk, hl⟩
  · rw [(still_of_known hk ha).overflowed, hs] at ht
    cases ht
  · cases hr'
    rw [answer_refused hk hl] at ha
    cases ha
  · obtain ⟨o', u, hp, hend⟩ := answer_worked hk hl ha
    have hov := (still_closing hend).overflowed
    rw [State.settle_eq] at hov
    rw [hov] at ht
    obtain ⟨k, rfl, ⟨-, -, rfl, -⟩ | ⟨x, w, w', hb, hrw, -, hx, rfl⟩⟩ := produce_rule_cases hp
    · cases hend
    · cases o' with
      | failed => cases hend
      | matched stop' v' =>
        have hw : w.overflowed = false := by
          obtain ⟨-, g, es, rfl⟩ := hrw
          exact ((Still.opened s (.rule r)).trans (.entering env _ r)).overflowed.trans hs
        rw [answer, ← x.matcher_eq_run] at hx
        exact ⟨k, x, w, stop', v', w', rfl, hk, hl, hb, hx, hw, ht⟩

/-- An evaluation that matches although the limit was hit in it has recovered. -/
theorem Expr.recovers_of_hits (n : Nat) (x : Expr) (s : State) {stop : Nat} {v : Value} {t : State}
    (h : (x.matcher env (callRule env n)).Hits s (.matched stop v) t) : x.Recovers env n s := by
  rcases Expr.exists_hit h with ⟨r, rfl⟩ | ⟨y, w, o, w', hp, hhit⟩
  · obtain ⟨k, x, u, stop', v', w, rfl, hk, hl, hb, hhit⟩ := exists_hit_of_rule h
    exact (Expr.recovers_of_hits k x u hhit).of_visits (Visits.here.body hk hl hb)
  · cases o with
    | matched stop' v' =>
      have := hp.sizeOf_lt
      exact (Expr.recovers_of_hits n y w hhit).of_visits (Visits.here.part hp)
    | failed =>
      exact ⟨[], n, x, s, .here, Expr.forgiving_of_failed h.run hp hhit.run, ⟨stop, v, t, h.run⟩,
        y, w, w', hp, hhit⟩
termination_by (n, sizeOf x)

end

/-! ## Whole texts -/

/-- What a text comes to under a limit, it comes to without one, unless the run recovered from the
limit: there, a choice, an option, a repetition or a negated lookahead matched although a part of it
failed in which the limit was hit for the first time. -/
theorem Grammar.parse_without_limit (g : Grammar) (r : RuleId) (text : String) (blanks : List Char)
    (limit : Nat) (v : Value)
    (h : (g.parse r { blanks, limit := some limit } text).answer = .ok (.ok v))
    (hrec : ¬ (Expr.rule r).Recovers (.ofText text { blanks, limit := some limit }) limit
      (.start (.ofText text { blanks, limit := some limit }) g)) :
    (g.parse r { blanks } text).answer = .ok (.ok v) := by
  generalize henv : Env.ofText text { blanks, limit := some limit } = env at hrec
  have hlim : env.limit = some limit := by rw [← henv]; rfl
  have hfree : Env.ofText text { blanks } = env.unlimited := by rw [← henv]; rfl
  rw [Grammar.parse_ok_iff, henv] at h
  obtain ⟨t, ht⟩ := h
  have hnot : ¬ t.overflowed = true := by
    intro hov
    have hrun := (Expr.rule r).matcher_eq_evaluate hlim (sane_start env g) (Nat.le_refl limit)
    exact hrec (Expr.recovers_of_hits limit _ _ ⟨hrun.trans ht, rfl, hov⟩)
  obtain ⟨hends, hexh⟩ := (Expr.rule r).evaluate_coincides hlim (sane_start env g)
    (memoSound_start env.unlimited g) (logged_start env.unlimited g)
  rw [ht] at hends hexh
  rw [Grammar.parse_ok_iff, hfree]
  rcases hends fun he => hnot (hexh he) with heq | ⟨hov, -⟩
  · exact ⟨t, heq.symm⟩
  · exact absurd hov hnot

/-- A digit is read without recovering from anything, so it is read without the limit too. -/
theorem Grammar.parse_without_limit_digit :
    (Grammar.digits.parse ⟨0, "digit"⟩ { limit := some 1 } "7 ").answer = .ok (.ok (.char '7')) ∧
      (¬ (Expr.rule ⟨0, "digit"⟩).Recovers (.ofText "7 " { limit := some 1 }) 1
        (.start (.ofText "7 " { limit := some 1 }) .digits)) ∧
      (Grammar.digits.parse ⟨0, "digit"⟩ {} "7 ").answer = .ok (.ok (.char '7')) := by
  have hvisits : ∀ {rules k y u}, (Expr.rule ⟨0, "digit"⟩).Visits
      (.ofText "7 " { limit := some 1 }) 1 (.start (.ofText "7 " { limit := some 1 }) .digits)
      rules k y u → (y = .rule ⟨0, "digit"⟩ ∧
        u = .start (.ofText "7 " { limit := some 1 }) .digits) ∨ y = .builtin .digit := by
    intro rules k y u hv
    induction hv with
    | here => exact Or.inl ⟨rfl, rfl⟩
    | part _ hp ih => rcases ih with ⟨rfl, rfl⟩ | rfl <;> cases hp
    | body _ _ _ hb ih =>
      rcases ih with ⟨hr, rfl⟩ | hr
      · cases hr
        cases hb
        exact Or.inr rfl
      · cases hr
  have hrec : ¬ (Expr.rule ⟨0, "digit"⟩).Recovers (.ofText "7 " { limit := some 1 }) 1
      (.start (.ofText "7 " { limit := some 1 }) .digits) := by
    rintro ⟨rules, k, y, u, hv, hforgiving, -⟩
    rcases hvisits hv with ⟨rfl, -⟩ | rfl <;> exact hforgiving
  exact ⟨rfl, hrec, Grammar.parse_without_limit .digits ⟨0, "digit"⟩ "7 " defaultBlanks 1
    (.char '7') rfl hrec⟩

/-- Rules that recover from a refusal of the first one: where it does not match, and where it does
not match first. The value of the choice names the alternative that has matched. -/
def Grammar.shy : Grammar where
  rules := #[⟨"word", true, .defined (.text "x")⟩,
    ⟨"unlike", true, .defined (.sequence .list [Expr.skipped (.lookahead true (.rule ⟨0, "word"⟩)),
      Expr.kept (.charWhere (· == 'x'))] { apply := fun _ => .ok (.list [.char 'x']) })⟩,
    ⟨"either", true, .defined (.choice [
      .mapTo .str (.rule ⟨0, "word"⟩) fun _ => .str "word",
      .mapTo .str (.charWhere (· == 'x')) fun _ => .str "letter"])⟩]

/-- A limit that is too low changes what is accepted: a text that has no value gets one, and one
that has a value gets another. -/
theorem Grammar.limit_changes_value :
    (Grammar.shy.parse ⟨1, "unlike"⟩ { limit := some 1 } "x").answer =
        .ok (.ok (.list [.char 'x'])) ∧
      (∃ why, (Grammar.shy.parse ⟨1, "unlike"⟩ {} "x").answer = .ok (.error why)) ∧
      (Grammar.shy.parse ⟨2, "either"⟩ { limit := some 1 } "x").answer =
        .ok (.ok (.str "letter")) ∧
      (Grammar.shy.parse ⟨2, "either"⟩ {} "x").answer = .ok (.ok (.str "word")) :=
  ⟨rfl, ⟨_, rfl⟩, rfl, rfl⟩

end Packrat
