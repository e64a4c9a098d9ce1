import Packrat.Proofs.Permanence

/-!
# Evaluating again

An evaluation that came to its end can be repeated from where it began, in the state that it left.
What it worked out before the limit was hit is recalled now. What it worked out afterwards was not
remembered, and neither was what it was refused; both are not known now either (`produce_unknown`),
so they are worked out or refused once more. Hence the second evaluation goes the way of the first
and comes to the same, and nothing new is remembered (`answer_again`).

`z` is the state in which the first evaluation ended.
-/

namespace Packrat

/-- The state `s` of a run and the state `t` of its repetition, which finds all that the run had
remembered in its last state `z`. -/
structure Rerun (z : State) (B B' : Array Failure) (s t : State) : Prop
    extends Synced B B' s t where
  depth : t.depth = s.depth
  still : Still z t

/-- What a matcher comes to on the way to `z` it comes to again. -/
def Matcher.Repeats (env : Env) (z : State) (m : Matcher) : Prop :=
  ∀ {B B' s t o u}, Sane env s → Sized env s → Rerun z B B' s t → m s = .ok o u → Later env u z →
    ∃ w, m t = .ok o w ∧ Rerun z B B' u w

section

variable {env : Env} {n : Nat} {key : Key} {B B' : Array Failure} {s t u w z : State}

namespace Rerun

theorem of_works (h : Rerun z B B' s t) (hu : s.Works env u) (hw : t.Works env w)
    (huw : Synced B B' u w) : Rerun z B B' u w :=
  ⟨huw, by rw [hu.depth, hw.depth, h.depth], h.still.trans (.of_works hw)⟩

theorem opened (h : Rerun z B B' s t) (key : Key) :
    Rerun z #[] #[] (s.opened key) (t.opened key) := by
  refine ⟨⟨.opened h.cursor key, ?_⟩, ?_, h.still.trans (.opened t key)⟩
  · rw [s.opened_skipping, t.opened_skipping, h.skipping]
  · cases key with
    | builtin c => exact h.depth
    | rule r => exact congrArg (· + 1) h.depth

theorem leaving (h : Rerun z B B' s t) (h' : Rerun z B B' u w) (r : RuleId) (o : Outcome Value) :
    Rerun z B B' (s.leaving env r o u) (t.leaving env r o w) := by
  have hl := h'.toLevel.leaving (.refl env) h.cursor r o
  refine ⟨⟨hl, ?_⟩, ?_, ?_⟩
  · rw [s.leaving_skipping, t.leaving_skipping, h.skipping]
  · cases o <;> exact h'.depth
  · cases o <;> exact ⟨h'.still.grammar, h'.still.memo, h'.still.overflowed⟩

end Rerun

/-- Where the run found a body, its repetition finds the same. -/
theorem Rerun.body? {r : RuleId} {x : Option Expr} (h : Rerun z B B' s t)
    (hb : Matcher.body? r (s.entering env r) = .ok x u) (hu : u.grammar.Grows z.grammar) :
    ∃ w, Matcher.body? r (t.entering env r) = .ok x w ∧ Rerun z B B' u w := by
  have hru : (s.entering env r).Rebuilt u := by
    rcases Matcher.body?_cases r (s.entering env r) with
      ⟨-, hb'⟩ | ⟨y, v, hb', hrv, -⟩ | ⟨f, v, hb', -⟩
    · rw [hb'] at hb
      cases hb
      exact .refl _
    · rw [hb'] at hb
      cases hb
      exact hrv
    · rw [hb'] at hb
      cases hb
  have hgs : s.grammar.Grows z.grammar := by
    rw [← (Still.entering env s r).grammar]
    exact hru.1.trans hu
  -- the repetition has all bodies that the run has built up to its end
  have htracks : (s.entering env r).grammar.Tracks (some z.grammar) (t.entering env r).grammar := by
    rw [(Still.entering env s r).grammar, (Still.entering env t r).grammar]
    exact ⟨h.still.grammar, hgs⟩
  obtain ⟨w, hbw, hrw, htop, -⟩ := body?_tracks htracks hb fun top htop => by cases htop; exact hu
  have hgt : s.grammar.Grows t.grammar := by rw [h.still.grammar]; exact hgs
  have hsync := (Synced.entering (.refl env) h.toLevel hgt r).rebuilt hru hrw
  have hdepth : ∀ v : State, (v.entering env r).depth = v.depth :=
    fun v => (State.Works.skipBlanks env _).depth
  have hstill := h.still.trans (.entering env t r)
  obtain ⟨-, g, es, rfl⟩ := hru
  obtain ⟨-, g', es', rfl⟩ := hrw
  refine ⟨_, hbw, hsync, ?_, htop, hstill.memo, hstill.overflowed⟩
  exact (hdepth t).trans (h.depth.trans (hdepth s).symm)

/-! ## Dialogues -/

/-- A dialogue is repeated if its questions are answered as before. -/
theorem Linked.again {α : Type} (hans : ∀ key, (answer env n key).Repeats env z) {d d' : Dialogue α}
    (h : Linked env env B B' s t d d') (hself : Linked env env #[] #[] s s d d) (hs : Sane env s)
    (hz : Sized env s) (hst : Rerun z B B' s t) {a : α} (hr : d.run (answer env n) = .ok a u)
    (hu : Later env u z) : ∃ w, d'.run (answer env n) = .ok a w ∧ Rerun z B B' u w := by
  induction h with
  | done hv hw hvw a => cases hr; exact ⟨_, rfl, hst.of_works hv hw hvw⟩
  | halt hv hw hvw e => cases hr
  | @ask s t v w hv hw hvw key next next' hnext ih =>
    have hq := Quiet.of_works hv
    have hzv : Sized env v := (kept_sized env 0).quiet hz hq
    obtain ⟨hsane, hsized⟩ := answer_reaches_end (kept_sized env n) key (hq.sane hs) hzv
    rw [Dialogue.run_ask] at hr
    cases hans' : answer env n key v with
    | error e v' => rw [hans'] at hr; cases hr
    | ok o v' =>
      rw [hans'] at hr hsane hsized
      dsimp only at hr
      cases hself with
      | ask _ _ _ _ hnext₀ =>
        -- what the run remembers after this answer it still knows in `z`
        have hself' := hnext₀ o v' v' (.refl v')
        have hlater := hself'.later n hsane hsized
        rw [hr] at hlater
        obtain ⟨w', hw', hvw'⟩ := hans key (hq.sane hs) hzv (hst.of_works hv hw hvw) hans'
          (hlater.trans hu)
        obtain ⟨w'', hw'', huw⟩ := ih o v' w' hvw'.toSynced hself' hsane hsized hvw' hr
        refine ⟨w'', ?_, huw⟩
        rw [Dialogue.run_ask, hw']
        exact hw''

/-! ## Answers -/

/-- Without room only character classes are worked out. -/
theorem produce_again_zero (key : Key) : (produce env 0 key).Repeats env z := by
  intro B B' s t o u hs hz hst hr hu
  cases key with
  | rule r => cases hr
  | builtin c =>
    obtain ⟨o', u', w, hu', hw, hl, hwu, hww⟩ := hst.toLevel.scan (.refl env) c.label
      { apply := c.holds }
    rw [produce_builtin] at hr ⊢
    rw [hu'] at hr
    cases hr
    exact ⟨w, hw, hst.of_works hwu hww (hst.toSynced.of_works hl hwu hww)⟩

/-- The work behind a rule is repeated if the questions of its body are answered as before. -/
theorem produce_again_succ (hans : ∀ key, (answer env n key).Repeats env z) (r : RuleId) :
    (produce env (n + 1) (.rule r)).Repeats env z := by
  intro B B' s t o u hs hz hst hr hu
  have he : Quiet env s (s.entering env r) := .entering s r
  obtain ⟨k, ⟨⟩, ⟨-, hb, rfl, rfl⟩ | ⟨x, v, v', hb, hrv, -, hrun, rfl⟩⟩ := produce_rule_cases hr
  · obtain ⟨w, hbw, hw⟩ := hst.body? hb hu.grows
    have hrec := hw.of_works (.record env _ _) (.record env w _)
      ⟨hw.toLevel.record (.undefined r.label), hw.skipping⟩
    rw [produce_succ, hbw]
    exact ⟨_, rfl, hst.leaving hrec r .failed⟩
  · have hq : Quiet env s v := he.trans (.of_rebuilt hrv)
    have hself := x.linked_self env v
    have hzv : Sized env v := (kept_sized env 0).quiet hz hq
    have hlater := hself.later n (hq.sane hs) hzv
    rw [hrun] at hlater
    -- from the end of the body to `z` nothing is forgotten
    have hend : Later env v' z := (Later.of_quiet (.leaving s r o v')).trans hu
    obtain ⟨w, hbw, hw⟩ := hst.body? hb (hlater.trans hend).grows
    obtain ⟨w', hw', hvw⟩ := (x.linked (.refl env) v w hw.toSynced).again hans hself
      (hq.sane hs) hzv hw hrun hend
    rw [produce_succ, hbw]
    dsimp only
    rw [hw']
    exact ⟨_, rfl, hst.leaving hvw r o⟩

/-- Answers restore depth and mode, so two of them in step leave a run and its repetition. -/
theorem Rerun.of_answers {o : Outcome Value} (h : Rerun z B B' s t)
    (hs : answer env n key s = .ok o u) (ht : answer env n key t = .ok o w)
    (huw : Synced B B' u w) (hw : Still z w) : Rerun z B B' u w := by
  refine ⟨huw, ?_, hw⟩
  rw [(answer_restores env n key s o u hs).depth, (answer_restores env n key t o w ht).depth,
    h.depth]

/-- What was not known when nothing was remembered any more is not known to the repetition. -/
theorem Rerun.unknown (h : Rerun z B B' s t) (hu : Unknown env u ⟨key, s.cursor⟩)
    (hz : z.memo = u.memo) : t.known? env key = none := by
  rw [known?_eq_none_iff, h.cursor]
  exact hu.of_memo (h.still.memo.trans hz)

/-- The repetition refuses a rule exactly where the run did. -/
theorem Rerun.refused (h : Rerun z B B' s t) (key : Key) :
    key.refused env t = key.refused env s := by
  cases key with
  | builtin c => rfl
  | rule r => rw [Key.refused, Key.refused, State.atLimit, State.atLimit, h.depth]

/-- What was worked out after the limit was hit is worked out again. -/
theorem worked_again (hp : (produce env n key).Repeats env z) {o o' : Outcome Value} {v : State}
    (hs : Sane env s) (hz : Sized env s) (hst : Rerun z B B' s t) (hk : s.known? env key = none)
    (hl : key.refused env s = false) (hv : produce env n key (s.opened key) = .ok o' v)
    (hov : v.overflowed = true)
    (hend : Matcher.skippingBlanks env o'
      ((v.settle env key s.cursor s.failures o').closed s.cursor o' key) = .ok o u)
    (hu : Later env u z) : ∃ w, answer env n key t = .ok o w ∧ Synced B B' u w ∧ Still z w := by
  have hopen : Quiet env s (s.opened key) := .opened s key
  have hvu : Still v u := (Still.settle hov ..).trans (still_closing hend)
  have hvz : Later env v z := (Later.of_still hvu).trans hu
  obtain ⟨w, hw, hvw⟩ := hp (hopen.sane hs) ((kept_sized env 0).quiet hz hopen) (hst.opened key) hv
    hvz
  have hun := produce_unknown n hs hz hk
  rw [hv] at hun
  have hkt := hst.unknown hun (hvz.frozen hov).2
  have hset := hst.settled env env hvw.toLevel (by rw [produce_skipping hv, s.opened_skipping])
    (by rw [produce_skipping hw, t.opened_skipping]) key s.cursor t.cursor o'
  obtain ⟨o'', u', w', hu', hw', hsync, -⟩ := hset.skippingBlanks (.refl env) o'
  rw [hu'] at hend
  cases hend
  refine ⟨w', ?_, hsync, ?_⟩
  · rw [answer_unknown hkt (by rw [hst.refused, hl]), hw]
    exact hw'
  · have hovw : w.overflowed = true := hvw.still.overflowed.trans (hvz.frozen hov).1
    exact hvw.still.trans ((Still.settle hovw ..).trans (still_closing hw'))

/-- An answer is repeated if the work behind it is: what was worked out is known now, or it is
worked out again where it was not remembered. -/
theorem answer_again_of_produce (hmem : env.memoizing = true)
    (hp : (produce env n key).Repeats env z) : (answer env n key).Repeats env z := by
  intro B B' s t o u hs hz hst hr hu
  rcases answer_cases env key s with ⟨entry, hk⟩ | ⟨r, rfl, hk, hl⟩ | ⟨hk, hl⟩
  · -- known then, so known now
    have hkt : t.known? env key = some entry := by
      rw [State.known?_eq_some, hst.cursor]
      have hrec := (State.known?_eq_some.mp hk).congr (still_of_known hk hr).memo.symm
      exact (hu.retains _ _ _ hrec).congr hst.still.memo.symm
    obtain ⟨w, hw, hsync⟩ := hst.known hk hkt hr
    exact ⟨w, hw, hst.of_answers hr hw hsync (hst.still.trans (still_of_known hkt hw))⟩
  · -- refused then: the limit was hit, so nothing has been remembered since
    have hun := known?_eq_none_iff.mp hk
    have hlt : t.atLimit env = true := (hst.refused (.rule r)).trans hl
    rw [answer_refused hk hl] at hr
    cases hr
    obtain ⟨hov, hmemo⟩ := hu.frozen rfl
    have hl : Level B B' ({ s with overflowed := true }.emit (.limitReached r s.cursor))
        ({ t with overflowed := true }.emit (.limitReached r t.cursor)) :=
      hst.toLevel.congr rfl rfl rfl rfl
    rw [answer_refused (hst.unknown hun hmemo) hlt]
    exact ⟨_, rfl, ⟨hl.record _, hst.skipping⟩, hst.depth, hst.still.grammar, hst.still.memo,
      hov.symm⟩
  · obtain ⟨o', v, hv, hend⟩ := answer_worked hk hl hr
    cases hov : v.overflowed with
    -- worked out after the limit was hit, and again now
    | true =>
      obtain ⟨w, hw, hsync, hstill⟩ := worked_again hp hs hz hst hk hl hv hov hend hu
      exact ⟨w, hw, hst.of_answers hr hw hsync hstill⟩
    -- worked out and remembered, so recalled now
    | false =>
      obtain ⟨entry, w, hkw, hw, hsync⟩ := recalled_of_produce hmem hs hz hv hend hov hst.toSynced
        (hu.retains.trans (.of_memo hst.still.memo))
      exact ⟨w, hw, hst.of_answers hr hw hsync (hst.still.trans (still_of_known hkw hw))⟩

/-- An answer that was got on the way to `z` is got again in the state that `z` left. -/
theorem answer_again (hmem : env.memoizing = true) (n : Nat) (key : Key) (z : State) :
    (answer env n key).Repeats env z := by
  refine answer_again_of_produce hmem ?_
  induction n generalizing key with
  | zero => exact produce_again_zero key
  | succ n ih =>
    cases key with
    | builtin c =>
      rw [produce_builtin, ← produce_builtin env n]
      exact ih (.builtin c)
    | rule r => exact produce_again_succ (fun key => answer_again_of_produce hmem (ih key)) r

/-! ## Expressions -/

/-- Evaluating an expression again from where it began comes to the same, with the same failures on
top, and changes neither the grammar nor what is remembered. -/
theorem Expr.matcher_again (hmem : env.memoizing = true) (x : Expr) (hs : Sane env s)
    (hz : Sized env s) {o : Outcome Value} (h : x.matcher env (callRule env n) s = .ok o t) :
    Restores s t ∧ ∃ u fs, x.matcher env (callRule env n) (t.moveTo env s.cursor) = .ok o u ∧
      t.failures = s.failures ++ fs ∧ u.failures = t.failures ++ fs ∧ u.cursor = t.cursor ∧
      Still t u := by
  rw [x.matcher_eq_run] at h
  have hrestores := (x.linked_self env s).restores (answer_restores env n) h
  have hstart : Rerun t s.failures t.failures s (t.moveTo env s.cursor) :=
    ⟨⟨⟨moveTo_start hs.cursor t, #[], by simp, by simp⟩, hrestores.skipping⟩, hrestores.depth,
      .of_works (.moveTo env t _)⟩
  obtain ⟨u, hu, htu⟩ := (x.linked (.refl env) s _ hstart.toSynced).again
    (fun key => answer_again hmem _ key t) (x.linked_self env s) hs hz hstart h (.refl env t)
  obtain ⟨fs, hft, hfu⟩ := htu.failures
  refine ⟨hrestores, u, fs, ?_, hft, hfu, htu.cursor, htu.still⟩
  rw [x.matcher_eq_run]
  exact hu

/-- A match that consumes nothing is got again where it has ended. -/
theorem Expr.matcher_stalls (hmem : env.memoizing = true) (x : Expr) (hs : Sane env s)
    (hz : Sized env s) {v : Value}
    (h : x.matcher env (callRule env n) s = .ok (.matched t.cursor v) t)
    (hstall : t.cursor = s.cursor) :
    ∃ u, x.matcher env (callRule env n) t = .ok (.matched u.cursor v) u ∧ u.cursor = t.cursor := by
  obtain ⟨-, u, -, hu, -, -, hc, -⟩ := x.matcher_again hmem hs hz h
  have hback : t.moveTo env s.cursor = t := by
    rw [State.moveTo, Nat.min_eq_left hs.cursor, ← hstall]
  rw [hback] at hu
  exact ⟨u, by rw [hc]; exact hu, hc⟩

theorem Expr.evaluate_again (hmem : env.memoizing = true) (x : Expr) (hs : Sane env s)
    (hz : Sized env s) {o : Outcome Value} (h : x.evaluate env s = .ok o t) :
    Restores s t ∧ ∃ u fs, x.evaluate env (t.moveTo env s.cursor) = .ok o u ∧
      t.failures = s.failures ++ fs ∧ u.failures = t.failures ++ fs ∧ u.cursor = t.cursor ∧
      Still t u := by
  have hroom : headroom env (t.moveTo env s.cursor).grammar = headroom env s.grammar :=
    headroom_of_grows (x.evaluate_later hs hz h).grows
  obtain ⟨hrestores, u, fs, hu, hrest⟩ := x.matcher_again hmem hs hz h
  rw [← hroom] at hu
  exact ⟨hrestores, u, fs, hu, hrest⟩

end

/-! ## Sessions -/

/-- An evaluation that has an outcome leaves depth and mode as it found them. Back at its start, it
has the same outcome once more, with the same end and the same failures added, and it changes
neither what is remembered nor whether the limit was hit. This holds at every moment of a session,
with a limit or without one, also if the limit is hit on the way. -/
theorem Session.evaluate_idempotent (text : String) (blanks : List Char) (limit : Option Nat)
    (g : Grammar) (cs : List (Command RuleId Expr)) (s : State)
    (hs : s ∈ (Session.start text { blanks, limit } g).moments cs) (x : Expr) (o : Outcome Value)
    (t : State) (h : x.evaluate (.ofText text { blanks, limit }) s = .ok o t) :
    let env := Env.ofText text { blanks, limit }
    t.depth = s.depth ∧ t.skipping = s.skipping ∧
      ∃ u fs, x.evaluate env (t.moveTo env s.cursor) = .ok o u ∧ u.cursor = t.cursor ∧
        t.failures = s.failures ++ fs ∧ u.failures = t.failures ++ fs ∧
        u.memo = t.memo ∧ u.overflowed = t.overflowed := by
  intro env
  obtain ⟨hrestores, u, fs, hu, hft, hfu, hcur, hstill⟩ := x.evaluate_again rfl
    (Session.sane_of_mem_moments hs) (Session.sized_of_mem_moments hs) h
  exact ⟨hrestores.depth, hrestores.skipping, u, fs, hu, hcur, hft, hfu, hstill.memo,
    hstill.overflowed⟩

/-- A rule that begins with itself runs into the limit. The second time it is refused at the same
depth again, although a digit is known by then. -/
theorem Session.evaluate_idempotent_overflowed :
    let env := Env.ofText "7" { limit := some 2 }
    let s := (Session.start "7" { limit := some 2 } .digits).state
    ∃ o t, (Expr.rule ⟨1, "loop"⟩).evaluate env s = .ok o t ∧ t.overflowed = true ∧
      ∃ u, (Expr.rule ⟨1, "loop"⟩).evaluate env (t.moveTo env 0) = .ok o u ∧ u.memo = t.memo := by
  intro env s
  have hends : Result.meets (fun _ t => t.overflowed) ((Expr.rule ⟨1, "loop"⟩).evaluate env s) =
      true := by decide +kernel
  obtain ⟨o, t, h, hov⟩ := Result.exists_of_meets hends
  obtain ⟨-, -, u, fs, hu, -, -, -, hmemo, -⟩ := Session.evaluate_idempotent "7" defaultBlanks
    (some 2) .digits [] s (Session.after_mem_moments _ []) (.rule ⟨1, "loop"⟩) o t h
  exact ⟨o, t, h, hov, u, hu, hmemo⟩

end Packrat
