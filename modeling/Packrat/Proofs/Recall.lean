import Packrat.Proofs.Course

/-!
# Recalling is as good as working out

The run that a remembered outcome stands for is the one that remembers nothing and has no limit
(`Env.reference`). An entry is `Sound` if this run, started anew where the entry was made, comes to
the same outcome. Its mode and the failures around it do not matter, and the grammar may have grown
since.

A run whose entries are sound is followed by the run that remembers nothing: they come to the same
outcomes, as long as no rule is refused (`Faithful`). So the outcomes that it remembers are sound as
well. Both are proved together, by induction on the number of rules that may be open.

The run that follows has the same grammar as the one it follows, so that both build the same bodies,
or it has a later one, in which all these bodies are there already. `Grammar.Tracks` covers both.
-/

namespace Packrat

/-- The run that remembers nothing and refuses nothing. -/
def Env.reference (env : Env) : Env := { env with limit := none, memoizing := false }

/-- An entry for a key at `p` is what the key comes to there, in every grammar grown from `g`. -/
def Sound (env : Env) (g : Grammar) (p : Nat) (key : Key) (entry : Entry) : Prop :=
  ∀ t : State, t.cursor = p → t.failures = #[] → g.Grows t.grammar →
    ∃ k o t', produce env.reference k key t = .ok o t' ∧ entry = .ofOutcome t'.failures o ∧
      t'.cursor = o.stopFrom p ∧ t'.grammar = t.grammar ∧ t'.skipping = t.skipping

/-- All that can be recalled is sound. -/
def MemoSound (env : Env) (s : State) : Prop :=
  ∀ p key entry, s.Recalls env p key entry → Sound env s.grammar p key entry

/-- The grammars of a run and of one that follows it: the same, or those of a run below `ceiling`
and `ceiling` itself. -/
def Grammar.Tracks (ceiling : Option Grammar) (g g' : Grammar) : Prop :=
  match ceiling with
  | none => g' = g
  | some top => g' = top ∧ g.Grows top

/-- A state in which no rule was refused so far, with a grammar below `ceiling`. -/
structure Clear (env : Env) (ceiling : Option Grammar) (s : State) : Prop where
  unrefused : env.limit = none ∨ s.overflowed = false
  below : ∀ top, ceiling = some top → s.grammar.Grows top

/-- What a run comes to is what the runs `f` come to, given enough room. Below a ceiling nothing is
said about faults. -/
def Follows {α : Type} (ceiling : Option Grammar) (P : State → State → Prop)
    (r : Result α) (f : Nat → Result α) : Prop :=
  match r with
  | .ok a s => ∃ k t, f k = .ok a t ∧ P s t ∧ s.grammar.Tracks ceiling t.grammar
  | .error (.fault e) _ => ceiling = none → ∃ k t, f k = .error (.fault e) t
  | .error .exhausted _ => True

/-- The work behind an answer, with room for `n` open rules, is what the reference run does. -/
def Faithful (env : Env) (n : Nat) : Prop :=
  ∀ ceiling key s t, Sane env s → MemoSound env s → Level #[] #[] s t →
    s.grammar.Tracks ceiling t.grammar → Clear env ceiling (Result.state (produce env n key s)) →
    Follows ceiling (Level #[] #[]) (produce env n key s) fun k => produce env.reference k key t

section

variable {env : Env} {n : Nat} {ceiling : Option Grammar} {B B' : Array Failure} {s t u : State}
  {key : Key}

/-! ## The run that remembers nothing -/

theorem alike_reference (env : Env) : env.Alike env.reference := ⟨rfl, rfl⟩

/-- The reference run answers every question by working it out. -/
theorem answer_reference (env : Env) (k : Nat) (key : Key) (t : State) :
    answer env.reference k key t =
      match produce env.reference k key (t.opened key) with
      | .ok o u => Matcher.skippingBlanks env.reference o
        ((u.settle env.reference key t.cursor t.failures o).closed t.cursor o key)
      | .error h u => .error h u := by
  refine answer_unknown ?_ ?_
  · rfl
  · cases key <;> rfl

theorem settle_reference (u : State) (key : Key) (start : Nat) (outer : Array Failure)
    (o : Outcome Value) :
    u.settle env.reference key start outer o =
      { u with failures := if o.isMatched then outer else outer ++ u.failures } := by
  rw [State.settle_eq]
  rfl

theorem scan_skipping {label : String} {test : Hook Char Bool} {o : Outcome Value}
    (h : Matcher.scan env label test s = .ok o t) : t.skipping = s.skipping := by
  obtain ⟨o', t', ht', hw⟩ := Matcher.exists_scan env label test s
  rw [ht'] at h
  cases h
  exact hw.skipping

/-- A rule leaves the mode of its caller. -/
theorem produce_skipping {o : Outcome Value} (h : produce env n key s = .ok o t) :
    t.skipping = s.skipping := by
  cases key with
  | builtin c =>
    rw [produce_builtin] at h
    exact scan_skipping h
  | rule r =>
    obtain ⟨k, -, ⟨-, -, -, rfl⟩ | ⟨x, u, w, -, -, -, -, rfl⟩⟩ := produce_rule_cases h
    · exact s.leaving_skipping env r _ _
    · exact s.leaving_skipping env r _ _

/-! ## Grammars side by side -/

namespace Grammar.Tracks

variable {g g' : Grammar}

theorem grows (h : g.Tracks ceiling g') : g.Grows g' := by
  cases ceiling with
  | none => rw [show g' = g from h]; exact .refl g
  | some top => rw [h.1]; exact h.2

end Grammar.Tracks

/-- A sound entry stays sound while the grammar grows. -/
theorem Sound.mono {g g' : Grammar} (hg : g.Grows g') {p : Nat} {entry : Entry}
    (h : Sound env g p key entry) : Sound env g' p key entry :=
  fun t hc hf ht => h t hc hf (hg.trans ht)

theorem memoSound_reference (env : Env) (s : State) : MemoSound env.reference s := by
  rintro p key entry ⟨hm, -⟩
  cases hm

theorem MemoSound.of_quiet (h : MemoSound env s) (hq : Quiet env s t) : MemoSound env t :=
  fun p key entry hr => (h p key entry (hr.congr hq.memo)).mono hq.grows

/-- Where one side finds a body, the other finds the same. -/
theorem body?_tracks {r : RuleId} {x : Option Expr} (hg : s.grammar.Tracks ceiling t.grammar)
    (hb : Matcher.body? r s = .ok x u) (hu : ∀ top, ceiling = some top → u.grammar.Grows top) :
    ∃ w, Matcher.body? r t = .ok x w ∧ t.Rebuilt w ∧ u.grammar.Tracks ceiling w.grammar := by
  cases ceiling with
  | none =>
    have h := Matcher.body?_congr r (show t.grammar = s.grammar from hg)
    rw [hb] at h
    exact h
  | some top =>
    obtain ⟨htop, hs⟩ := hg
    have hut := hu top rfl
    rcases Matcher.body?_cases r s with ⟨hd, hb'⟩ | ⟨y, u', hb', -, hd⟩ | ⟨f, u', hb', -⟩
    · rw [hb'] at hb
      cases hb
      have hnone : t.grammar.body r = .undefined := by rw [htop]; exact hut.undefined r hd
      exact ⟨t, Matcher.run_body?_undefined hnone, .refl t, htop, hut⟩
    · rw [hb'] at hb
      cases hb
      have hsome : t.grammar.body r = .defined y := by rw [htop]; exact hut.defined r y hd
      exact ⟨t, Matcher.run_body?_defined hsome, .refl t, htop, hut⟩
    · rw [hb'] at hb
      cases hb

/-! ## Answers side by side -/

/-- Outcomes that were worked out side by side are settled side by side. -/
theorem Synced.settled (env env' : Env) {w : State} (h : Synced B B' s t)
    (hl : Level #[] #[] u w) (hu : u.skipping = s.skipping) (hw : w.skipping = t.skipping)
    (key : Key) (p q : Nat) (o : Outcome Value) :
    Synced B B' ((u.settle env key p s.failures o).closed p o key)
      ((w.settle env' key q t.failures o).closed q o key) := by
  obtain ⟨d, es, he⟩ := (u.settle env key p s.failures o).closed_eq p o key
  obtain ⟨d', es', he'⟩ := (w.settle env' key q t.failures o).closed_eq q o key
  obtain ⟨fs, hfs, hft⟩ := h.failures
  obtain ⟨gs, hgs, hgt⟩ := hl.failures
  rw [he, he', State.settle_eq, State.settle_eq]
  refine ⟨⟨hl.cursor, ?_⟩, ?_⟩
  · cases o with
    | matched stop v => exact ⟨fs, hfs, hft⟩
    | failed =>
      refine ⟨fs ++ gs, ?_, ?_⟩
      · change s.failures ++ u.failures = B ++ (fs ++ gs)
        rw [hfs, hgs, Array.empty_append, Array.append_assoc]
      · change t.failures ++ w.failures = B' ++ (fs ++ gs)
        rw [hft, hgt, Array.empty_append, Array.append_assoc]
  · change w.skipping = u.skipping
    rw [hu, hw, h.skipping]

/-- Two runs that are in step skip the same blanks, also where only one of them remembers. -/
theorem Synced.skippingBlanks {env' : Env} {w : State} (henv : env.Alike env')
    (h : Synced B B' u w) (o : Outcome Value) :
    ∃ o' u' w', Matcher.skippingBlanks env o u = .ok o' u' ∧
      Matcher.skippingBlanks env' o w = .ok o' w' ∧ Synced B B' u' w' ∧ u.Works env u' ∧
      w.Works env' w' := by
  cases o with
  | failed => exact ⟨_, u, w, rfl, rfl, h, .refl u, .refl w⟩
  | matched stop v =>
    have hb := h.skipBlanks henv
    refine ⟨_, _, _, rfl, ?_, hb, .skipBlanks env u, .skipBlanks env' w⟩
    rw [Matcher.run_skippingBlanks_matched, hb.cursor]

/-- An answer of the reference run is put together from its work, which it settles and closes. -/
theorem answer_reference_of_produce {w t' : State} {k : Nat} {o o' : Outcome Value}
    (hw : produce env.reference k key (t.opened key) = .ok o w)
    (hb : Matcher.skippingBlanks env.reference o
      ((w.settle env.reference key t.cursor t.failures o).closed t.cursor o key) = .ok o' t') :
    answer env.reference k key t = .ok o' t' := by
  rw [answer_reference, hw]
  exact hb

theorem Level.opened (hc : t.cursor = s.cursor) (key : Key) :
    Level #[] #[] (s.opened key) (t.opened key) := by
  refine ⟨?_, #[], s.opened_failures key, t.opened_failures key⟩
  rw [State.opened_cursor, State.opened_cursor, hc]

/-- Repeating an outcome that another run came to is like settling it. -/
theorem Synced.replayed {w : State} {o : Outcome Value} (env' : Env) (h : Synced B B' s t)
    (hc : w.cursor = o.stopFrom s.cursor) (hw : w.skipping = t.skipping) (key : Key) (p q : Nat) :
    ∃ r, Matcher.replay (.ofOutcome w.failures o) s = .ok o r ∧ r.grammar = s.grammar ∧
      Synced B B' (r.recalled p o key) ((w.settle env' key q t.failures o).closed q o key) := by
  have hl : Level #[] #[] { s with cursor := w.cursor, failures := w.failures } w :=
    ⟨rfl, w.failures, by simp, by simp⟩
  have hset := h.settled env' env' hl rfl hw key q q o
  obtain ⟨d, es, he⟩ := (State.settle { s with cursor := w.cursor, failures := w.failures } env'
    key q s.failures o).closed_eq q o key
  rw [he, State.settle_eq] at hset
  cases o with
  | matched stop v =>
    obtain ⟨es', he'⟩ := State.recalled_eq { s with cursor := stop } p (.matched stop v) key
    refine ⟨{ s with cursor := stop }, rfl, rfl, ?_⟩
    rw [he']
    exact hset.congr_left hc.symm rfl rfl
  | failed =>
    obtain ⟨es', he'⟩ :=
      State.recalled_eq { s with failures := s.failures ++ w.failures } p .failed key
    refine ⟨{ s with failures := s.failures ++ w.failures }, rfl, rfl, ?_⟩
    rw [he']
    exact hset.congr_left hc.symm rfl rfl

/-- A recalled outcome is followed, since its entry is sound and the blanks behind it are skipped in
the mode of the caller. -/
theorem follows_known {entry : Entry} (hm : MemoSound env s) (h : Synced B B' s t)
    (hg : s.grammar.Tracks ceiling t.grammar) (hk : s.known? env key = some entry) :
    Follows ceiling (Synced B B') (answer env n key s) fun k => answer env.reference k key t := by
  obtain ⟨k, o, w, hw, rfl, hcur, hgw, hsk⟩ :=
    hm _ _ _ (State.known?_eq_some.mp hk) (t.opened key)
      (by rw [State.opened_cursor]; exact h.cursor) (t.opened_failures key)
      (by rw [State.opened_grammar]; exact hg.grows)
  rw [State.opened_skipping] at hsk
  rw [State.opened_grammar] at hgw
  obtain ⟨r, hr, hgr, hsync⟩ := h.replayed env.reference hcur hsk key s.cursor t.cursor
  obtain ⟨o', u', w', hu', hw', hend, hworks, hworks'⟩ :=
    hsync.skippingBlanks (alike_reference env) o
  rw [answer_known hk, hr]
  dsimp only
  rw [hu']
  refine ⟨k, w', answer_reference_of_produce hw hw', hend, ?_⟩
  rw [hworks.grammar, hworks'.grammar, State.recalled_grammar, State.closed_grammar,
    State.settle_grammar, hgr, hgw]
  exact hg

/-- A state from which a clear one is reached is clear itself. -/
theorem Clear.of_onward (h : Clear env ceiling t) (hst : Onward s t) : Clear env ceiling s where
  unrefused := by
    refine h.unrefused.imp id fun ht => ?_
    by_contra hs
    have ht' := (hst.frozen (by simpa using hs)).1
    rw [ht] at ht'
    cases ht'
  below top htop := hst.grows.trans (h.below top htop)

theorem Onward.of_quiet (h : Quiet env s t) : Onward s t :=
  (kept_onward env 0).quiet trivial h

/-- What has to be worked out is followed if the work is. -/
theorem follows_unknown (hF : Faithful env n) (hs : Sane env s) (hm : MemoSound env s)
    (h : Synced B B' s t) (hg : s.grammar.Tracks ceiling t.grammar)
    (hclear : Clear env ceiling (Result.state (answer env n key s)))
    (hk : s.known? env key = none) (hl : key.refused env s = false) :
    Follows ceiling (Synced B B') (answer env n key s) fun k => answer env.reference k key t := by
  have hq : Quiet env s (s.opened key) := .opened s key
  have hgo : (s.opened key).grammar.Tracks ceiling (t.opened key).grammar := by
    rw [State.opened_grammar, State.opened_grammar]
    exact hg
  rw [answer_unknown hk hl] at hclear ⊢
  have hF' := hF ceiling key _ _ (hq.sane hs) (hm.of_quiet hq) (.opened h.cursor key) hgo
  cases hr : produce env n key (s.opened key) with
  | error e u =>
    rw [hr] at hclear hF'
    cases e with
    | exhausted => trivial
    | fault f =>
      intro hnone
      obtain ⟨k, w, hw⟩ := hF' hclear hnone
      refine ⟨k, w, ?_⟩
      dsimp only at hw ⊢
      rw [answer_reference, hw]
  | ok o u =>
    rw [hr] at hclear hF'
    have hu : Clear env ceiling u := by
      have hc := hclear.of_onward (.of_quiet (.closing _ s.cursor o key))
      rw [State.settle_eq] at hc
      exact ⟨hc.unrefused, hc.below⟩
    obtain ⟨k, w, hw, hlw, hgw⟩ := hF' hu
    have hsu : u.skipping = s.skipping := by
      rw [produce_skipping hr, State.opened_skipping]
    have hsw : w.skipping = t.skipping := by
      rw [produce_skipping hw, State.opened_skipping]
    have hset := h.settled env env.reference hlw hsu hsw key s.cursor t.cursor o
    obtain ⟨o', u', w', hu', hw', hend, hwu, hww⟩ := hset.skippingBlanks (alike_reference env) o
    dsimp only
    rw [hu']
    refine ⟨k, w', answer_reference_of_produce hw hw', hend, ?_⟩
    rw [hwu.grammar, hww.grammar, State.closed_grammar, State.closed_grammar,
      State.settle_grammar, State.settle_grammar]
    exact hgw

/-- Answers are what the reference run answers, if the work behind them is. -/
theorem follows_answer (hF : Faithful env n) (hs : Sane env s) (hm : MemoSound env s)
    (h : Synced B B' s t) (hg : s.grammar.Tracks ceiling t.grammar)
    (hclear : Clear env ceiling (Result.state (answer env n key s))) :
    Follows ceiling (Synced B B') (answer env n key s) fun k => answer env.reference k key t := by
  rcases answer_cases env key s with ⟨entry, hk⟩ | ⟨r, rfl, hk, hl⟩ | ⟨hk, hl⟩
  · exact follows_known hm h hg hk
  · rw [answer_refused hk hl] at hclear
    rcases hclear.unrefused with hnone | hov
    · simp [State.atLimit, hnone] at hl
    · cases hov
  · exact follows_unknown hF hs hm h hg hclear hk hl

/-! ## Dialogues side by side -/

/-- Room for an answer and for what comes after it is enough for both. -/
theorem Dialogue.run_ask_max {α : Type} {k k' : Nat} {o : Outcome Value}
    {next : Outcome Value → State → Dialogue α} (h : answer env k key s = .ok o t)
    (h' : ¬ Result.Exhausted ((next o t).run (answer env k'))) :
    (Dialogue.ask key s next).run (answer env (max k k')) = (next o t).run (answer env k') := by
  have ha : answer env (max k k') key s = .ok o t := by
    rw [answer_mono env (Nat.le_max_left k k') key s (by rw [h]; exact Result.exhausted_ok o t), h]
  rw [Dialogue.run_ask, ha]
  exact Dialogue.run_mono env (Nat.le_max_right k k') _ h'

/-- A run that others have followed is followed by any that end as they do. -/
theorem Follows.imp {α : Type} {P : State → State → Prop} {r : Result α} {f f' : Nat → Result α}
    (h : Follows ceiling P r f)
    (hf : ∀ k, ¬ Result.Exhausted (f k) → ∃ k', f' k' = f k) : Follows ceiling P r f' := by
  cases r with
  | ok a s =>
    obtain ⟨k, t, hk, hP, hg⟩ := h
    obtain ⟨k', hk'⟩ := hf k (by rw [hk]; exact Result.exhausted_ok a t)
    exact ⟨k', t, hk'.trans hk, hP, hg⟩
  | error e s =>
    cases e with
    | exhausted => trivial
    | fault e =>
      intro hnone
      obtain ⟨k, t, hk⟩ := h hnone
      obtain ⟨k', hk'⟩ := hf k (by rw [hk]; simp)
      exact ⟨k', t, hk'.trans hk⟩

/-- What follows a run that ends has an end as well. -/
theorem Follows.exists_not_exhausted {α : Type} {P : State → State → Prop} {r : Result α}
    {f : Nat → Result α} (h : Follows none P r f) (hr : ¬ Result.Exhausted r) :
    ∃ k, ¬ Result.Exhausted (f k) := by
  cases r with
  | ok a s =>
    obtain ⟨k, t, hk, -⟩ := h
    exact ⟨k, by rw [hk]; exact Result.exhausted_ok a t⟩
  | error e s =>
    cases e with
    | exhausted => exact absurd trivial hr
    | fault e =>
      obtain ⟨k, t, hk⟩ := h rfl
      exact ⟨k, by rw [hk]; simp⟩

/-- What a dialogue comes to is what its counterpart comes to with the answers of the reference
run. -/
theorem Linked.follows {α : Type} (hF : Faithful env n)
    (hK : Kept env n (MemoSound env) fun _ t => MemoSound env t) {d d' : Dialogue α}
    (h : Linked env env.reference B B' s t d d') (hself : Linked env env #[] #[] s s d d)
    (hs : Sane env s) (hm : MemoSound env s) (hg : s.grammar.Tracks ceiling t.grammar)
    (hclear : Clear env ceiling (d.run (answer env n)).state) :
    Follows ceiling (Synced B B') (d.run (answer env n))
      fun k => d'.run (answer env.reference k) := by
  induction h with
  | done hu hw huw a =>
    refine ⟨0, _, rfl, huw, ?_⟩
    rw [hu.grammar, hw.grammar]
    exact hg
  | halt hu hw huw e =>
    cases e with
    | exhausted => trivial
    | fault f => exact fun _ => ⟨0, _, rfl⟩
  | @ask s t u w hu hw huw key next next' hnext ih =>
    have hq := Quiet.of_works hu
    have hsu := hq.sane hs
    have hmu := hm.of_quiet hq
    have hgu : u.grammar.Tracks ceiling w.grammar := by rw [hu.grammar, hw.grammar]; exact hg
    obtain ⟨hsane, hmend⟩ := answer_reaches_end hK key hsu hmu
    rw [Dialogue.run_ask] at hclear ⊢
    have hans := @follows_answer env n ceiling B B' u w key hF hsu hmu huw hgu
    cases hr : answer env n key u with
    | error e v =>
      rw [hr] at hclear hans
      cases e with
      | exhausted => trivial
      | fault f =>
        intro hnone
        obtain ⟨k, v', hv'⟩ := hans hclear hnone
        refine ⟨k, v', ?_⟩
        dsimp only at hv' ⊢
        rw [Dialogue.run_ask, hv']
    | ok o v =>
      rw [hr] at hclear hans hsane hmend
      cases hself with
      | ask _ _ _ _ hnext₀ =>
        -- a run that is clear at its end was clear when it got this answer
        have hself' := hnext₀ o v v (.refl v)
        obtain ⟨-, honward⟩ := hself'.reaches_end (kept_onward env n) hsane trivial
        obtain ⟨k, v', hv', hsync, hgv⟩ := hans (hclear.of_onward honward)
        refine (ih o v v' hsync hself' hsane hmend hgv hclear).imp fun k' hk' => ?_
        exact ⟨max k k', Dialogue.run_ask_max hv' hk'⟩

/-! ## The induction -/

/-- What is worked out faithfully may be remembered. -/
theorem kept_memoSound (hF : ∀ k ≤ n, Faithful env k) :
    Kept env n (MemoSound env) fun _ t => MemoSound env t where
  trans _ h := h
  holds h := h
  quiet h hq := h.of_quiet hq
  settle := by
    intro k key s o t outer hk hs hm hf _ hr ht p key' entry hrec
    rw [State.settle_grammar]
    rcases hrec.of_settle with ⟨hov, rfl, rfl, rfl⟩ | hrec
    · intro w hcw hfw hgw
      obtain ⟨-, honward⟩ := produce_reaches_end (kept_onward env k) key' hs trivial
      have hland := orderly_produce k key' s hs
      rw [hr] at honward hland
      have hlevel : Level #[] #[] s w := ⟨hcw, #[], by simpa using hf, by simpa using hfw⟩
      have hclear : Clear env (some w.grammar) (Result.state (produce env k key' s)) := by
        rw [hr]
        exact ⟨Or.inr hov, fun top htop => by cases htop; exact hgw⟩
      have hfollow := hF k hk (some w.grammar) key' s w hs hm hlevel
        ⟨rfl, honward.grows.trans hgw⟩ hclear
      rw [hr] at hfollow
      obtain ⟨k', w', hw', hlw, hgw'⟩ := hfollow
      obtain ⟨fs, hfs, hfs'⟩ := hlw.failures
      refine ⟨k', o, w', hw', by rw [hfs, hfs'], ?_, hgw'.1, produce_skipping hw'⟩
      rw [hlw.cursor]
      cases o with
      | matched stop v => exact hland.2.1
      | failed => exact hland.2.1
    · exact ht p key' entry hrec

theorem Synced.entering {env' : Env} (henv : env.Alike env') (h : Level B B' s t)
    (hg : s.grammar.Grows t.grammar) (r : RuleId) :
    Synced B B' (s.entering env r) (t.entering env' r) := by
  have hmode : Synced B B' { s with skipping := s.grammar.skipsBlanks r }
      { t with skipping := t.grammar.skipsBlanks r } := ⟨h.congr rfl rfl rfl rfl, hg.skipsBlanks r⟩
  exact hmode.skipBlanks henv

theorem Synced.rebuilt {u w : State} (h : Synced B B' s t) (hu : s.Rebuilt u) (hw : t.Rebuilt w) :
    Synced B B' u w := by
  obtain ⟨-, g, es, rfl⟩ := hu
  obtain ⟨-, g', es', rfl⟩ := hw
  exact ⟨h.toLevel.congr rfl rfl rfl rfl, h.skipping⟩

theorem Level.leaving {env' : Env} {w : State} (henv : env.Alike env') (hc : t.cursor = s.cursor)
    (h : Level B B' u w) (r : RuleId) (o : Outcome Value) :
    Level B B' (s.leaving env r o u) (t.leaving env' r o w) := by
  cases o with
  | matched stop v => exact h.congr rfl rfl rfl rfl
  | failed =>
    have hm : Level B B' { u with skipping := s.skipping } { w with skipping := t.skipping } :=
      h.congr rfl rfl rfl rfl
    rw [State.leaving, State.leaving, hc]
    exact (hm.moveTo henv s.cursor).record (.wrong r.label)

theorem entering_grammar (s : State) (r : RuleId) : (s.entering env r).grammar = s.grammar :=
  (State.Works.skipBlanks env { s with skipping := s.grammar.skipsBlanks r }).grammar

/-- The work behind a rule with a body, if answers with less room are faithful. -/
theorem follows_body (hF : ∀ k ≤ n, Faithful env k) {r : RuleId} {x : Expr} (hs : Sane env s)
    (hm : MemoSound env s) (hl : Level #[] #[] s t) (hg : s.grammar.Tracks ceiling t.grammar)
    (hb : Matcher.body? r (s.entering env r) = .ok (some x) u)
    (hru : (s.entering env r).Rebuilt u)
    (hclear : Clear env ceiling (Result.state (produce env (n + 1) (.rule r) s))) :
    Follows ceiling (Level #[] #[]) (produce env (n + 1) (.rule r) s)
      fun k => produce env.reference k (.rule r) t := by
  have hq : Quiet env s u := (Quiet.entering s r).trans (.of_rebuilt hru)
  have hself := x.linked_self env u
  have hK := kept_memoSound hF
  obtain ⟨-, honward⟩ := hself.reaches_end (kept_onward env n) (hq.sane hs) trivial
  rw [produce_succ, hb] at hclear ⊢
  dsimp only at hclear ⊢
  -- where the rule is left without a refusal, its body was
  have hend : Clear env ceiling ((x.dialogue env u).run (answer env n)).state := by
    cases hr : (x.dialogue env u).run (answer env n) with
    | error e v => rw [hr] at hclear; exact hclear
    | ok o v => rw [hr] at hclear; exact hclear.of_onward (.of_quiet (.leaving s r o v))
  have hge : (s.entering env r).grammar.Tracks ceiling (t.entering env.reference r).grammar := by
    rw [entering_grammar, entering_grammar]
    exact hg
  obtain ⟨w, hbw, hrw, hgw⟩ := body?_tracks hge hb (hend.of_onward honward).below
  have hsync := (Synced.entering (alike_reference env) hl hg.grows r).rebuilt hru hrw
  have hfollow := (x.linked (alike_reference env) u w hsync).follows (hF n (Nat.le_refl n)) hK hself
    (hq.sane hs) (hm.of_quiet hq) hgw hend
  cases hr : (x.dialogue env u).run (answer env n) with
  | ok o v =>
    rw [hr] at hfollow
    obtain ⟨k, v', hk, hsv, hgv⟩ := hfollow
    refine ⟨k + 1, t.leaving env.reference r o v', ?_,
      hsv.toLevel.leaving (alike_reference env) hl.cursor r o, ?_⟩
    · dsimp only at hk ⊢
      rw [produce_succ, hbw]
      dsimp only
      rw [hk]
    · rw [State.leaving_grammar, State.leaving_grammar]
      exact hgv
  | error e v =>
    rw [hr] at hfollow
    cases e with
    | exhausted => trivial
    | fault f =>
      intro hnone
      obtain ⟨k, v', hk⟩ := hfollow hnone
      refine ⟨k + 1, v', ?_⟩
      dsimp only at hk ⊢
      rw [produce_succ, hbw]
      dsimp only
      rw [hk]

/-- A rule without a body halts both runs. -/
theorem follows_undefined {r : RuleId} (hl : Level #[] #[] s t)
    (hg : s.grammar.Tracks ceiling t.grammar) (hd : s.grammar.body r = .undefined) :
    Follows ceiling (Level #[] #[]) (produce env (n + 1) (.rule r) s)
      fun k => produce env.reference k (.rule r) t := by
  have hsync : Synced #[] #[] (s.entering env r) (t.entering env.reference r) :=
    .entering (alike_reference env) hl hg.grows r
  have hb : Matcher.body? r (s.entering env r) = .ok none (s.entering env r) :=
    Matcher.run_body?_undefined (by rw [entering_grammar]; exact hd)
  have hbt : Matcher.body? r (t.entering env.reference r) = .ok none (t.entering env.reference r) :=
    Matcher.run_body?_undefined (by rw [entering_grammar]; exact hg.grows.undefined r hd)
  rw [produce_succ, hb]
  refine ⟨1, t.leaving env.reference r .failed
    ((t.entering env.reference r).record (.undefined r.label)), ?_, ?_, ?_⟩
  · dsimp only
    rw [produce_succ, hbt]
  · exact (hsync.toLevel.record _).leaving (alike_reference env) hl.cursor r .failed
  · rw [State.leaving_grammar, State.leaving_grammar]
    change (s.entering env r).grammar.Tracks ceiling (t.entering env.reference r).grammar
    rw [entering_grammar, entering_grammar]
    exact hg

/-- Every run is followed by the one that remembers nothing, as long as what it remembers is sound
and no rule is refused. -/
theorem faithful (env : Env) (n : Nat) : Faithful env n := by
  induction n using Nat.strong_induction_on with
  | _ n ih =>
    intro ceiling key s t hs hm hl hg hclear
    cases key with
    | builtin c =>
      obtain ⟨o, u, w, hu, hw, hlw, hsu, htw⟩ :=
        hl.scan (alike_reference env) c.label { apply := c.holds }
      rw [produce_builtin, hu]
      refine ⟨0, w, hw, hlw, ?_⟩
      rw [hsu.grammar, htw.grammar]
      exact hg
    | rule r =>
      cases n with
      | zero => trivial
      | succ n =>
        have hF : ∀ k ≤ n, Faithful env k := fun k hk => ih k (Nat.lt_succ_of_le hk)
        rcases Matcher.body?_cases r (s.entering env r) with
          ⟨hd, -⟩ | ⟨x, u, hb, hru, -⟩ | ⟨f, u, hb, -⟩
        · rw [entering_grammar] at hd
          exact follows_undefined hl hg hd
        · exact follows_body hF hs hm hl hg hb hru hclear
        · rw [produce_succ, hb]
          -- a builder that stops with a fault stops both runs, which have the same grammar here
          rintro rfl
          have hge : (t.entering env.reference r).grammar = (s.entering env r).grammar := by
            rw [entering_grammar, entering_grammar]
            exact hg
          have hcongr := Matcher.body?_congr r hge
          rw [hb] at hcongr
          obtain ⟨w, hw⟩ := hcongr
          refine ⟨1, w, ?_⟩
          dsimp only
          rw [produce_succ, hw]

/-- What is remembered stays sound along every run. -/
theorem kept_sound (env : Env) (n : Nat) :
    Kept env n (MemoSound env) fun _ t => MemoSound env t :=
  kept_memoSound fun k _ => faithful env k

end

end Packrat
