import Packrat.Proofs.Room

/-!
# Remembering does not show

Without a limit, an evaluation comes to what it would come to if nothing were remembered and the run
began anew at the cursor: the same outcome, cursor and failures, or the same halt. One of the two
ends if and only if the other does (`evaluate_agrees`, `diverges_iff`).

A remembered outcome is what the evaluation of its key would come to, whatever limit the run has,
and also after the limit was hit (`Sound.evaluate_eq`).
-/

namespace Packrat

/-- A run that begins anew where `s` stands. -/
def State.anew (s : State) (env : Env) : State :=
  { State.start env s.grammar with cursor := s.cursor, skipping := s.skipping }

/-- No number of open rules is enough for the evaluation of an expression. -/
def Expr.Diverges (env : Env) (x : Expr) (s : State) : Prop :=
  ∀ n, Result.Exhausted (x.matcher env (callRule env n) s)

/-- Two evaluations that agree, where the first one found the failures `before`. -/
def Agrees (before : Array Failure) : Result (Outcome Value) → Result (Outcome Value) → Prop
  | .ok o s, .ok o' t => o = o' ∧ s.cursor = t.cursor ∧ s.failures = before ++ t.failures
  | .error h _, .error h' _ => h = h'
  | _, _ => False

section

variable {env : Env} {s : State} {n k : Nat}

theorem synced_anew (env : Env) (s : State) : Synced s.failures #[] s (s.anew env) :=
  ⟨⟨rfl, #[], by simp, rfl⟩, rfl⟩

/-- Every state with its cursor in the text is sane for a run that has no limit. -/
theorem sane_reference (hs : s.cursor ≤ env.length) : Sane env.reference s :=
  ⟨hs, fun _ _ _ hr => by cases hr.1⟩

theorem sane_anew (hs : Sane env s) : Sane env.reference (s.anew env) := sane_reference hs.cursor

theorem linked_anew (env : Env) (x : Expr) (s : State) :
    Linked env env.reference s.failures #[] s (s.anew env) (x.dialogue env s)
      (x.dialogue env.reference (s.anew env)) :=
  x.linked (alike_reference env) s (s.anew env) (synced_anew env s)

/-- As long as no rule is refused, an evaluation is followed by the reference run that begins anew
at its cursor. -/
theorem follows_anew (x : Expr) (hs : Sane env s) (hm : MemoSound env s) (n : Nat)
    (h : env.limit = none ∨ ((x.dialogue env s).run (answer env n)).state.overflowed = false) :
    Follows none (Synced s.failures #[]) ((x.dialogue env s).run (answer env n))
      fun k => (x.dialogue env.reference (s.anew env)).run (answer env.reference k) :=
  (linked_anew env x s).follows (faithful env n) (kept_sound env n) (x.linked_self env s) hs hm rfl
    ⟨h, fun top htop => by cases htop⟩

/-- Without a limit the one that begins anew is exhausted with the same room. -/
theorem exhausted_anew (hlim : env.limit = none) (x : Expr) (hs : Sane env s)
    (hm : MemoSound env s) (h : Result.Exhausted ((x.dialogue env s).run (answer env n))) :
    Result.Exhausted ((x.dialogue env.reference (s.anew env)).run (answer env.reference n)) := by
  obtain ⟨r, u, hu, hru⟩ := x.exhausted_cause hs h
  obtain ⟨-, -, hp⟩ := exhausted_produce hru
  obtain ⟨hsu, hmu⟩ := (x.linked_self env s).reaches_question (kept_sound env n) hs hm hu
  obtain ⟨k, w, hw, hsync, hgw⟩ := Linked.reaches hu s (s.anew env) (linked_anew env x s)
    (x.linked_self env s) hlim hs hm (show s.grammar.Tracks none (s.anew env).grammar from rfl)
    (fun top htop => by cases htop)
  have ho : Quiet env u (u.opened (.rule r)) := .opened u _
  have hcall : Call.Exhausts env n ⟨r, u.opened (.rule r)⟩ := hp
  have hexh : Call.Exhausts env.reference n ⟨r, w.opened (.rule r)⟩ := by
    refine hcall.reference hlim (ho.sane hsu) (hmu.of_quiet ho) rfl
      (.opened hsync.cursor (.rule r)) ?_
    dsimp only
    rw [State.opened_grammar, State.opened_grammar]
    exact hgw
  exact hw.exhausted (exhausted_answer hexh)

/-! ## The room of an evaluation -/

/-- An expression is exhausted exactly where its dialogue is. -/
theorem exhausted_matcher_iff (x : Expr) :
    Result.Exhausted (x.matcher env (callRule env n) s) ↔
      Result.Exhausted ((x.dialogue env s).run (answer env n)) := by
  rw [x.matcher_eq_run, answer]

/-- Without limit and memory an evaluation has all the room that it can use. -/
theorem evaluate_reference_eq (x : Expr) (hs : Sane env.reference s) {r : Result (Outcome Value)}
    (hr : (x.dialogue env.reference s).run (answer env.reference k) = r)
    (h : ¬ Result.Exhausted r) : x.evaluate env.reference s = r := by
  subst hr
  have hne : ¬ Result.Exhausted (x.evaluate env.reference s) :=
    fun he => h (x.exhausted_of_headroom hs he k)
  rw [Expr.evaluate_eq_run] at hne ⊢
  rcases Nat.le_total k (headroom env.reference s.grammar) with hle | hle
  · exact Dialogue.run_mono _ hle _ h
  · exact (Dialogue.run_mono _ hle _ hne).symm

/-- An evaluation of the reference run that `headroom` is not enough for has no end. -/
theorem diverges_of_exhausted_reference (x : Expr) (hs : Sane env.reference s)
    (h : Result.Exhausted (x.evaluate env.reference s)) : x.Diverges env.reference s :=
  fun k => (exhausted_matcher_iff x).mpr (x.exhausted_of_headroom hs h k)

/-! ## With memory and without -/

/-- Without a limit, an evaluation agrees with the reference run that begins anew at its cursor. -/
theorem evaluate_agrees (hlim : env.limit = none) (x : Expr) (hs : Sane env s)
    (hm : MemoSound env s) :
    Agrees s.failures (x.evaluate env s) (x.evaluate env.reference (s.anew env)) := by
  have hroom : headroom env.reference (s.anew env).grammar = headroom env s.grammar := by
    simp [headroom, Env.reference, hlim, State.anew, State.start, Env.length]
  have hfollow := follows_anew x hs hm (headroom env s.grammar) (Or.inl hlim)
  have hexh := @exhausted_anew env s (headroom env s.grammar) hlim x hs hm
  rw [Expr.evaluate_eq_run env x s]
  cases hr : (x.dialogue env s).run (answer env (headroom env s.grammar)) with
  | ok o u =>
    rw [hr] at hfollow
    obtain ⟨k, w, hk, hsync, -⟩ := hfollow
    obtain ⟨fs, hfs, hft⟩ := hsync.failures
    rw [evaluate_reference_eq x (sane_anew hs) hk (Result.exhausted_ok o w)]
    refine ⟨rfl, hsync.cursor.symm, ?_⟩
    rw [hfs, hft, Array.empty_append]
  | error e u =>
    rw [hr] at hfollow hexh
    cases e with
    | fault f =>
      obtain ⟨k, w, hk⟩ := hfollow rfl
      rw [evaluate_reference_eq x (sane_anew hs) hk (by simp)]
      rfl
    | exhausted =>
      obtain ⟨w, hw⟩ := (hexh trivial).eq
      rw [Expr.evaluate_eq_run, hroom, hw]
      rfl

/-- Without a limit, an evaluation has no end exactly where the reference run has none. -/
theorem diverges_iff (hlim : env.limit = none) (x : Expr) (hs : Sane env s)
    (hm : MemoSound env s) : x.Diverges env s ↔ x.Diverges env.reference (s.anew env) := by
  constructor
  · intro h n
    rw [exhausted_matcher_iff]
    exact exhausted_anew hlim x hs hm ((exhausted_matcher_iff x).mp (h n))
  · intro h n
    rw [exhausted_matcher_iff]
    by_contra hne
    obtain ⟨k, hk⟩ := (follows_anew x hs hm n (Or.inl hlim)).exists_not_exhausted hne
    exact hk ((exhausted_matcher_iff x).mp (h k))

/-- Without a limit, the room of an evaluation is enough unless no room is. -/
theorem exhausted_iff_diverges (hlim : env.limit = none) (x : Expr) (hs : Sane env s)
    (hm : MemoSound env s) : Result.Exhausted (x.evaluate env s) ↔ x.Diverges env s := by
  constructor
  · intro h
    have hagree := evaluate_agrees hlim x hs hm
    obtain ⟨t, ht⟩ := h.eq
    rw [ht] at hagree
    rw [diverges_iff hlim x hs hm]
    refine diverges_of_exhausted_reference x (sane_anew hs) ?_
    cases hr : x.evaluate env.reference (s.anew env) with
    | ok o w => rw [hr] at hagree; cases hagree
    | error e w => rw [hr] at hagree; cases hagree; trivial
  · intro h
    exact h (headroom env s.grammar)

/-! ## What is remembered -/

/-- The expression that a key stands for. -/
def Key.expr : Key → Expr
  | .builtin c => .builtin c
  | .rule r => .rule r

theorem run_expr (key : Key) (f : Key → Matcher) (s : State) :
    (key.expr.dialogue env s).run f = f key s := by
  cases key <;> simp only [Key.expr, Expr.dialogue, Dialogue.run_ask] <;> cases f _ s <;> rfl

/-- A sound entry is what the evaluation of its key comes to, in a run that begins anew without
skipping blanks. All bodies that it needs are there. -/
theorem Sound.evaluate_grown {g : Grammar} {p : Nat} {key : Key} {entry : Entry}
    (h : Sound env g p key entry) (hp : p ≤ env.length) :
    ∃ o t, key.expr.evaluate env.reference { State.start env g with cursor := p } = .ok o t ∧
      entry = .ofOutcome t.failures o ∧ t.grammar = g := by
  have hs : Sane env.reference { State.start env g with cursor := p } := sane_reference hp
  generalize hstart : { State.start env g with cursor := p } = s at hs ⊢
  have hcs : s.cursor = p := by rw [← hstart]
  have hfs : s.failures = #[] := by rw [← hstart]; rfl
  have hgs : s.grammar = g := by rw [← hstart]; rfl
  have hks : s.skipping = false := by rw [← hstart]; rfl
  obtain ⟨k, o, w, hw, hentry, hcw, hgw, hsw⟩ := h (s.opened key) (by rw [s.opened_cursor, hcs])
    (s.opened_failures key) (by rw [s.opened_grammar, hgs]; exact .refl g)
  have hskip : w.skipping = false := by rw [hsw, s.opened_skipping, hks]
  obtain ⟨d', es', hc⟩ :=
    (w.settle env.reference key s.cursor s.failures o).closed_eq s.cursor o key
  rw [settle_reference, hfs] at hc
  have hans : answer env.reference k key s = .ok o
      ((w.settle env.reference key s.cursor s.failures o).closed s.cursor o key) := by
    rw [answer_reference, hw]
    dsimp only
    rw [settle_reference, hfs, hc]
    cases o with
    | failed => rfl
    | matched stop v =>
      -- the mode is off, so no blanks are skipped behind the match
      simp only [Matcher.run_skippingBlanks_matched, State.skipBlanks, hskip, Bool.false_eq_true,
        if_false]
      rw [show w.cursor = stop from hcw]
  refine ⟨o, _, evaluate_reference_eq key.expr hs ((run_expr key _ s).trans hans)
    (Result.exhausted_ok _ _), ?_, ?_⟩
  · rw [settle_reference, hfs, hc, hentry]
    cases o with
    | matched stop v => rfl
    | failed => exact congrArg Entry.failure (Array.empty_append).symm
  · rw [settle_reference, hfs, hc]
    exact hgw.trans ((s.opened_grammar key).trans hgs)

/-- A sound entry is what the reference run comes to for its key, at its position. -/
theorem Sound.evaluate_eq {g : Grammar} {p : Nat} {key : Key} {entry : Entry}
    (h : Sound env g p key entry) (hp : p ≤ env.length) :
    ∃ o t, key.expr.evaluate env.reference { State.start env g with cursor := p } = .ok o t ∧
      entry = .ofOutcome t.failures o := by
  obtain ⟨o, t, ht, hentry, -⟩ := h.evaluate_grown hp
  exact ⟨o, t, ht, hentry⟩

end

/-! ## Sessions -/

theorem memoSound_start (env : Env) (g : Grammar) : MemoSound env (.start env g) :=
  fun p key entry hr => absurd hr (not_recalls_start env g p key entry)

/-- In a session without definitions, what is remembered is sound at every moment. -/
theorem Session.memoSound_of_mem_moments {text : String} {config : Config} {g : Grammar}
    {cs : List (Command RuleId Expr)} (hcs : ∀ r x, .define r x ∉ cs) {s : State}
    (hs : s ∈ (Session.start text config g).moments cs) : MemoSound (.ofText text config) s :=
  Session.holds_of_mem_moments (kept_sound _) (fun _ r x _ hc => absurd hc (hcs r x))
    (sane_start _ g) (memoSound_start _ g) hs

/-- In a session without definitions, later moments are further on. -/
theorem Session.pairwise_onward (text : String) (config : Config) (g : Grammar)
    {cs : List (Command RuleId Expr)} (hcs : ∀ r x, .define r x ∉ cs) :
    ((Session.start text config g).moments cs).Pairwise Onward ∧
      ∀ s ∈ (Session.start text config g).moments cs, g.Grows s.grammar := by
  obtain ⟨l, hl, hpath⟩ := Session.passes_moments (kept_onward (.ofText text config)) cs
    (fun _ r x _ hc => absurd hc (hcs r x)) _ (sane_start _ g) trivial
  have hpair := hpath.pairwise (kept_onward _ 0)
  rw [Session.start, hl]
  refine ⟨hpair.imp fun h => h.2, fun s hs => ?_⟩
  rcases List.mem_cons.mp hs with rfl | hs
  · exact .refl g
  · exact (hpath.reaches (kept_onward _ 0) hs).2.grows

/-- Whatever was done in a session without a limit before, an evaluation comes to what it would come
to in a run that begins anew at the cursor and remembers nothing: the same outcome and cursor, and
the same failures on top of those that were there, or the same halt. One of the two has no end if
and only if the other has none, and only then are they exhausted. -/
theorem Session.memo_transparent (text : String) (blanks : List Char) (g : Grammar)
    (cs : List (Command RuleId Expr)) (hcs : ∀ r x, .define r x ∉ cs) (x : Expr) :
    let env := Env.ofText text { blanks }
    let forgetful := { env with memoizing := false }
    let s := ((Session.start text { blanks } g).after cs).state
    Agrees s.failures (x.evaluate env s) (x.evaluate forgetful (s.anew env)) ∧
      (x.Diverges env s ↔ x.Diverges forgetful (s.anew env)) ∧
      (Result.Exhausted (x.evaluate env s) ↔ x.Diverges env s) := by
  have hmem := (Session.start text { blanks } g).after_mem_moments cs
  have hs := Session.sane_of_mem_moments hmem
  have hm := Session.memoSound_of_mem_moments hcs hmem
  exact ⟨evaluate_agrees rfl x hs hm, diverges_iff rfl x hs hm,
    exhausted_iff_diverges rfl x hs hm⟩

/-- A digit that was read before is recalled, and comes to the same as when it is read anew. -/
theorem Session.memo_transparent_recalled :
    let cs := [.evaluate (.rule ⟨0, "digit"⟩), .moveTo 0, .record "again"]
    let env := Env.ofText "7x" {}
    let s := ((Session.start "7x" {} .digits).after cs).state
    s.memo.find? 0 (.rule ⟨0, "digit"⟩) = some (.success 1 (.char '7')) ∧
      Agrees s.failures ((Expr.rule ⟨0, "digit"⟩).evaluate env s)
        ((Expr.rule ⟨0, "digit"⟩).evaluate { env with memoizing := false } (s.anew env)) :=
  ⟨rfl, (Session.memo_transparent "7x" defaultBlanks .digits _ (by simp) _).1⟩

/-- Under every limit and at every moment of a session, a remembered outcome is what the evaluation
of its rule or built-in class comes to in a run without limit and memory that begins at its position
without skipping blanks. Once the limit was hit, what is remembered does not change any more. -/
theorem Session.memo_sound (text : String) (blanks : List Char) (limit : Option Nat) (g : Grammar)
    (cs : List (Command RuleId Expr)) (hcs : ∀ r x, .define r x ∉ cs) :
    let env := Env.ofText text { blanks, limit }
    let moments := (Session.start text { blanks, limit } g).moments cs
    (∀ s ∈ moments, g.Grows s.grammar ∧ ∀ p key entry, s.memo.find? p key = some entry →
      ∃ o t, key.expr.evaluate env.reference { State.start env s.grammar with cursor := p } =
        .ok o t ∧ entry = .ofOutcome t.failures o) ∧
    moments.Pairwise fun s t => s.overflowed = true → t.overflowed = true ∧ t.memo = s.memo := by
  intro env moments
  obtain ⟨hpair, hgrows⟩ := Session.pairwise_onward text { blanks, limit } g hcs
  refine ⟨fun s hs => ⟨hgrows s hs, fun p key entry hf => ?_⟩, hpair.imp fun h => h.frozen⟩
  have hrec : s.Recalls env p key entry := ⟨rfl, hf⟩
  have hsound := Session.memoSound_of_mem_moments hcs hs p key entry hrec
  exact hsound.evaluate_eq ((Session.sane_of_mem_moments hs).memo p key entry hrec).le

/-- A run that hit the limit in a rule that begins with itself keeps what it remembered before. -/
theorem Session.memo_sound_overflowed :
    let cs := [.evaluate (.rule ⟨0, "digit"⟩), .moveTo 0, .evaluate (.rule ⟨1, "loop"⟩)]
    let env := Env.ofText "7" { limit := some 2 }
    let s := ((Session.start "7" { limit := some 2 } .digits).after cs).state
    s.overflowed = true ∧
      s.memo.find? 0 (.rule ⟨0, "digit"⟩) = some (.success 1 (.char '7')) ∧
      ∃ o t, (Expr.rule ⟨0, "digit"⟩).evaluate env.reference
          { State.start env s.grammar with cursor := 0 } = .ok o t ∧
        Entry.success 1 (.char '7') = .ofOutcome t.failures o := by
  intro cs env s
  have hfind : s.memo.find? 0 (.rule ⟨0, "digit"⟩) = some (.success 1 (.char '7')) := rfl
  have h := (Session.memo_sound "7" defaultBlanks (some 2) .digits cs (by simp [cs])).1 s
    (Session.after_mem_moments _ _)
  exact ⟨by decide +kernel, hfind, h.2 0 (.rule ⟨0, "digit"⟩) _ hfind⟩

end Packrat
