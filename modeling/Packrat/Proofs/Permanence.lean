import Mathlib.Data.Set.Insert
import Packrat.Proofs.Moves

/-!
# What is remembered stays

An entry is made where a key was not known, and while the work behind a key goes on none is made for
it. For suppose that the work behind a key asks for the key again at the same position. All that it
asked for up to there was remembered, so the second time it goes the same way and asks for the key a
third time, and so on, until the limit is hit or the room is exhausted (`answer_of_loop`).

The keys that are being worked out are the `Pending` places. Each of them `Leads` to the next, by
means of what can be recalled alone, and this stays so in every later state. So nothing is ever
remembered for a pending place (`answer_permanent`), no entry is ever replaced, and a later state of
a run recalls all that an earlier one does.
-/

namespace Packrat

/-- A change from `s` to `t` that touches neither the grammar nor what is remembered. -/
structure Still (s t : State) : Prop where
  grammar : t.grammar = s.grammar
  memo : t.memo = s.memo
  overflowed : t.overflowed = s.overflowed

/-- What can be recalled in `s` can be recalled in `t`. -/
def Retains (env : Env) (s t : State) : Prop :=
  ∀ p key entry, s.Recalls env p key entry → t.Recalls env p key entry

/-- `t` is further on than `s` and recalls as much. -/
structure Later (env : Env) (s t : State) : Prop extends Onward s t where
  retains : Retains env s t

/-- A key at a position. -/
structure Place where
  key : Key
  position : Nat

/-- Nothing can be recalled for a place. -/
def Unknown (env : Env) (s : State) (a : Place) : Prop :=
  ∀ entry, ¬ s.Recalls env a.position a.key entry

/-- The memo has a table for every position of the text. -/
def Sized (env : Env) (s : State) : Prop := s.memo.tables.size = env.length + 1

/-- Answers by recalling alone. -/
def recollect (env : Env) (key : Key) : Matcher := fun s =>
  match s.known? env key with
  | some _ => answer env 0 key s
  | none => .error .exhausted s

/-- What is left of a dialogue after some of its questions were answered. -/
inductive Dialogue.Comes {α : Type} (f : Key → Matcher) : Dialogue α → Dialogue α → Prop where
  | refl (d : Dialogue α) : Comes f d d
  | step {key : Key} {s t : State} {o : Outcome Value}
      {next : Outcome Value → State → Dialogue α} {d : Dialogue α} (h : f key s = .ok o t)
      (h' : Comes f (next o t) d) : Comes f (.ask key s next) d

section

variable {env : Env} {n : Nat} {key : Key} {B B' : Array Failure} {s t u w : State}
  {o : Outcome Value}

namespace Still

theorem refl (s : State) : Still s s := ⟨rfl, rfl, rfl⟩

theorem trans (h : Still s t) (h' : Still t u) : Still s u :=
  ⟨h'.grammar.trans h.grammar, h'.memo.trans h.memo, h'.overflowed.trans h.overflowed⟩

theorem of_works (h : s.Works env t) : Still s t := ⟨h.grammar, h.memo, h.overflowed⟩

theorem opened (s : State) (key : Key) : Still s (s.opened key) := by
  cases key <;> exact ⟨rfl, rfl, rfl⟩

theorem entering (env : Env) (s : State) (r : RuleId) : Still s (s.entering env r) := by
  have h := of_works (State.Works.skipBlanks env { s with skipping := s.grammar.skipsBlanks r })
  exact ⟨h.grammar, h.memo, h.overflowed⟩

end Still

/-! ## Later states -/

theorem Retains.of_memo (h : t.memo = s.memo) : Retains env s t :=
  fun _ _ _ hr => hr.congr h.symm

theorem Retains.trans (h : Retains env s t) (h' : Retains env t u) : Retains env s u :=
  fun p key entry hr => h' p key entry (h p key entry hr)

theorem Unknown.of_memo {a : Place} (h : t.memo = s.memo) (hs : Unknown env s a) :
    Unknown env t a := fun entry hr => hs entry (hr.congr h)

/-- A key is looked up in vain exactly where nothing can be recalled for it. -/
theorem known?_eq_none_iff : s.known? env key = none ↔ Unknown env s ⟨key, s.cursor⟩ := by
  rw [Option.eq_none_iff_forall_ne_some]
  exact forall_congr' fun entry => not_congr State.known?_eq_some

namespace Later

theorem of_quiet (h : Quiet env s t) : Later env s t := ⟨.of_quiet h, .of_memo h.memo⟩

theorem of_still (h : Still s t) : Later env s t where
  grows := by rw [h.grammar]; exact .refl _
  frozen hs := ⟨h.overflowed.trans hs, h.memo⟩
  retains := .of_memo h.memo

theorem refl (env : Env) (s : State) : Later env s s := .of_still (.refl s)

theorem trans (h : Later env s t) (h' : Later env t u) : Later env s u :=
  ⟨(kept_onward env 0).trans h.toOnward h'.toOnward, h.retains.trans h'.retains⟩

/-- Once the limit was hit nothing changes any more. -/
theorem of_overflowed (h : Onward s t) (hs : s.overflowed = true) : Later env s t :=
  ⟨h, .of_memo (h.frozen hs).2⟩

end Later

/-! ## Entries -/

theorem kept_sized (env : Env) (n : Nat) : Kept env n (Sized env) fun _ t => Sized env t where
  trans _ h := h
  holds h := h
  quiet hs h := by
    unfold Sized at hs ⊢
    rw [h.memo]
    exact hs
  settle := by
    intro k key s o t outer _ _ _ _ _ _ ht
    unfold Sized at ht ⊢
    rw [State.settle_eq]
    dsimp only
    split
    · rw [Memo.size_insert]
      exact ht
    · exact ht

theorem sized_start (env : Env) (g : Grammar) : Sized env (.start env g) := by
  simp [Sized, State.start, Memo.empty]

/-- An outcome that is settled before the limit was hit can be recalled. -/
theorem recalls_settle (hmem : env.memoizing = true) (hov : s.overflowed = false) {p : Nat}
    (hz : Sized env s) (hp : p ≤ env.length) (key : Key) (outer : Array Failure)
    (o : Outcome Value) :
    (s.settle env key p outer o).Recalls env p key (.ofOutcome s.failures o) := by
  refine ⟨hmem, ?_⟩
  rw [State.settle_eq]
  simp only [hmem, hov, Bool.not_false, Bool.and_self, if_true]
  refine Memo.find?_insert_self ?_ key _
  rw [show s.memo.tables.size = env.length + 1 from hz]
  exact Nat.lt_succ_of_le hp

/-- Once the limit was hit, settling an outcome leaves no trace in the memo. -/
theorem Still.settle (h : s.overflowed = true) (key : Key) (p : Nat) (outer : Array Failure)
    (o : Outcome Value) : Still s (s.settle env key p outer o) := by
  rw [State.settle_eq]
  exact ⟨rfl, by simp [h], rfl⟩

/-- Settling an outcome for a place that is not known replaces nothing. -/
theorem retains_settle {p : Nat} (h : Unknown env s ⟨key, p⟩) (outer : Array Failure)
    (o : Outcome Value) : Retains env s (s.settle env key p outer o) := by
  intro q key' entry hr
  refine ⟨hr.1, ?_⟩
  rw [State.settle_eq]
  dsimp only
  split
  · rw [Memo.find?_insert_of_ne]
    · exact hr.2
    · by_contra hne
      push Not at hne
      obtain ⟨rfl, rfl⟩ := hne
      exact h entry hr
  · exact hr.2

/-- Settling replaces no entry if there was none for the key. -/
theorem Later.settle {p : Nat} (h : Unknown env s ⟨key, p⟩) (outer : Array Failure)
    (o : Outcome Value) : Later env s (s.settle env key p outer o) where
  grows := by rw [State.settle_grammar]; exact .refl _
  frozen hov := by
    have hstill : Still s (s.settle env key p outer o) := .settle hov key p outer o
    exact ⟨hstill.overflowed.trans hov, hstill.memo⟩
  retains := retains_settle h outer o

/-! ## Recalling -/

theorem recollect_known {entry : Entry} (h : s.known? env key = some entry) :
    recollect env key s = answer env n key s := by
  unfold recollect
  rw [h]
  dsimp only
  rw [answer_known h, answer_known h]

theorem exists_of_recollect (h : recollect env key s = .ok o t) :
    ∃ entry, s.known? env key = some entry := by
  unfold recollect at h
  cases hk : s.known? env key with
  | some entry => exact ⟨entry, rfl⟩
  | none => rw [hk] at h; cases h

/-- A key that is known is answered, with any room. -/
theorem exists_answer_of_known (n : Nat) {entry : Entry} (h : s.known? env key = some entry) :
    ∃ o t, answer env n key s = .ok o t := by
  rw [answer_known h]
  cases entry <;> exact ⟨_, _, rfl⟩

/-- Recalling changes cursor, failures and events. -/
theorem still_of_known {entry : Entry} (hk : s.known? env key = some entry)
    (h : answer env n key s = .ok o t) : Still s t := by
  cases entry with
  | success stop v =>
    obtain ⟨es, he⟩ := answer_known_success (n := n) hk
    rw [he] at h
    have hw := State.Works.of_skippingBlanks h
    exact ⟨hw.grammar, hw.memo, hw.overflowed⟩
  | failure fs =>
    obtain ⟨es, he⟩ := answer_known_failure (n := n) hk
    rw [he] at h
    cases h
    exact ⟨rfl, rfl, rfl⟩

theorem Synced.symm (h : Synced B B' s t) : Synced B' B t s := by
  obtain ⟨fs, hfs, hft⟩ := h.failures
  exact ⟨⟨h.cursor.symm, fs, hft, hfs⟩, h.skipping.symm⟩

/-- Both sides recall one entry. -/
theorem Synced.known (h : Synced B B' s t) {entry : Entry} (hs : s.known? env key = some entry)
    (ht : t.known? env key = some entry) (hr : answer env n key s = .ok o u) :
    ∃ w, answer env n key t = .ok o w ∧ Synced B B' u w := by
  obtain ⟨fs, hfs, hft⟩ := h.failures
  cases entry with
  | success stop v =>
    obtain ⟨es, he⟩ := answer_known_success (n := n) hs
    obtain ⟨es', he'⟩ := answer_known_success (n := n) ht
    have hsync : Synced B B' { s with cursor := stop, events := es }
        { t with cursor := stop, events := es' } := ⟨⟨rfl, h.failures⟩, h.skipping⟩
    obtain ⟨o', u', w', hu', hw', hend, -⟩ := hsync.skippingBlanks (.refl env) (.matched stop v)
    rw [he, hu'] at hr
    rw [he', hw']
    cases hr
    exact ⟨w', rfl, hend⟩
  | failure gs =>
    obtain ⟨es, he⟩ := answer_known_failure (n := n) hs
    obtain ⟨es', he'⟩ := answer_known_failure (n := n) ht
    rw [he] at hr
    rw [he']
    cases hr
    refine ⟨_, rfl, ⟨h.cursor, fs ++ gs, ?_, ?_⟩, h.skipping⟩
    · simp [hfs]
    · simp [hft]

/-- An answer that was worked out: the work, and what is done with its outcome. -/
theorem answer_worked (hk : s.known? env key = none) (hl : key.refused env s = false)
    (h : answer env n key s = .ok o t) :
    ∃ o' u, produce env n key (s.opened key) = .ok o' u ∧ Matcher.skippingBlanks env o'
      ((u.settle env key s.cursor s.failures o').closed s.cursor o' key) = .ok o t := by
  rw [answer_unknown hk hl] at h
  cases hr : produce env n key (s.opened key) with
  | error e u => rw [hr] at h; cases h
  | ok o' u => rw [hr] at h; exact ⟨o', u, rfl, h⟩

/-- The blanks behind an answer change neither the grammar nor the memo. -/
theorem still_closing {p : Nat} {o' : Outcome Value}
    (h : Matcher.skippingBlanks env o' (s.closed p o' key) = .ok o t) :
    Still s t := by
  obtain ⟨d, es, he⟩ := s.closed_eq p o' key
  rw [he] at h
  have hw := State.Works.of_skippingBlanks h
  exact ⟨hw.grammar, hw.memo, hw.overflowed⟩

/-- Where the work behind a key ends. -/
theorem produce_lands (hs : Sane env s) (h : produce env n key (s.opened key) = .ok o u) :
    u.cursor = o.stopFrom s.cursor ∧ u.cursor ≤ env.length ∧ u.skipping = s.skipping := by
  have hland := orderly_produce n key (s.opened key) ((Quiet.opened s key).sane hs)
  rw [h] at hland
  refine ⟨?_, hland.1.cursor, by rw [produce_skipping h, s.opened_skipping]⟩
  rw [← s.opened_cursor key]
  cases o <;> exact hland.2.1

/-- An outcome that was worked out before the limit was hit can be recalled. -/
theorem recalls_of_produce (hmem : env.memoizing = true) (hs : Sane env s) (hz : Sized env s)
    {o' : Outcome Value} (hr : produce env n key (s.opened key) = .ok o' u)
    (ha : Matcher.skippingBlanks env o'
      ((u.settle env key s.cursor s.failures o').closed s.cursor o' key) = .ok o t)
    (hov : u.overflowed = false) : t.Recalls env s.cursor key (.ofOutcome u.failures o') := by
  have hopen : Quiet env s (s.opened key) := .opened s key
  obtain ⟨-, hzu⟩ := produce_reaches_end (kept_sized env n) key (hopen.sane hs)
    ((kept_sized env 0).quiet hz hopen)
  rw [hr] at hzu
  have hrec := recalls_settle hmem hov hzu hs.cursor key s.failures o'
  exact hrec.congr (still_closing ha).memo.symm

/-- An outcome that was worked out before the limit was hit is repeated from then on. -/
theorem recalled_of_produce (hmem : env.memoizing = true) (hs : Sane env s) (hz : Sized env s)
    {o' : Outcome Value} (hr : produce env n key (s.opened key) = .ok o' u)
    (ha : Matcher.skippingBlanks env o'
      ((u.settle env key s.cursor s.failures o').closed s.cursor o' key) = .ok o t)
    (hov : u.overflowed = false) (h : Synced B B' s w) (hw : Retains env t w) :
    ∃ entry w', w.known? env key = some entry ∧ answer env n key w = .ok o w' ∧
      Synced B B' t w' := by
  obtain ⟨hcur, -, hskip⟩ := produce_lands hs hr
  rw [← h.cursor] at hcur
  have hknown : w.known? env key = some (.ofOutcome u.failures o') := by
    rw [State.known?_eq_some, h.cursor]
    exact hw _ _ _ (recalls_of_produce hmem hs hz hr ha hov)
  obtain ⟨v, hv, -, hsync⟩ := h.symm.replayed env hcur hskip key w.cursor s.cursor
  obtain ⟨o'', u', w', hu', hw', hend, -⟩ := hsync.skippingBlanks (.refl env) o'
  rw [hw'] at ha
  cases ha
  refine ⟨_, u', hknown, ?_, hend.symm⟩
  rw [answer_known hknown, hv]
  exact hu'

/-- An answer that was got before the limit was hit is recalled from then on. -/
theorem recollect_answer (hmem : env.memoizing = true) (hs : Sane env s) (hz : Sized env s)
    (ha : answer env n key s = .ok o t) (hov : t.overflowed = false) (h : Synced B B' s w)
    (hw : Retains env t w) :
    ∃ w', recollect env key w = .ok o w' ∧ Synced B B' t w' ∧ w'.memo = w.memo := by
  suffices hrec : ∃ entry w', w.known? env key = some entry ∧ answer env n key w = .ok o w' ∧
      Synced B B' t w' by
    obtain ⟨entry, w', hk, hw', hsync⟩ := hrec
    exact ⟨w', (recollect_known hk).trans hw', hsync, (still_of_known hk hw').memo⟩
  rcases answer_cases env key s with ⟨entry, hk⟩ | ⟨r, rfl, hk, hl⟩ | ⟨hk, hl⟩
  · have hkw : w.known? env key = some entry := by
      rw [State.known?_eq_some, h.cursor]
      exact hw _ _ _ ((State.known?_eq_some.mp hk).congr (still_of_known hk ha).memo.symm)
    obtain ⟨w', hw', hsync⟩ := h.known hk hkw ha
    exact ⟨entry, w', hkw, hw', hsync⟩
  · rw [answer_refused hk hl] at ha
    cases ha
    cases hov
  · obtain ⟨o', u, hr, hend⟩ := answer_worked hk hl ha
    refine recalled_of_produce hmem hs hz hr hend ?_ h hw
    have hou := (still_closing hend).overflowed
    rw [State.settle_eq] at hou
    exact hou.symm.trans hov

/-! ## What is left of a dialogue -/

namespace Dialogue.Comes

variable {α : Type} {f f' : Key → Matcher} {d d' : Dialogue α}

theorem trans {d'' : Dialogue α} (h : d.Comes f d') (h' : d'.Comes f d'') : d.Comes f d'' := by
  induction h with
  | refl d => exact h'
  | step hr _ ih => exact .step hr (ih h')

/-- What is left of a dialogue comes to what the whole of it comes to. -/
theorem run_eq (h : d.Comes f d') (hf : ∀ key s o t, f key s = .ok o t → f' key s = .ok o t) :
    d.run f' = d'.run f' := by
  induction h with
  | refl d => rfl
  | step hr _ ih =>
    rw [Dialogue.run_ask, hf _ _ _ _ hr]
    exact ih

/-- While a dialogue is carried on by recalling, the state stands still. -/
theorem still (h : d.Comes (recollect env) d') {e : Dialogue α}
    (hl : Linked env env #[] #[] s t d e) (hs : Sane env s) :
    ∃ s' t' e', Still s s' ∧ Sane env s' ∧ Linked env env #[] #[] s' t' d' e' := by
  induction h generalizing s t e with
  | refl d => exact ⟨s, t, e, .refl s, hs, hl⟩
  | @step key u v o next d hr _ ih =>
    cases hl with
    | ask hu hw huw _ hnext =>
      have hsu := (Quiet.of_works hu).sane hs
      obtain ⟨entry, hk⟩ := exists_of_recollect hr
      have hans : answer env 0 key u = .ok o v := (recollect_known hk).symm.trans hr
      have hsv := (orderly_answer 0 key u hsu)
      rw [hans] at hsv
      obtain ⟨s', t', e', hss', hs', hl'⟩ := ih (hnext o v v (.refl v)) hsv.1
      exact ⟨s', t', e', (Still.of_works hu).trans ((still_of_known hk hans).trans hss'), hs', hl'⟩

end Dialogue.Comes

/-- What is recollected is answered so with any room. -/
theorem answer_of_recollect (n : Nat) (h : recollect env key s = .ok o t) :
    answer env n key s = .ok o t := by
  obtain ⟨entry, hk⟩ := exists_of_recollect h
  exact (recollect_known hk).symm.trans h

/-! ## Pending places -/

/-- In every state later than `s`, the work behind `a` comes to ask for `b`, by recalling alone. -/
def Leads (env : Env) (s : State) (a b : Place) : Prop :=
  ∀ t, Later env s t → t.cursor = a.position → ∃ r x u next, a.key = .rule r ∧
    Matcher.body? r (t.entering env r) = .ok (some x) (t.entering env r) ∧
    (x.dialogue env (t.entering env r)).Comes (recollect env) (.ask b.key u next) ∧
    u.cursor = b.position

/-- That one place leads to another stays so. -/
theorem Leads.later {a b : Place} (h : Leads env s a b) (hst : Later env s t) : Leads env t a b :=
  fun u htu => h u (hst.trans htu)

/-- Nothing was remembered since `s`, and there was no end but by the limit. -/
def Stuck {α : Type} (s : State) (r : Result α) : Prop :=
  r.state.memo = s.memo ∧ (r.Exhausted ∨ r.state.overflowed = true)

/-- A dialogue whose first question is stuck is stuck. -/
theorem Stuck.ask {α : Type} {next : Outcome Value → State → Dialogue α} {d : Dialogue α}
    (hl : Linked env env #[] #[] s t (.ask key u next) d) (hs : Sane env s)
    (h : Stuck s (answer env n key u)) :
    Stuck s ((Dialogue.ask key u next).run (answer env n)) := by
  cases hl with
  | ask hu hw huw _ hnext =>
    have hsane := orderly_answer n key u ((Quiet.of_works hu).sane hs)
    rw [Dialogue.run_ask]
    cases hr : answer env n key u with
    | error e v =>
      rw [hr] at h
      exact ⟨h.1, h.2.imp_left fun he => by simpa using he⟩
    | ok o v =>
      rw [hr] at h hsane
      have hov : v.overflowed = true := h.2.resolve_left (Result.exhausted_ok o v)
      obtain ⟨-, honward⟩ := (hnext o v v (.refl v)).reaches_end (kept_onward env n) hsane.1 trivial
      obtain ⟨hend, hmemo⟩ := honward.frozen hov
      exact ⟨hmemo.trans h.1, Or.inr hend⟩

/-- A rule is stuck where its work is: nothing is remembered for it either. -/
theorem Stuck.answer (hun : Unknown env s ⟨key, s.cursor⟩)
    (h : Stuck s (produce env n key (s.opened key))) : Stuck s (answer env n key s) := by
  rcases answer_cases env key s with ⟨entry, hk⟩ | ⟨r, rfl, hk, hl⟩ | ⟨hk, hl⟩
  · exact absurd (State.known?_eq_some.mp hk) (hun entry)
  · rw [answer_refused hk hl]
    exact ⟨rfl, Or.inr rfl⟩
  · rw [answer_unknown hk hl]
    cases hr : produce env n key (s.opened key) with
    | error e u => rw [hr] at h; exact h
    | ok o u =>
      rw [hr] at h
      have hov : u.overflowed = true := h.2.resolve_left (Result.exhausted_ok o u)
      have hset : Onward u (u.settle env key s.cursor s.failures o) := by
        rw [State.settle_eq]
        exact ⟨.refl _, fun _ => ⟨hov, by simp [hov]⟩⟩
      have hclose : Quiet env (u.settle env key s.cursor s.failures o) _ :=
        .closing _ s.cursor o key
      obtain ⟨hend, hmemo⟩ := ((kept_onward env 0).trans hset (.of_quiet hclose)).frozen hov
      exact ⟨hmemo.trans h.1, Or.inr hend⟩

/-- If a pending place is asked for again and all pending places lead to pending ones, there is no
end but by the limit. -/
theorem answer_of_loop {ps : Set Place} (n : Nat) (key : Key) (s : State) (hs : Sane env s)
    (ha : ⟨key, s.cursor⟩ ∈ ps) (hps : ∀ b ∈ ps, Unknown env s b)
    (hleads : ∀ b ∈ ps, ∃ c ∈ ps, Leads env s b c) : Stuck s (answer env n key s) := by
  induction n generalizing key s with
  | zero =>
    obtain ⟨c, -, hac⟩ := hleads _ ha
    obtain ⟨r, x, u, next, hkey, -⟩ := hac (s.opened key) (.of_still (.opened s key))
      (s.opened_cursor key)
    refine Stuck.answer (hps _ ha) ?_
    cases hkey
    exact ⟨rfl, Or.inl trivial⟩
  | succ n ih =>
    obtain ⟨c, hc, hac⟩ := hleads _ ha
    obtain ⟨r, x, u, next, hkey, hbody, hcomes, hcur⟩ := hac (s.opened key)
      (.of_still (.opened s key)) (s.opened_cursor key)
    refine Stuck.answer (hps _ ha) ?_
    cases hkey
    -- up to the question for `c`, which is pending as well, everything is recalled
    have he := (Still.opened s (.rule r)).trans (.entering env (s.opened (.rule r)) r)
    have hse : Sane env ((s.opened (.rule r)).entering env r) :=
      ((Quiet.opened s (.rule r)).sane hs).entering r
    obtain ⟨s', t', d', hstill, hs', hlinked⟩ := hcomes.still (x.linked_self env _) hse
    have hrun : Stuck s' ((Dialogue.ask c.key u next).run (answer env n)) := by
      have hu : Still s' u := by cases hlinked with | ask hu _ _ _ _ => exact .of_works hu
      have hsu : Sane env u := by
        cases hlinked with | ask hu _ _ _ _ => exact (Quiet.of_works hu).sane hs'
      have hlater := he.trans (hstill.trans hu)
      have hstuck := ih c.key u hsu (by rw [hcur]; exact hc)
        (fun b hb => (hps b hb).of_memo hlater.memo)
        (fun b hb => (hleads b hb).imp fun _ h => ⟨h.1, h.2.later (.of_still hlater)⟩)
      exact Stuck.ask hlinked hs' ⟨hstuck.1.trans hu.memo, hstuck.2⟩
    have hmemo := (he.trans hstill).memo
    rw [produce_succ, hbody]
    dsimp only
    rw [hcomes.run_eq fun key s o t h => answer_of_recollect n h]
    cases hr : (Dialogue.ask c.key u next).run (answer env n) with
    | error e v =>
      rw [hr] at hrun
      exact ⟨hrun.1.trans hmemo, hrun.2⟩
    | ok o v =>
      rw [hr] at hrun
      have hleave : Quiet env v ((s.opened (.rule r)).leaving env r o v) := .leaving _ r o v
      have hov := hleave.overflowed (hrun.2.resolve_left (Result.exhausted_ok o v))
      exact ⟨hleave.memo.trans (hrun.1.trans hmemo), Or.inr hov⟩

/-! ## The work behind pending places -/

/-- In every state later than `s`, the work behind `a` comes by recalling alone to a dialogue that
is linked to `d`. -/
def Replays (env : Env) (s : State) (a : Place) (d : Dialogue (Outcome Value)) : Prop :=
  ∀ t, Later env s t → t.cursor = a.position → ∃ r x w d' B B', a.key = .rule r ∧
    Matcher.body? r (t.entering env r) = .ok (some x) (t.entering env r) ∧
    (x.dialogue env (t.entering env r)).Comes (recollect env) d' ∧ w.memo = t.memo ∧
    Linked env env B B' s w d d'

/-- With room for `n` open rules, what can be recalled stays, and no pending place becomes known. -/
def Permanent (env : Env) (n : Nat) : Prop :=
  ∀ (ps : Set Place) key s, Sane env s → Sized env s → (∀ b ∈ ps, Unknown env s b) →
    (∀ b ∈ ps, ∃ c ∈ insert ⟨key, s.cursor⟩ ps, Leads env s b c) →
    Later env s (Result.state (answer env n key s)) ∧
      ∀ b ∈ ps, Unknown env (Result.state (answer env n key s)) b

/-- If answers with less room are permanent, so is what a dialogue that replays itself comes to. -/
theorem Linked.permanent (hmem : env.memoizing = true) (hP : Permanent env n) {a : Place}
    {ps : Set Place} {d d' : Dialogue (Outcome Value)} (h : Linked env env #[] #[] s t d d')
    (hs : Sane env s) (hz : Sized env s) (hreplays : Replays env s a d)
    (hps : ∀ b ∈ ps, Unknown env s b)
    (hleads : ∀ b ∈ ps, b = a ∨ ∃ c ∈ ps, Leads env s b c) :
    Later env s (d.run (answer env n)).state ∧
      ∀ b ∈ ps, Unknown env (d.run (answer env n)).state b := by
  induction h with
  | done hu hw huw v =>
    have hstill := Still.of_works hu
    exact ⟨.of_still hstill, fun b hb => (hps b hb).of_memo hstill.memo⟩
  | halt hu hw huw e =>
    have hstill := Still.of_works hu
    exact ⟨.of_still hstill, fun b hb => (hps b hb).of_memo hstill.memo⟩
  | @ask s t u w hu hw huw key next next' hnext ih =>
    have hq := Quiet.of_works hu
    have hlater : Later env s u := .of_quiet hq
    have hsu := hq.sane hs
    have hzu : Sized env u := (kept_sized env 0).quiet hz hq
    have hasks : Leads env u a ⟨key, u.cursor⟩ := by
      intro t ht hc
      obtain ⟨r, x, v, e, B, B', hkey, hbody, hcomes, -, hl⟩ := hreplays t (hlater.trans ht) hc
      cases hl with
      | ask _ _ huv _ _ => exact ⟨r, x, _, _, hkey, hbody, hcomes, huv.cursor⟩
    have hans := hP ps key u hsu hzu (fun b hb => (hps b hb).of_memo hq.memo) fun b hb => by
      rcases hleads b hb with rfl | ⟨c, hc, hbc⟩
      · exact ⟨_, Set.mem_insert _ _, hasks⟩
      · exact ⟨c, Set.mem_insert_of_mem _ hc, hbc.later hlater⟩
    obtain ⟨hsane, hsized⟩ := answer_reaches_end (kept_sized env n) key hsu hzu
    rw [Dialogue.run_ask]
    cases hr : answer env n key u with
    | error e v =>
      rw [hr] at hans
      exact ⟨hlater.trans hans.1, hans.2⟩
    | ok o v =>
      rw [hr] at hans hsane hsized
      cases hov : v.overflowed with
      | true =>
        obtain ⟨-, honward⟩ := (hnext o v v (.refl v)).reaches_end (kept_onward env n) hsane trivial
        refine ⟨hlater.trans (hans.1.trans (.of_overflowed honward hov)), fun b hb => ?_⟩
        exact (hans.2 b hb).of_memo (honward.frozen hov).2
      | false =>
        have hreplays' : Replays env v a (next o v) := by
          intro t ht hc
          obtain ⟨r, x, w', e, B, B', hkey, hbody, hcomes, hmemo, hl⟩ :=
            hreplays t (hlater.trans (hans.1.trans ht)) hc
          cases hl with
          | ask _ hw' huw' _ hnext' =>
            have hret := ht.retains.trans (.of_memo (hw'.memo.trans hmemo))
            obtain ⟨v', hv', hsync, hmv⟩ := recollect_answer hmem hsu hzu hr hov huw' hret
            exact ⟨r, x, v', _, B, B', hkey, hbody, hcomes.trans (.step hv' (.refl _)),
              hmv.trans (hw'.memo.trans hmemo), hnext' o v v' hsync⟩
        have hrest := ih o v v (.refl v) hsane hsized hreplays' hans.2 fun b hb =>
          (hleads b hb).imp id fun ⟨c, hc, hbc⟩ => ⟨c, hc, hbc.later (hlater.trans hans.1)⟩
        exact ⟨hlater.trans (hans.1.trans hrest.1), hrest.2⟩

/-- A body that was found can be found again in every later state. -/
theorem replays_body {r : RuleId} {x : Expr} (hru : (s.entering env r).Rebuilt u)
    (hx : u.grammar.body r = .defined x) :
    Replays env u ⟨.rule r, s.cursor⟩ (x.dialogue env u) := by
  intro t ht hc
  have hgrows : s.grammar.Grows u.grammar := by
    rw [← (Still.entering env s r).grammar]
    exact hru.1
  have hlevel : Level s.failures t.failures s t := ⟨hc, #[], by simp, by simp⟩
  have hsync := (Synced.entering (.refl env) hlevel (hgrows.trans ht.grows) r).rebuilt hru (.refl _)
  have hbody : (t.entering env r).grammar.body r = .defined x := by
    rw [(Still.entering env t r).grammar]
    exact ht.grows.defined r x hx
  exact ⟨r, x, t.entering env r, _, _, _, rfl, Matcher.run_body?_defined hbody, .refl _,
    (Still.entering env t r).memo, x.linked (.refl env) u _ hsync⟩

/-- The work behind a key makes no entry for the key itself, nor for what was pending before. -/
theorem produce_permanent (hmem : env.memoizing = true) {ps : Set Place}
    (hP : ∀ k < n, Permanent env k) (hs : Sane env s) (hz : Sized env s)
    (ha : ⟨key, s.cursor⟩ ∈ ps) (hps : ∀ b ∈ ps, Unknown env s b)
    (hleads : ∀ b ∈ ps, b = ⟨key, s.cursor⟩ ∨ ∃ c ∈ ps, Leads env s b c) :
    Later env s (Result.state (produce env n key s)) ∧
      ∀ b ∈ ps, Unknown env (Result.state (produce env n key s)) b := by
  -- what only moves within the text or notes events leaves the memo alone
  have hquiet : ∀ {t}, Quiet env s t → Later env s t ∧ ∀ b ∈ ps, Unknown env t b :=
    fun h => ⟨.of_quiet h, fun b hb => (hps b hb).of_memo h.memo⟩
  cases key with
  | builtin c =>
    obtain ⟨o, t, ht, hw⟩ := exists_produce_builtin env n c s
    rw [ht]
    exact hquiet (.of_works hw)
  | rule r =>
    cases n with
    | zero => exact hquiet (.refl env s)
    | succ n =>
      have he : Quiet env s (s.entering env r) := .entering s r
      rw [produce_succ]
      rcases Matcher.body?_cases r (s.entering env r) with
        ⟨-, hb⟩ | ⟨x, u, hb, hru, hx⟩ | ⟨f, u, hb, hru⟩
      · rw [hb]
        exact hquiet (he.trans ((Quiet.of_works (.record env _ _)).trans (.leaving s r .failed _)))
      · have hq : Quiet env s u := he.trans (.of_rebuilt hru)
        have hlater : Later env s u := .of_quiet hq
        have hrun := (x.linked_self env u).permanent hmem (hP n (Nat.lt_succ_self n)) (hq.sane hs)
          ((kept_sized env 0).quiet hz hq) (replays_body hru hx)
          (fun b hb => (hps b hb).of_memo hq.memo) fun b hb =>
            (hleads b hb).imp id fun ⟨c, hc, hbc⟩ => ⟨c, hc, hbc.later hlater⟩
        rw [hb]
        dsimp only
        cases hr : (x.dialogue env u).run (answer env n) with
        | error e v =>
          rw [hr] at hrun
          exact ⟨hlater.trans hrun.1, hrun.2⟩
        | ok o v =>
          rw [hr] at hrun
          have hleave : Quiet env v (s.leaving env r o v) := .leaving s r o v
          exact ⟨hlater.trans (hrun.1.trans (.of_quiet hleave)),
            fun b hb => (hrun.2 b hb).of_memo hleave.memo⟩
      · rw [hb]
        exact hquiet (he.trans (.of_rebuilt hru))

/-- While a key that is not known is worked out, it stays so. -/
theorem worked_permanent (hmem : env.memoizing = true) {ps : Set Place}
    (hP : ∀ k < n, Permanent env k) (hs : Sane env s) (hz : Sized env s)
    (hk : s.known? env key = none) (hps : ∀ b ∈ ps, Unknown env s b)
    (hleads : ∀ b ∈ ps, ∃ c ∈ insert ⟨key, s.cursor⟩ ps, Leads env s b c) :
    Later env s (Result.state (produce env n key (s.opened key))) ∧
      ∀ b ∈ insert ⟨key, s.cursor⟩ ps,
        Unknown env (Result.state (produce env n key (s.opened key))) b := by
  have hopen : Quiet env s (s.opened key) := .opened s key
  have hlater : Later env s (s.opened key) := .of_quiet hopen
  have hunknown : ∀ b ∈ insert ⟨key, s.cursor⟩ ps, Unknown env (s.opened key) b := by
    intro b hb
    rcases Set.mem_insert_iff.mp hb with rfl | hb
    · exact (known?_eq_none_iff.mp hk).of_memo hopen.memo
    · exact (hps b hb).of_memo hopen.memo
  have hleads' : ∀ b ∈ insert ⟨key, s.cursor⟩ ps, b = ⟨key, s.cursor⟩ ∨
      ∃ c ∈ insert ⟨key, s.cursor⟩ ps, Leads env (s.opened key) b c := by
    intro b hb
    rcases Set.mem_insert_iff.mp hb with rfl | hb
    · exact Or.inl rfl
    · obtain ⟨c, hc, hbc⟩ := hleads b hb
      exact Or.inr ⟨c, hc, hbc.later hlater⟩
  rw [← s.opened_cursor key] at hunknown hleads' ⊢
  have hwork := produce_permanent hmem hP (hopen.sane hs) ((kept_sized env 0).quiet hz hopen)
    (Set.mem_insert _ _) hunknown hleads'
  exact ⟨hlater.trans hwork.1, hwork.2⟩

/-- Settling an outcome makes its place known and no other. -/
theorem settle_permanent {p : Nat} {ps : Set Place}
    (hun : ∀ b ∈ insert ⟨key, p⟩ ps, Unknown env s b) (hnot : ⟨key, p⟩ ∉ ps)
    (outer : Array Failure) (o : Outcome Value) :
    Later env s (s.settle env key p outer o) ∧
      ∀ b ∈ ps, Unknown env (s.settle env key p outer o) b := by
  refine ⟨.settle (hun _ (Set.mem_insert _ _)) outer o, ?_⟩
  intro b hb entry hr
  rcases hr.of_settle with ⟨-, hp, hk, -⟩ | hr
  · exact hnot (by rw [← hp, ← hk]; exact hb)
  · exact hun b (Set.mem_insert_of_mem _ hb) entry hr

/-- Nothing but keys that were not known becomes known, and no pending place is among them. -/
theorem answer_permanent (hmem : env.memoizing = true) (n : Nat) : Permanent env n := by
  induction n using Nat.strong_induction_on with
  | _ n ih =>
    intro ps key s hs hz hps hleads
    -- a pending place that is asked for again closes a loop
    by_cases ha : ⟨key, s.cursor⟩ ∈ ps
    · rw [Set.insert_eq_of_mem ha] at hleads
      have hmemo := (answer_of_loop n key s hs ha hps hleads).1
      obtain ⟨-, honward⟩ := answer_reaches_end (kept_onward env n) key hs trivial
      exact ⟨⟨honward, .of_memo hmemo⟩, fun b hb => (hps b hb).of_memo hmemo⟩
    · rcases answer_cases env key s with ⟨entry, hk⟩ | ⟨r, rfl, hk, hl⟩ | ⟨hk, hl⟩
      · obtain ⟨o, t, ht⟩ := exists_answer_of_known n hk
        have hstill := still_of_known hk ht
        rw [ht]
        exact ⟨.of_still hstill, fun b hb => (hps b hb).of_memo hstill.memo⟩
      · rw [answer_refused hk hl]
        exact ⟨.of_quiet ⟨rfl, .refl _, fun _ => rfl, id⟩, fun b hb => (hps b hb).of_memo rfl⟩
      · have hwork := worked_permanent hmem ih hs hz hk hps hleads
        rw [answer_unknown hk hl]
        cases hr : produce env n key (s.opened key) with
        | error e u =>
          rw [hr] at hwork
          exact ⟨hwork.1, fun b hb => hwork.2 b (Set.mem_insert_of_mem _ hb)⟩
        | ok o u =>
          rw [hr] at hwork
          -- only now is something remembered, and it is not pending any more
          have hset := settle_permanent hwork.2 ha s.failures o
          have hclose : Quiet env (u.settle env key s.cursor s.failures o) _ :=
            .closing _ s.cursor o key
          exact ⟨hwork.1.trans (hset.1.trans (.of_quiet hclose)),
            fun b hb => (hset.2 b hb).of_memo hclose.memo⟩

/-! ## Along a run -/

/-- The work behind a key that is not known makes no entry for it. -/
theorem work_unknown (n : Nat) (hs : Sane env s) (hz : Sized env s)
    (hk : s.known? env key = none) :
    Unknown env (Result.state (produce env n key s)) ⟨key, s.cursor⟩ := by
  by_cases hmem : env.memoizing = true
  · have hun : ∀ b ∈ ({⟨key, s.cursor⟩} : Set Place), Unknown env s b := by
      rintro b rfl
      exact known?_eq_none_iff.mp hk
    have hwork := produce_permanent hmem (fun k (_ : k < n) => answer_permanent hmem k) hs hz
      (Set.mem_singleton _) hun (fun b hb => Or.inl hb)
    exact hwork.2 _ (Set.mem_singleton _)
  · exact fun _ hr => hmem hr.1

/-- A key that was worked out is not known before its outcome is settled. -/
theorem produce_unknown (n : Nat) (hs : Sane env s) (hz : Sized env s)
    (hk : s.known? env key = none) :
    Unknown env (Result.state (produce env n key (s.opened key))) ⟨key, s.cursor⟩ := by
  have hopen : Quiet env s (s.opened key) := .opened s key
  have h := work_unknown n (hopen.sane hs) ((kept_sized env 0).quiet hz hopen)
    ((s.opened_known? env key key).trans hk)
  rw [s.opened_cursor key] at h
  exact h

/-- What can be recalled stays along a run. -/
theorem kept_later (env : Env) (n : Nat) :
    Kept env n (Sized env) fun s t => Later env s t ∧ Sized env t where
  trans h h' := ⟨h.1.trans h'.1, h'.2⟩
  holds h := h.2
  quiet hs h := ⟨.of_quiet h, (kept_sized env n).quiet hs h⟩
  settle := by
    intro k key s o t outer hk hs hz hf hun hr ht
    have hnot := work_unknown k hs hz hun
    rw [hr] at hnot
    exact ⟨.settle hnot outer o, (kept_sized env n).settle outer hk hs hz hf hun hr ht⟩

theorem Linked.later {α : Type} {d d' : Dialogue α} (n : Nat)
    (h : Linked env env #[] #[] s t d d') (hs : Sane env s) (hz : Sized env s) :
    Later env s (d.run (answer env n)).state := (h.reaches_end (kept_later env n) hs hz).2.1

/-- An evaluation takes away nothing that can be recalled. -/
theorem Expr.evaluate_later (x : Expr) (hs : Sane env s) (hz : Sized env s)
    (h : x.evaluate env s = .ok o t) : Later env s t := by
  have hlater := (x.linked_self env s).later (headroom env s.grammar) hs hz
  rw [Expr.evaluate_eq_run] at h
  rw [h] at hlater
  exact hlater

/-- A grown grammar has the same number of rules, so it gives the same room. -/
theorem headroom_of_grows {g g' : Grammar} (h : g.Grows g') :
    headroom env g' = headroom env g := by
  rw [headroom, headroom, h.size]

/-- The end of a dialogue is later than each of its answers. -/
theorem Linked.later_answer {α : Type} {d d' : Dialogue α}
    (h : Linked env env #[] #[] s t d d') (hs : Sane env s) (hz : Sized env s)
    (hu : d.Reaches (answer env n) key u) (ha : answer env n key u = .ok o w) :
    Later env w (d.run (answer env n)).state :=
  (h.reaches_end_of_answer (kept_later env n) hs hz hu ha).1

end

/-- In a session the memo has a table for every position at every moment. -/
theorem Session.sized_of_mem_moments {text : String} {config : Config} {g : Grammar}
    {cs : List (Command RuleId Expr)} {s : State}
    (hs : s ∈ (Session.start text config g).moments cs) : Sized (.ofText text config) s :=
  Session.holds_of_mem_moments (kept_sized _) (fun _ _ _ _ _ _ h => h) (sane_start _ g)
    (sized_start _ g) hs

end Packrat
