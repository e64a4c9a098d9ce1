import Mathlib.Data.Finset.Prod
import Mathlib.Logic.Relation
import Packrat.Proofs.Recall

/-!
# Room for open rules

An evaluation is exhausted because a rule is, and a rule because one that its body asks for is, with
one less to open (`Call.Asks`). So a rule that is exhausted heads a chain of rules. If the chain is
longer than there are rules and positions, one of its rules is asked for again at the same position.
It will be asked for again and again, so no room would have been enough for it, nor for those before
it. Hence the room that `headroom` gives is enough for every evaluation that has an end
(`Expr.exhausted_of_headroom`).

The grammar may grow along the chain. When a rule comes up for the second time, the bodies met on
the way are there, so from then on the chain repeats itself in one grammar
(`Call.exhausts_of_loop`).
-/

namespace Packrat

/-- A question that a dialogue comes to. -/
inductive Dialogue.Reaches {α : Type} (f : Key → Matcher) : Dialogue α → Key → State → Prop where
  | here (key : Key) (s : State) (next : Outcome Value → State → Dialogue α) :
      Reaches f (.ask key s next) key s
  | there {key key' : Key} {s t u : State} {o : Outcome Value}
      {next : Outcome Value → State → Dialogue α} (h : f key s = .ok o t)
      (h' : Reaches f (next o t) key' u) : Reaches f (.ask key s next) key' u

/-! ## Parts of a dialogue -/

namespace Dialogue

variable {α β : Type} {f : Key → Matcher} {key : Key} {t u : State} {d : Dialogue α}
  {g : α → State → Dialogue β}

theorem Reaches.bind_left (h : d.Reaches f key u) (g : α → State → Dialogue β) :
    (d.bind g).Reaches f key u := by
  induction h with
  | here key s next => exact .here key s _
  | there hr _ ih => exact .there hr ih

theorem Reaches.bind_right {a : α} (hr : d.run f = .ok a t) (h : (g a t).Reaches f key u) :
    (d.bind g).Reaches f key u := by
  induction d with
  | done a s => cases hr; exact h
  | halt e s => cases hr
  | ask key s next ih =>
    rw [run_ask] at hr
    cases ha : f key s with
    | error e v => rw [ha] at hr; cases hr
    | ok o v =>
      rw [ha] at hr
      exact .there ha (ih o v hr)

/-- A question of two dialogues in a row is one of the first, or one of the second after the first
has come to an outcome. -/
theorem Reaches.of_bind (h : (d.bind g).Reaches f key u) :
    d.Reaches f key u ∨ ∃ a t, d.run f = .ok a t ∧ (g a t).Reaches f key u := by
  induction d with
  | done a s => exact Or.inr ⟨a, s, rfl, h⟩
  | halt e s => cases h
  | ask key s next ih =>
    cases h with
    | here => exact Or.inl (.here _ _ _)
    | there hr h =>
      rcases ih _ _ h with h | ⟨a, t, ha, h⟩
      · exact Or.inl (.there hr h)
      · exact Or.inr ⟨a, t, by rw [run_ask, hr]; exact ha, h⟩

/-- A dialogue that comes to an end does so by way of its first part. -/
theorem run_bind_ok {b : β} (h : (d.bind g).run f = .ok b u) :
    ∃ a t, d.run f = .ok a t ∧ (g a t).run f = .ok b u := by
  rw [run_bind] at h
  cases hr : d.run f with
  | error e t => rw [hr] at h; cases h
  | ok a t => rw [hr] at h; exact ⟨a, t, rfl, h⟩

end Dialogue

section

variable {env : Env} {n k : Nat} {s t u : State} {key : Key}

/-! ## Exhausted dialogues -/

/-- A dialogue is exhausted where it asks for something that is, or by itself. -/
theorem Dialogue.exhausted_cases {α : Type} {f f' : Key → Matcher}
    (hf : ∀ key, Refines (f key) (f' key)) (d : Dialogue α) (h : Result.Exhausted (d.run f)) :
    (∃ key u, d.Reaches f key u ∧ Result.Exhausted (f key u)) ∨ Result.Exhausted (d.run f') := by
  induction d with
  | done a s => exact Or.inr h
  | halt e s => exact Or.inr h
  | ask key s next ih =>
    by_cases he : Result.Exhausted (f key s)
    · exact Or.inl ⟨key, s, .here key s next, he⟩
    · rw [run_ask] at h
      rw [run_ask, hf key s he]
      cases hr : f key s with
      | error e t =>
        rw [hr] at h
        exact Or.inr h
      | ok o t =>
        rw [hr] at h
        rcases ih o t h with ⟨key', u, hu, he'⟩ | he'
        · exact Or.inl ⟨key', u, .there hr hu, he'⟩
        · exact Or.inr he'

/-- Where an answer is exhausted its work is. -/
theorem exhausted_produce (h : Result.Exhausted (answer env n key s)) :
    s.known? env key = none ∧ key.refused env s = false ∧
      Result.Exhausted (produce env n key (s.opened key)) := by
  obtain ⟨t, ht⟩ := h.eq
  obtain ⟨hk, hl, hp⟩ := answer_error ht
  refine ⟨hk, hl, ?_⟩
  rw [hp]
  trivial

theorem builtin_not_exhausted (env : Env) (n : Nat) (c : CharClass) (s : State) :
    ¬ Result.Exhausted (answer env n (.builtin c) s) := by
  intro h
  obtain ⟨-, -, hp⟩ := exhausted_produce h
  obtain ⟨o, t, ht, -⟩ := exists_produce_builtin env n c (s.opened (.builtin c))
  rw [ht] at hp
  exact Result.exhausted_ok o t hp

/-- In the reference run, exhausted work exhausts the answer. -/
theorem exhausted_answer (h : Result.Exhausted (produce env.reference n key (s.opened key))) :
    Result.Exhausted (answer env.reference n key s) := by
  obtain ⟨t, ht⟩ := h.eq
  rw [answer_reference, ht]
  trivial

/-- Evaluates a rule, which fails where it would be exhausted. -/
def tamed (env : Env) (n : Nat) (r : RuleId) : Matcher := fun s =>
  match callRule env n r s with
  | .error .exhausted _ => Matcher.fail (.tooDeep r.label) s
  | result => result

/-- A rule that fails where it would be exhausted is orderly without exception. -/
theorem orderly_tamed (env : Env) (n : Nat) (r : RuleId) : (tamed env n r).Orderly env True := by
  intro s hs
  have h : Orderly env False (Lands env s) (callRule env n r s) := orderly_answer n (.rule r) s hs
  unfold tamed
  cases hc : callRule env n r s with
  | ok o t => rw [hc] at h; exact h
  | error e t =>
    rw [hc] at h
    cases e with
    | exhausted => exact Matcher.orderly_fail _ s hs
    | fault f => exact ⟨h.1, fun _ => by simp⟩

/-- Answers are those of tamed rules, or exhausted. -/
theorem refines_tamed (env : Env) (n : Nat) (key : Key) :
    Refines (answer env n key) (answers env (tamed env n) key) := by
  intro s hs
  cases key with
  | builtin c => rfl
  | rule r =>
    change ¬ Result.Exhausted (callRule env n r s) at hs
    change tamed env n r s = callRule env n r s
    unfold tamed
    cases hc : callRule env n r s with
    | ok o t => rfl
    | error e t =>
      rw [hc] at hs
      cases e with
      | exhausted => exact absurd trivial hs
      | fault f => rfl

/-- An evaluation of an expression is exhausted because a rule that it asks for is. -/
theorem Expr.exhausted_cause (x : Expr) (hs : Sane env s)
    (h : Result.Exhausted ((x.dialogue env s).run (answer env n))) :
    ∃ r u, (x.dialogue env s).Reaches (answer env n) (.rule r) u ∧
      Result.Exhausted (answer env n (.rule r) u) := by
  rcases Dialogue.exhausted_cases (refines_tamed env n) (x.dialogue env s) h with
    ⟨key, u, hu, he⟩ | he
  · cases key with
    | builtin c => exact absurd he (builtin_not_exhausted env n c u)
    | rule r => exact ⟨r, u, hu, he⟩
  · -- with rules that fail instead, nothing is left that could be exhausted
    have htotal := Expr.orderly (orderly_tamed env n) orderly_builtin x s hs
    obtain ⟨t, ht⟩ := he.eq
    rw [Expr.matcher_eq_run, ht] at htotal
    exact absurd rfl (htotal.2 trivial)

/-- With any other room, an answer is the same or exhausted. -/
theorem answer_agree {o : Outcome Value} (h : answer env n key s = .ok o t) :
    Result.Exhausted (answer env k key s) ∨ answer env k key s = .ok o t := by
  by_cases he : Result.Exhausted (answer env k key s)
  · exact Or.inl he
  · right
    rcases Nat.le_total n k with hle | hle
    · rw [answer_mono env hle key s (by rw [h]; exact Result.exhausted_ok o t), h]
    · rw [← answer_mono env hle key s he, h]

/-- A question that is exhausted exhausts the dialogue that comes to it. -/
theorem Dialogue.Reaches.exhausted {α : Type} {d : Dialogue α}
    (h : d.Reaches (answer env n) key u) (he : Result.Exhausted (answer env k key u)) :
    Result.Exhausted (d.run (answer env k)) := by
  induction h with
  | here key s next =>
    obtain ⟨t, ht⟩ := he.eq
    rw [Dialogue.run_ask, ht]
    trivial
  | there h _ ih =>
    rw [Dialogue.run_ask]
    rcases answer_agree (k := k) h with he' | hk
    · obtain ⟨t, ht⟩ := he'.eq
      rw [ht]
      trivial
    · rw [hk]
      exact ih he

/-- A question that a dialogue comes to is on its course. -/
theorem Dialogue.Reaches.mem_course {α : Type} {f : Key → Matcher}
    {inner : Key → State → List State} {d : Dialogue α} (h : d.Reaches f key u) :
    u ∈ d.course f inner := by
  induction h with
  | here key s next =>
    rw [Dialogue.course]
    exact List.mem_append_left _ List.mem_cons_self
  | there h _ ih =>
    rw [Dialogue.course, h]
    exact List.mem_append_right _ (List.mem_cons_of_mem _ ih)

/-- More room changes no answer on the way to a question. -/
theorem Dialogue.Reaches.mono {α : Type} {d : Dialogue α} (h : d.Reaches (answer env n) key u)
    (hk : n ≤ k) : d.Reaches (answer env k) key u := by
  induction h with
  | here key s next => exact .here key s next
  | there h _ ih =>
    refine .there ?_ ih
    rw [answer_mono env hk _ _ (by rw [h]; exact Result.exhausted_ok _ _), h]

/-- What is kept holds from the start of a dialogue to its questions. -/
theorem Linked.reaches_question {α : Type} {I : State → Prop} {R : State → State → Prop}
    (hR : Kept env n I R) {d d' : Dialogue α} (h : Linked env env #[] #[] s t d d')
    (hs : Sane env s) (hI : I s) (hu : d.Reaches (answer env n) key u) : Sane env u ∧ R s u :=
  (h.passes hR (fun key _ hs hI => passes_answer hR key hs hI) hs hI).reaches hR hu.mem_course

/-- What is kept holds from an answer to the end of a dialogue. -/
theorem Linked.reaches_end_of_answer {α : Type} {I : State → Prop} {R : State → State → Prop}
    (hR : Kept env n I R) {d d' : Dialogue α} (h : Linked env env #[] #[] s t d d')
    (hs : Sane env s) (hI : I s) (hu : d.Reaches (answer env n) key u) {o : Outcome Value}
    {w : State} (ha : answer env n key u = .ok o w) : R w (d.run (answer env n)).state := by
  induction hu generalizing s t d' with
  | here key u next =>
    cases h with
    | ask hu _ _ _ hnext =>
      have hq := Quiet.of_works hu
      obtain ⟨hsane, hRu⟩ := answer_reaches_end hR key (hq.sane hs) (hR.holds (hR.quiet hI hq))
      rw [ha] at hsane hRu
      rw [Dialogue.run_ask, ha]
      exact ((hnext o w w (.refl w)).reaches_end hR hsane (hR.holds hRu)).2
  | @there key key' v v' u o' next hr _ ih =>
    cases h with
    | ask hv _ _ _ hnext =>
      have hq := Quiet.of_works hv
      obtain ⟨hsane, hRv⟩ := answer_reaches_end hR key (hq.sane hs) (hR.holds (hR.quiet hI hq))
      rw [hr] at hsane hRv
      rw [Dialogue.run_ask, hr]
      exact ih (hnext o' v' v' (.refl v')) hsane (hR.holds hRv) ha

/-- Two linked dialogues come to the same questions. -/
theorem Linked.reaches {α : Type} {ceiling : Option Grammar} {B B' : Array Failure}
    {d d' : Dialogue α} (hu : d.Reaches (answer env n) key u) :
    ∀ s t, Linked env env.reference B B' s t d d' → Linked env env #[] #[] s s d d →
      env.limit = none → Sane env s → MemoSound env s → s.grammar.Tracks ceiling t.grammar →
      (∀ top, ceiling = some top → u.grammar.Grows top) →
      ∃ k w, d'.Reaches (answer env.reference k) key w ∧ Synced B B' u w ∧
        u.grammar.Tracks ceiling w.grammar := by
  induction hu generalizing d' with
  | here key u next =>
    intro s t h hself hlim hs hm hg hbelow
    cases h with
    | ask hu hw huw _ hnext =>
      refine ⟨0, _, .here key _ _, huw, ?_⟩
      rw [hu.grammar, hw.grammar]
      exact hg
  | @there key key' u v u' o next hr hu' ih =>
    intro s t h hself hlim hs hm hg hbelow
    cases h with
    | @ask _ _ _ w hu hw huw _ _ next' hnext =>
      cases hself with
      | ask _ _ _ _ hnext₀ =>
        have hq := Quiet.of_works hu
        have hgu : u.grammar.Tracks ceiling w.grammar := by rw [hu.grammar, hw.grammar]; exact hg
        have hsane := (answer_reaches_end (kept_sound env n) key (hq.sane hs) (hm.of_quiet hq))
        rw [hr] at hsane
        have hself' := hnext₀ o v v (.refl v)
        obtain ⟨-, honward⟩ := hself'.reaches_question (kept_onward env n) hsane.1 trivial hu'
        have hclear : Clear env ceiling v :=
          ⟨Or.inl hlim, fun top htop => honward.grows.trans (hbelow top htop)⟩
        have hans := @follows_answer env n ceiling B B' u w key (faithful env n) (hq.sane hs)
          (hm.of_quiet hq) huw hgu (by rw [hr]; exact hclear)
        rw [hr] at hans
        obtain ⟨k, v', hv', hsync, hgv⟩ := hans
        obtain ⟨k', w', hw', hres⟩ := ih v v' (hnext o v v' hsync) hself' hlim hsane.1 hsane.2 hgv
          hbelow
        refine ⟨max k k', w', .there ?_ (hw'.mono (Nat.le_max_right k k')), hres⟩
        dsimp only at hv'
        -- more room keeps this answer, so one room does for it and for the rest
        have hne : ¬ Result.Exhausted (answer env.reference k key w) := by
          rw [hv']
          exact Result.exhausted_ok _ _
        rw [answer_mono _ (Nat.le_max_left k k') _ _ hne, hv']

end

/-! ## Calls -/

/-- A rule that is about to be worked out in a state. -/
structure Call where
  rule : RuleId
  state : State

namespace Call

/-- The call `c` is exhausted with room for `n` open rules. -/
def Exhausts (env : Env) (n : Nat) (c : Call) : Prop :=
  Result.Exhausted (produce env n (.rule c.rule) c.state)

/-- The body of `c` asks for the rule of `c'`, given enough room. -/
def Asks (env : Env) (c c' : Call) : Prop :=
  ∃ n x t u, Matcher.body? c.rule (c.state.entering env c.rule) = .ok (some x) t ∧
    (x.dialogue env t).Reaches (answer env n) (.rule c'.rule) u ∧
    c'.state = u.opened (.rule c'.rule)

variable {env : Env} {n k : Nat} {c c' d : Call}

theorem exhausts_zero (env : Env) (c : Call) : c.Exhausts env 0 := trivial

/-- Less room exhausts a call all the more. -/
theorem Exhausts.anti (h : c.Exhausts env n) (hk : k ≤ n) : c.Exhausts env k := by
  by_contra hne
  have he := produce_mono env hk (.rule c.rule) c.state hne
  rw [Exhausts, he] at h
  exact hne h

/-- An exhausted call asks for one that is exhausted with one less to open. -/
theorem Exhausts.asks (hs : Sane env c.state) (h : c.Exhausts env (n + 1)) :
    ∃ c', Asks env c c' ∧ c'.Exhausts env n := by
  rw [Exhausts, produce_succ] at h
  rcases Matcher.body?_cases c.rule (c.state.entering env c.rule) with
    ⟨-, hb⟩ | ⟨x, t, hb, hrt, -⟩ | ⟨f, t, hb, -⟩
  · rw [hb] at h
    exact absurd h (Result.exhausted_ok _ _)
  · rw [hb] at h
    dsimp only at h
    have ht : Sane env t := (Quiet.trans (.entering c.state c.rule) (.of_rebuilt hrt)).sane hs
    have he : Result.Exhausted ((x.dialogue env t).run (answer env n)) := by
      cases hr : (x.dialogue env t).run (answer env n) with
      | ok o u => rw [hr] at h; exact absurd h (Result.exhausted_ok _ _)
      | error e u => rw [hr] at h; exact h
    obtain ⟨r, u, hu, hru⟩ := x.exhausted_cause ht he
    obtain ⟨-, -, hp⟩ := exhausted_produce hru
    exact ⟨⟨r, u.opened (.rule r)⟩, ⟨n, x, t, u, hb, hu, rfl⟩, hp⟩
  · rw [hb] at h
    cases h

/-- What evaluations keep holds where a body asks for a rule. -/
theorem Asks.kept {I : State → Prop} {R : State → State → Prop} (hR : ∀ n, Kept env n I R)
    (h : Asks env c c') (hs : Sane env c.state) (hI : I c.state) :
    Sane env c'.state ∧ R c.state c'.state := by
  obtain ⟨n, x, t, u, hb, hu, hc'⟩ := h
  have hq : Quiet env c.state t :=
    (Quiet.entering c.state c.rule).trans (.of_rebuilt (Matcher.rebuilt_of_body? hb))
  have ho : Quiet env u (u.opened (.rule c'.rule)) := .opened u _
  have hct := (hR n).quiet hI hq
  obtain ⟨hsu, htu⟩ := (x.linked_self env t).reaches_question (hR n) (hq.sane hs)
    ((hR n).holds hct) hu
  have huo := (hR n).quiet ((hR n).holds htu) ho
  rw [hc']
  exact ⟨ho.sane hsu, (hR n).trans hct ((hR n).trans htu huo)⟩

theorem Asks.onward (h : Asks env c c') (hs : Sane env c.state) :
    Sane env c'.state ∧ Onward c.state c'.state := h.kept (kept_onward env) hs trivial

theorem Asks.failures (h : Asks env c c') : c'.state.failures = #[] := by
  obtain ⟨n, x, t, u, -, -, hc'⟩ := h
  rw [hc']
  exact State.opened_failures u _

/-- Only rules of the grammar have a body that asks. -/
theorem Asks.index_lt (h : Asks env c c') : c.rule.index < c.state.grammar.rules.size := by
  obtain ⟨n, x, t, u, hb, -, -⟩ := h
  have hg : (c.state.entering env c.rule).grammar = c.state.grammar := entering_grammar _ _
  rw [← hg]
  refine Grammar.index_lt_of_body_ne fun hd => ?_
  rw [Matcher.run_body?_undefined hd] at hb
  cases hb

/-- A call that is asked for by the reference run and exhausted exhausts the one that asks. -/
theorem Asks.exhausts (h : Asks env.reference c c') (he : c'.Exhausts env.reference k) :
    c.Exhausts env.reference (k + 1) := by
  obtain ⟨n, x, t, u, hb, hu, hc'⟩ := h
  rw [Exhausts, hc'] at he
  obtain ⟨v, hv⟩ := (hu.exhausted (exhausted_answer he)).eq
  rw [Exhausts, produce_succ, hb]
  dsimp only
  rw [hv]
  trivial

/-- The reference run asks for the same from a call of the same rule at the same place. -/
theorem Asks.track (h : Asks env c c') (ceiling : Option Grammar) (hlim : env.limit = none)
    (hs : Sane env c.state) (hm : MemoSound env c.state) (hi : d.rule.index = c.rule.index)
    (hl : Level #[] #[] c.state d.state) (hg : c.state.grammar.Tracks ceiling d.state.grammar)
    (hbelow : ∀ top, ceiling = some top → c'.state.grammar.Grows top) :
    ∃ d', Asks env.reference d d' ∧ d'.rule = c'.rule ∧ Level #[] #[] c'.state d'.state ∧
      c'.state.grammar.Tracks ceiling d'.state.grammar := by
  obtain ⟨n, x, t, u, hb, hu, hc'⟩ := h
  have hrt := Matcher.rebuilt_of_body? hb
  have hq : Quiet env c.state t := (Quiet.entering c.state c.rule).trans (.of_rebuilt hrt)
  have hself := x.linked_self env t
  obtain ⟨-, htu⟩ := hself.reaches_question (kept_onward env n) (hq.sane hs) trivial hu
  have hgu : c'.state.grammar = u.grammar := by rw [hc', State.opened_grammar]
  have hbu : ∀ top, ceiling = some top → u.grammar.Grows top := by rw [← hgu]; exact hbelow
  have he : d.state.entering env.reference d.rule = d.state.entering env.reference c.rule := by
    rw [State.entering, State.entering, Grammar.skipsBlanks_congr_index _ hi]
  have hge : (c.state.entering env c.rule).grammar.Tracks ceiling
      (d.state.entering env.reference c.rule).grammar := by
    rw [entering_grammar, entering_grammar]
    exact hg
  obtain ⟨w, hbw, hrw, hgw⟩ := body?_tracks hge hb
    fun top htop => htu.grows.trans (hbu top htop)
  have hsync := (Synced.entering (alike_reference env) hl hg.grows c.rule).rebuilt hrt hrw
  obtain ⟨k, v, hv, hsv, hgv⟩ := Linked.reaches hu t w (x.linked (alike_reference env) t w hsync)
    hself hlim (hq.sane hs) (hm.of_quiet hq) hgw hbu
  refine ⟨⟨c'.rule, v.opened (.rule c'.rule)⟩, ⟨k, x, w, v, ?_, hv, rfl⟩, rfl, ?_, ?_⟩
  · rw [he, Matcher.body?_congr_index hi]
    exact hbw
  · rw [hc']
    exact .opened hsv.cursor _
  · rw [hgu]
    dsimp only
    rw [State.opened_grammar]
    exact hgv

/-! ## Calls of one rule at one place -/

/-- A call that is exhausted is exhausted without remembering anything, too. -/
theorem Exhausts.reference (hlim : env.limit = none) (h : c.Exhausts env n)
    (hs : Sane env c.state) (hm : MemoSound env c.state) (hi : d.rule.index = c.rule.index)
    (hl : Level #[] #[] c.state d.state) (hg : d.state.grammar = c.state.grammar) :
    d.Exhausts env.reference n := by
  induction n generalizing c d with
  | zero => exact exhausts_zero _ d
  | succ n ih =>
    obtain ⟨c', hcc', hc'⟩ := h.asks hs
    obtain ⟨hs', hm'⟩ := hcc'.kept (kept_sound env) hs hm
    obtain ⟨d', hdd', hrule, hl', hg'⟩ :=
      hcc'.track none hlim hs hm hi hl hg (fun top htop => by cases htop)
    exact hdd'.exhausts (ih hc' hs' hm' (by rw [hrule]) hl' hg')

open Relation (TransGen)

/-- Along a chain of calls the grammar grows and the cursor stays in the text. -/
theorem onward_of_chain (h : TransGen (Asks env) c c') (hs : Sane env c.state) :
    Sane env c'.state ∧ Onward c.state c'.state := by
  induction h with
  | single h => exact h.onward hs
  | tail _ h ih =>
    obtain ⟨hs', ho⟩ := h.onward ih.1
    exact ⟨hs', (kept_onward env 0).trans ih.2 ho⟩

/-- An exhausted call exhausts those it was reached from. -/
theorem exhausts_of_chain (h : TransGen (Asks env.reference) c c')
    (he : c'.Exhausts env.reference k) : c.Exhausts env.reference (k + 1) := by
  induction h with
  | single h => exact h.exhausts he
  | tail _ h ih => exact ih ((h.exhausts he).anti (Nat.le_succ k))

/-- A chain of calls can be followed in a grammar above all of theirs. -/
theorem chain_track (h : TransGen (Asks env.reference) c c') (hs : Sane env.reference c.state)
    (hi : d.rule.index = c.rule.index) (hl : Level #[] #[] c.state d.state)
    (hg : c'.state.grammar.Grows d.state.grammar) :
    ∃ d', TransGen (Asks env.reference) d d' ∧ d'.rule = c'.rule ∧
      Level #[] #[] c'.state d'.state ∧ d'.state.grammar = d.state.grammar := by
  induction h with
  | @single b h =>
    have hgrows := (h.onward hs).2.grows.trans hg
    obtain ⟨d', hdd', hrule, hl', hg'⟩ := h.track (some d.state.grammar) rfl hs
      (memoSound_reference env _) hi hl ⟨rfl, hgrows⟩ (fun top htop => by cases htop; exact hg)
    exact ⟨d', .single hdd', hrule, hl', hg'.1⟩
  | @tail b b' h h' ih =>
    have hsb := (onward_of_chain h hs).1
    have hgrows := (h'.onward hsb).2.grows.trans hg
    obtain ⟨e, hde, hrule, hl', hg'⟩ := ih hgrows
    obtain ⟨d', hed', hrule', hl'', hg''⟩ := h'.track (some d.state.grammar) rfl hsb
      (memoSound_reference env _) (by rw [hrule]) hl' ⟨hg', hgrows⟩
      (fun top htop => by cases htop; exact hg)
    exact ⟨d', hde.tail hed', hrule', hl'', hg''.1⟩

/-- A call that leads to one of the same rule at the same place asks for it again and again. -/
theorem exhausts_of_loop (h : TransGen (Asks env.reference) c c')
    (hs : Sane env.reference c.state) (hi : c'.rule.index = c.rule.index)
    (hl : Level #[] #[] c.state c'.state) (k : Nat) : c'.Exhausts env.reference k := by
  obtain ⟨d, hd, hrule, hld, hgd⟩ := chain_track h hs hi hl (.refl _)
  have hs' := (onward_of_chain h hs).1
  induction k with
  | zero => exact exhausts_zero _ c'
  | succ k ih =>
    have hdk : d.Exhausts env.reference k := @Exhausts.reference env.reference k c' d rfl ih hs'
      (memoSound_reference env _) (by rw [hrule]) hld hgd
    exact exhausts_of_chain hd hdk

/-- Where a call stands: its rule and its position. -/
def place (c : Call) : Nat × Nat := (c.rule.index, c.state.cursor)

/-- The places of a grammar with so many rules. -/
def places (env : Env) (size : Nat) : Finset (Nat × Nat) :=
  Finset.range size ×ˢ Finset.range (env.length + 1)

theorem card_places (env : Env) (size : Nat) :
    (places env size).card = size * (env.length + 1) := by
  simp [places]

/-- Calls that ask stand at places of the grammar and the text. -/
theorem Asks.place_mem {size : Nat} (h : Asks env c c') (hs : Sane env c.state)
    (hsize : c.state.grammar.rules.size = size) : c.place ∈ places env size := by
  rw [places, Finset.mem_product, Finset.mem_range, Finset.mem_range]
  exact ⟨hsize ▸ h.index_lt, Nat.lt_succ_of_le hs.cursor⟩

/-- A call that is exhausted with more room than there are places is exhausted with any room.
`seen` are places of calls that led to it. -/
theorem exhausts_of_exhausts {size : Nat} (h : c.Exhausts env.reference n)
    (hs : Sane env.reference c.state) (hf : c.state.failures = #[])
    (hsize : c.state.grammar.rules.size = size) (seen : Finset (Nat × Nat))
    (hseen : seen ⊆ places env size)
    (hled : ∀ p ∈ seen, ∃ a : Call, a.place = p ∧ a.state.failures = #[] ∧
      Sane env.reference a.state ∧ TransGen (Asks env.reference) a c)
    (hn : size * (env.length + 1) < n + seen.card) (k : Nat) : c.Exhausts env.reference k := by
  -- each step spends one of the room and sees one more place, until a place comes up again
  induction n generalizing c seen k with
  | zero =>
    have hcard := Finset.card_le_card hseen
    rw [card_places] at hcard
    omega
  | succ n ih =>
    by_cases hc : c.place ∈ seen
    · obtain ⟨a, hplace, hfa, hsa, hchain⟩ := hled _ hc
      obtain ⟨hi, hcur⟩ := Prod.mk.inj hplace
      refine exhausts_of_loop hchain hsa hi.symm ⟨hcur.symm, #[], ?_, ?_⟩ k
      · simpa using hfa
      · simpa using hf
    · obtain ⟨c', hcc', hc'⟩ := h.asks hs
      obtain ⟨hs', honward⟩ := hcc'.onward hs
      have hall : ∀ k, c'.Exhausts env.reference k := by
        refine ih hc' hs' hcc'.failures (honward.grows.size.trans hsize) (insert c.place seen)
          ?_ ?_ ?_
        · exact Finset.insert_subset (hcc'.place_mem hs hsize) hseen
        · intro p hp
          rcases Finset.mem_insert.mp hp with rfl | hp
          · exact ⟨c, rfl, hf, hs, .single hcc'⟩
          · obtain ⟨a, hplace, hfa, hsa, hchain⟩ := hled p hp
            exact ⟨a, hplace, hfa, hsa, hchain.tail hcc'⟩
        · rw [Finset.card_insert_of_notMem hc]
          omega
      exact (hcc'.exhausts (hall k)).anti (Nat.le_succ k)

end Call

/-- An evaluation that is exhausted with the room of `headroom` is exhausted with any room. -/
theorem Expr.exhausted_of_headroom {env : Env} (x : Expr) {s : State}
    (hs : Sane env.reference s) (h : Result.Exhausted (x.evaluate env.reference s)) (k : Nat) :
    Result.Exhausted ((x.dialogue env.reference s).run (answer env.reference k)) := by
  rw [Expr.evaluate_eq_run] at h
  obtain ⟨r, u, hu, hru⟩ := x.exhausted_cause hs h
  obtain ⟨-, -, hp⟩ := exhausted_produce hru
  obtain ⟨hsu, hsu'⟩ := (x.linked_self env.reference s).reaches_question (kept_onward _ _) hs
    trivial hu
  have ho : Quiet env.reference u (u.opened (.rule r)) := .opened u _
  have hroom : s.grammar.rules.size * (env.length + 1) <
      headroom env.reference s.grammar + (∅ : Finset (Nat × Nat)).card := by
    simp [headroom, Env.reference, Env.length]
  have hcall : Call.Exhausts env.reference (headroom env.reference s.grammar)
      ⟨r, u.opened (.rule r)⟩ := hp
  have hall : Call.Exhausts env.reference k ⟨r, u.opened (.rule r)⟩ :=
    Call.exhausts_of_exhausts hcall (ho.sane hsu) (u.opened_failures _)
      (ho.grows.size.trans hsu'.grows.size) ∅ (Finset.empty_subset _) (by simp) hroom k
  exact hu.exhausted (exhausted_answer hall)

end Packrat
