import Packrat.Proofs.Edge
import Packrat.Proofs.Permanence
import Packrat.Proofs.Termination

/-!
# Grammars without left recursion

A rule left-calls the rules at the left edge of its body. If every left-call goes down in some rank
of the rules, no evaluation without a limit goes on for ever: from one open rule to the next, either
the cursor moves on or the rank goes down, so no rule is open twice at one position, and there are
only so many rules and positions (`Call.not_exhausts`).

For this a rule that is asked for before anything was consumed has to stand at the left edge. So
what matched nothing has to be nullable, also where a match is recalled, which may have been
remembered long before, in a grammar with fewer bodies. `Tight` says so of the memo: it stays when
bodies are built or defined, since they are never taken back.
-/

namespace Packrat

namespace Grammar

/-- `g'` is `g` after bodies were built, or were found to be defective. -/
def Builds : Grammar → Grammar → Prop :=
  Relation.ReflTransGen fun g g' => ∃ r b, g.body r = .delayed b ∧ g' = (Matcher.built g r b).2

/-- The rule `r` has the body `x`, or has it after some bodies were built. -/
def Gives (g : Grammar) (r : RuleId) (x : Expr) : Prop := ∃ g', g.Builds g' ∧ g'.Defines r x

/-- The rule `r'` stands in the body of `r` behind nullable steps only. -/
def LeftCalls (g : Grammar) (r r' : RuleId) : Prop :=
  ∃ x, g.Gives r x ∧ x.Begins (Expr.Nullable g.Gives) r'

variable {g g' g'' : Grammar} {r : RuleId} {x : Expr}

theorem Builds.trans (h : g.Builds g') (h' : g'.Builds g'') : g.Builds g'' :=
  Relation.ReflTransGen.trans h h'

theorem Builds.gives (h : g.Builds g') (hx : g'.Defines r x) : g.Gives r x := ⟨g', h, hx⟩

/-- In a grammar without bodies that are built on first use, rules have the bodies that they are
given. -/
theorem defines_of_gives (hg : ∀ r b, g.body r ≠ .delayed b) (h : g.Gives r x) : g.Defines r x := by
  obtain ⟨g', hbuilds, hx⟩ := h
  cases hbuilds.cases_head with
  | inl heq => rw [heq]; exact hx
  | inr hstep =>
    obtain ⟨-, ⟨r', b, hb, -⟩, -⟩ := hstep
    exact absurd hb (hg r' b)

end Grammar

/-- What is remembered as a match of nothing is nullable. -/
def Tight (env : Env) (s : State) : Prop :=
  ∀ p key v, s.Recalls env p key (.success p v) → key.expr.Nullable s.grammar.Defines

/-- With room for `n` open rules, work that comes to a match of nothing is behind a nullable key. -/
def Thrifty (env : Env) (n : Nat) : Prop :=
  ∀ key s v t, Sane env s → Tight env s → produce env n key s = .ok (.matched s.cursor v) t →
    key.expr.Nullable t.grammar.Defines

section

variable {env : Env} {n : Nat} {key : Key} {s t u : State} {v : Value}

/-! ## Matches of nothing in the memo -/

/-- A memo stays tight while definitions are only added. -/
theorem Tight.of_defines (hs : Tight env s) (hm : t.memo = s.memo)
    (hd : ∀ r x, s.grammar.Defines r x → t.grammar.Defines r x) : Tight env t :=
  fun p key v hr => (hs p key v (hr.congr hm)).mono hd

theorem Tight.of_quiet (h : Quiet env s t) (hs : Tight env s) : Tight env t :=
  hs.of_defines h.memo h.grows.defined

/-- Evaluations keep the memo tight if the work behind their keys is thrifty. -/
theorem kept_tight_of_thrifty (hn : ∀ k ≤ n, Thrifty env k) :
    Kept env n (Tight env) fun _ t => Tight env t where
  trans _ h := h
  holds h := h
  quiet hs h := hs.of_quiet h
  settle := by
    intro k key s o t outer hk hs hT _ _ hr ht p key' v hrec
    rw [State.settle_grammar]
    rcases hrec.of_settle with ⟨-, rfl, rfl, hentry⟩ | hrec
    · cases o with
      | failed => cases hentry
      | matched stop v' =>
        cases hentry
        exact hn k hk key' s v t hs hT hr
    · exact ht p key' v hrec

/-- Behind a match that consumed something, blanks do not lead back. -/
theorem Matcher.skippingBlanks_le {p stop : Nat} {v' : Value} (hs : s.cursor ≤ env.length)
    (h : skippingBlanks env (.matched p v') s = .ok (.matched stop v) t) : s.cursor ≤ stop := by
  have hle := (State.skipBlanks_bounds hs).1
  cases h
  exact hle

/-- A match of nothing that is recalled or worked out is of a nullable key. -/
theorem answer_nullable (hn : Thrifty env n) (hs : Sane env s) (hT : Tight env s)
    (h : answer env n key s = .ok (.matched s.cursor v) t) :
    key.expr.Nullable t.grammar.Defines := by
  rcases answer_cases env key s with ⟨entry, hk⟩ | ⟨r, rfl, hk, hl⟩ | ⟨hk, hl⟩
  · have hstill := still_of_known hk h
    have hrec := State.known?_eq_some.mp hk
    have hfit := hs.memo _ _ _ hrec
    cases entry with
    | failure fs =>
      obtain ⟨es, he⟩ := answer_known_failure (n := n) hk
      rw [he] at h
      cases h
    | success stop v' =>
      obtain ⟨es, he⟩ := answer_known_success (n := n) hk
      rw [he] at h
      -- blanks only lead further on, so the entry itself is a match of nothing
      have hle : stop ≤ s.cursor := Matcher.skippingBlanks_le hfit.2 h
      obtain rfl : stop = s.cursor := Nat.le_antisymm hle hfit.1
      rw [hstill.grammar]
      exact hT _ _ _ hrec
  · rw [answer_refused hk hl] at h
    cases h
  · obtain ⟨o, u, hr, hend⟩ := answer_worked hk hl h
    have hopen : Quiet env s (s.opened key) := .opened s key
    have hland := orderly_produce n key _ (hopen.sane hs)
    have hgrammar := (still_closing hend).grammar
    rw [hr] at hland
    cases o with
    | failed => cases hend
    | matched stop v' =>
      obtain ⟨hsu, hcur, hle, -⟩ := hland
      have hclosed : ((u.settle env key s.cursor s.failures (.matched stop v')).closed s.cursor
          (.matched stop v') key).cursor = u.cursor := by
        rw [State.settle_eq]
        cases key <;> rfl
      have hback := Matcher.skippingBlanks_le (by rw [hclosed]; exact hsu.cursor) hend
      rw [s.opened_cursor key] at hle
      have hstop : stop = (s.opened key).cursor := by
        rw [s.opened_cursor key]
        omega
      rw [hstop] at hr
      rw [hgrammar, State.settle_grammar]
      exact hn key (s.opened key) v' u (hopen.sane hs) (hT.of_quiet hopen) hr

/-- A built-in class matches one character. -/
theorem produce_builtin_ne (c : CharClass) :
    produce env n (.builtin c) s ≠ .ok (.matched s.cursor v) t := by
  intro h
  rw [produce_builtin] at h
  obtain ⟨hstop, -⟩ := Matcher.scan_stop h
  omega

/-- A rule whose work comes to a match of nothing has a nullable body, so it is nullable itself. -/
theorem thrifty_succ (hn : ∀ k ≤ n, Thrifty env k) : Thrifty env (n + 1) := by
  intro key s v t hs hT h
  cases key with
  | builtin c => exact absurd h (produce_builtin_ne c)
  | rule r =>
    obtain ⟨hle, -⟩ := entering_bounds hs.cursor r
    obtain ⟨k, ⟨⟩, ⟨-, -, ho, -⟩ | ⟨x, u, w, -, hru, hx, hr, rfl⟩⟩ := produce_rule_cases h
    · cases ho
    · have hq : Quiet env s u := (Quiet.entering s r).trans (.of_rebuilt hru)
      have hsu := hq.sane hs
      have hTu := hT.of_quiet hq
      have hcu : u.cursor = (s.entering env r).cursor := by
        obtain ⟨-, g, es, rfl⟩ := hru
        rfl
      have hself := x.linked_self env u
      obtain ⟨-, -, hle', -⟩ := x.run_lands hsu hr
      -- what the body asked for was answered in a grammar that has grown since
      have hweighs : (x.dialogue env u).Weighs (Expr.Nullable w.grammar.Defines)
          (answer env n) := by
        intro key' u' v' t' hu' ha
        obtain ⟨hsu', hTu'⟩ := hself.reaches_question (kept_tight_of_thrifty hn) hsu hTu hu'
        have honward := hself.reaches_end_of_answer (kept_onward env n) hsu trivial hu' ha
        rw [hr] at honward
        exact (answer_nullable (hn n (Nat.le_refl n)) hsu' hTu' ha).mono honward.grows.defined
      obtain ⟨-, honward⟩ := hself.reaches_end (kept_onward env n) hsu trivial
      rw [hr] at honward
      have hnull := x.nullable_of_run hsu hweighs hr (by omega)
      rw [State.leaving_grammar]
      exact .rule (honward.grows.defined r x hx) hnull

theorem thrifty (env : Env) (n : Nat) : Thrifty env n := by
  induction n using Nat.strong_induction_on with
  | _ n ih =>
    cases n with
    | zero =>
      intro key s v t hs hT h
      cases key with
      | rule r => cases h
      | builtin c => exact absurd h (produce_builtin_ne c)
    | succ n => exact thrifty_succ fun k hk => ih k (Nat.lt_succ_of_le hk)

/-- What is remembered as a match of nothing is nullable along a run. -/
theorem kept_tight (env : Env) (n : Nat) : Kept env n (Tight env) fun _ t => Tight env t :=
  kept_tight_of_thrifty fun k _ => thrifty env k

theorem tight_start (env : Env) (g : Grammar) : Tight env (.start env g) :=
  fun p key _ hr => absurd hr (not_recalls_start env g p key _)

/-! ## Calls go down -/

/-- Within an evaluation a grammar changes by building bodies only. -/
theorem Moves.builds (h : Moves env s t) : s.grammar.Builds t.grammar := by
  refine h.lift (R := fun s t => s.grammar.Builds t.grammar) (fun _ => Relation.ReflTransGen.refl)
    (fun h h' => h.trans h') ?_
  intro s t hm
  cases hm with
  | build r b hb => exact Relation.ReflTransGen.single ⟨r, b, hb, rfl⟩
  | _ => exact Relation.ReflTransGen.refl

/-- A body that is found is one that the grammar gives. -/
theorem Grammar.Builds.gives_of_body? {g : Grammar} {r : RuleId} {x : Expr}
    (hg : g.Builds s.grammar) (h : Matcher.body? r s = .ok (some x) t) : g.Gives r x := by
  cases hb : s.grammar.body r with
  | undefined => rw [Matcher.run_body?_undefined hb] at h; cases h
  | defined y => rw [Matcher.run_body?_defined hb] at h; cases h; exact hg.gives hb
  | delayed b =>
    have hstep : g.Builds (Matcher.built s.grammar r b).2 := hg.tail ⟨r, b, hb, rfl⟩
    rw [Matcher.run_body?_delayed hb] at h
    cases hy : (Matcher.built s.grammar r b).1 with
    | error f => rw [hy] at h; cases h
    | ok y => rw [hy] at h; cases h; exact hstep.gives (Matcher.body_built hb hy)

/-- Finding the body of a rule is a series of moves. -/
theorem moves_of_body? {r : RuleId} {x : Expr}
    (h : Matcher.body? r (s.entering env r) = .ok (some x) t) : Moves env s t := by
  have hbody : Moves env (s.entering env r) _ := .body? r _
  rw [h] at hbody
  exact (Moves.entering s r).trans hbody

end

namespace Call

variable {α : Type} [Preorder α] {env : Env} {g : Grammar} {rank : Nat → α} {n : Nat}
  {c c' d : Call}

/-- `c'` is further on in the text than `c`, or at the same position and lower in rank. -/
def Above (rank : Nat → α) (c c' : Call) : Prop :=
  c.state.cursor < c'.state.cursor ∨
    c.state.cursor = c'.state.cursor ∧ rank c'.rule.index < rank c.rule.index

theorem Above.trans (h : Above rank c c') (h' : Above rank c' d) : Above rank c d := by
  unfold Above at h h' ⊢
  rcases h with h | ⟨h, hlt⟩
  · left
    omega
  · rcases h' with h' | ⟨h', hlt'⟩
    · left
      omega
    · exact Or.inr ⟨h.trans h', hlt'.trans hlt⟩

/-- A call is never above itself, nor above another one at its place. -/
theorem Above.place_ne (h : Above rank c c') : c.place ≠ c'.place := by
  intro heq
  obtain ⟨hi, hc⟩ := Prod.mk.inj heq
  rcases h with h | ⟨-, hlt⟩
  · omega
  · rw [hi] at hlt
    exact lt_irrefl _ hlt

/-- A call that asks for another left-calls its rule, unless it has moved on in the text. -/
theorem Asks.above (hrank : ∀ r r', g.LeftCalls r r' → rank r'.index < rank r.index)
    (h : Asks env c c') (hs : Sane env c.state) (hT : Tight env c.state)
    (hg : g.Builds c.state.grammar) : Above rank c c' := by
  obtain ⟨n, x, t, u, hb, hu, hc'⟩ := h
  have hrt := Matcher.rebuilt_of_body? hb
  have hq : Quiet env c.state t := (Quiet.entering c.state c.rule).trans (.of_rebuilt hrt)
  have hmoves := moves_of_body? hb
  have hself := x.linked_self env t
  have hweighs : (x.dialogue env t).Weighs (Expr.Nullable g.Gives) (answer env n) := by
    intro key u' v t' hu' ha
    obtain ⟨hsu', hTu'⟩ := hself.reaches_question (kept_tight env n) (hq.sane hs) (hT.of_quiet hq)
      hu'
    have hans := answer_moves env n key u'
    rw [ha] at hans
    have hbuilds := hg.trans (hmoves.trans ((hself.moves_question hu').trans hans)).builds
    exact (answer_nullable (thrifty env n) hsu' hTu' ha).mono fun r y hy => hbuilds.gives hy
  obtain ⟨hle, hbegins⟩ := x.begins_of_reaches (Expr.covers_nullable env n g.Gives) (hq.sane hs)
    hweighs hu
  have hcur : c'.state.cursor = u.cursor := by rw [hc', State.opened_cursor]
  have hct : t.cursor = (c.state.entering env c.rule).cursor := by
    obtain ⟨-, g', es, rfl⟩ := hrt
    rfl
  obtain ⟨hle', -⟩ := entering_bounds hs.cursor c.rule
  unfold Above
  -- either something was consumed on the way, or the rule stands at the left edge
  by_cases hlt : c.state.cursor < u.cursor
  · left
    omega
  · right
    refine ⟨by omega,
      hrank _ _ ⟨x, (hg.trans hmoves.builds).gives (Matcher.defines_of_body? hb), ?_⟩⟩
    exact Expr.Begins.mono (fun y hy => hy.resolve_left (by omega)) x hbegins

/-- From one call to the next only bodies are built. -/
theorem Asks.builds (h : Asks env c c') : c.state.grammar.Builds c'.state.grammar := by
  obtain ⟨n, x, t, u, hb, hu, hc'⟩ := h
  rw [hc', State.opened_grammar]
  exact ((moves_of_body? hb).trans ((x.linked_self env t).moves_question hu)).builds

/-- A call is not exhausted if there is more room than there are places left. `seen` are the places
of calls that led to it, all of them above. -/
theorem not_exhausts (hrank : ∀ r r', g.LeftCalls r r' → rank r'.index < rank r.index) {size : Nat}
    (hs : Sane env c.state) (hT : Tight env c.state) (hg : g.Builds c.state.grammar)
    (hsize : c.state.grammar.rules.size = size) (seen : Finset (Nat × Nat))
    (hseen : seen ⊆ places env size)
    (habove : ∀ p ∈ seen, ∃ a : Call, a.place = p ∧ a.Above rank c)
    (hn : size * (env.length + 1) < n + seen.card) : ¬ c.Exhausts env n := by
  -- each step spends one of the room and sees a place that was not seen before
  induction n generalizing c seen with
  | zero =>
    have hcard := Finset.card_le_card hseen
    rw [card_places] at hcard
    omega
  | succ n ih =>
    intro h
    obtain ⟨c', hcc', hc'⟩ := h.asks hs
    obtain ⟨hs', hT'⟩ := hcc'.kept (kept_tight env) hs hT
    have hdown := hcc'.above hrank hs hT hg
    have hnew : c.place ∉ seen := by
      intro hmem
      obtain ⟨a, hplace, ha⟩ := habove _ hmem
      exact ha.place_ne hplace
    refine ih hs' hT' (hg.trans hcc'.builds) ((hcc'.onward hs).2.grows.size.trans hsize)
      (insert c.place seen) (Finset.insert_subset (hcc'.place_mem hs hsize) hseen) ?_ ?_ hc'
    · intro p hp
      rcases Finset.mem_insert.mp hp with rfl | hp
      · exact ⟨c, rfl, hdown⟩
      · obtain ⟨a, hplace, ha⟩ := habove p hp
        exact ⟨a, hplace, ha.trans hdown⟩
    · rw [Finset.card_insert_of_notMem hnew]
      omega

end Call

/-! ## Evaluations end -/

section

variable {α : Type} [Preorder α] {env : Env} {rank : Nat → α} {s : State} {n : Nat}

/-- If left-calls go down in rank, the room of an evaluation is enough. -/
theorem Expr.evaluate_not_exhausted_of_rank (hlim : env.limit = none) (x : Expr)
    (hs : Sane env s) (hT : Tight env s)
    (hrank : ∀ r r', s.grammar.LeftCalls r r' → rank r'.index < rank r.index) :
    ¬ Result.Exhausted (x.evaluate env s) := by
  intro h
  rw [Expr.evaluate_eq_run] at h
  obtain ⟨r, u, hu, hru⟩ := x.exhausted_cause hs h
  obtain ⟨-, -, hp⟩ := exhausted_produce hru
  have hself := x.linked_self env s
  obtain ⟨hsu, hTu⟩ := hself.reaches_question (kept_tight env _) hs hT hu
  obtain ⟨-, honward⟩ := hself.reaches_question (kept_onward env _) hs trivial hu
  have ho : Quiet env u (u.opened (.rule r)) := .opened u _
  have hcall : Call.Exhausts env (headroom env s.grammar) ⟨r, u.opened (.rule r)⟩ := hp
  refine Call.not_exhausts hrank (ho.sane hsu) (hTu.of_quiet ho) ?_
    (ho.grows.size.trans honward.grows.size) ∅ (Finset.empty_subset _) (by simp) ?_ hcall
  · dsimp only
    rw [State.opened_grammar]
    exact (hself.moves_question hu).builds
  · simp [headroom, hlim]

end

/-- Without a limit, in a grammar with a rank of its rules that goes down along left-calls, every
evaluation ends, at every moment of a session and with as much room as one likes from `headroom` on:
with an outcome, or stopped by a fault that a build function of the expression, or a build function
or the builder of a body of the grammar gives. -/
theorem Session.ranked_evaluation_ends (text : String) (blanks : List Char) (g : Grammar)
    (cs : List (Command RuleId Expr)) (s : State)
    (hs : s ∈ (Session.start text { blanks } g).moments cs) {α : Type} [Preorder α]
    (rank : Nat → α) (hrank : ∀ r r', s.grammar.LeftCalls r r' → rank r'.index < rank r.index)
    (x : Expr) :
    let env := Env.ofText text { blanks }
    ((∃ o t, x.evaluate env s = .ok o t) ∨
      ∃ f t, x.evaluate env s = .error (.fault f) t ∧ (x.Faults f ∨ s.grammar.Faults f)) ∧
    ∀ n, headroom env s.grammar ≤ n → x.matcher env (callRule env n) s = x.evaluate env s := by
  intro env
  have hsane : Sane env s := Session.sane_of_mem_moments hs
  have hT : Tight env s := Session.holds_of_mem_moments (kept_tight env)
    (fun _ _ _ _ _ hg hT => hT.of_defines rfl fun _ _ hy => hy.of_define hg) (sane_start env g)
    (tight_start env g) hs
  have hne := x.evaluate_not_exhausted_of_rank rfl hsane hT hrank
  exact ⟨Expr.ends_of_not_exhausted hne, fun n hn => Expr.matcher_eq_of_not_exhausted hne hn⟩

/-- Rules that are open at one position one in the other, and recursive behind a letter only. -/
def Grammar.nested : Grammar where
  rules := #[⟨"list", true, .defined (.sequence .unit
      [Expr.skipped (Expr.builtin .digit).optional, Expr.skipped (.rule ⟨1, "item"⟩)]
      { apply := fun _ => .ok .unit })⟩,
    ⟨"item", false, .defined (.choice [.sequence .unit
      [Expr.skipped (.builtin .letter), Expr.skipped (.rule ⟨0, "list"⟩)]
      { apply := fun _ => .ok .unit }, .empty])⟩]

theorem Grammar.nested_leftCalls {r r' : RuleId} (h : Grammar.nested.LeftCalls r r') :
    r.index = 0 ∧ r'.index = 1 := by
  obtain ⟨x, hgives, hbegins⟩ := h
  -- no body is built on first use, so what the grammar gives it defines
  have hstatic : ∀ r b, Grammar.nested.body r ≠ .delayed b := by
    intro r b hb
    match hi : r.index with
    | 0 => simp [Grammar.body, Grammar.nested, hi] at hb
    | 1 => simp [Grammar.body, Grammar.nested, hi] at hb
    | i + 2 => simp [Grammar.body, Grammar.nested, hi] at hb
  have hx := Grammar.defines_of_gives hstatic hgives
  unfold Grammar.Defines at hx
  match hi : r.index with
  | 0 =>
    refine ⟨rfl, ?_⟩
    simp only [Grammar.body, Grammar.nested, hi] at hx
    cases hx
    rcases hbegins with h | ⟨-, h | ⟨-, h⟩⟩
    · exact h.elim
    · rw [← h]
    · exact h.elim
  | 1 =>
    exfalso
    simp only [Grammar.body, Grammar.nested, hi] at hx
    cases hx
    rcases hbegins with (h | ⟨hnull, -⟩) | h | h
    · exact h
    · cases hnull
    · exact h
    · exact h
  | i + 2 =>
    simp [Grammar.body, Grammar.nested, hi] at hx

/-- A recursive grammar whose rules go down along left-calls: the rest of the text is matched, and
more room comes to the same. -/
theorem Session.ranked_evaluation_ends_nested :
    let list : Expr := .rule ⟨0, "list"⟩
    let env := Env.ofText "x 7ab" {}
    let s := ((Session.start "x 7ab" {} .nested).after [.moveTo 2]).state
    Result.meets (fun o _ => o.stopFrom 2 = 5) (list.evaluate env s) = true ∧
      ∀ n, 13 ≤ n → list.matcher env (callRule env n) s = list.evaluate env s := by
  intro list env s
  have hends := Session.ranked_evaluation_ends "x 7ab" defaultBlanks .nested [.moveTo 2] s
    (Session.after_mem_moments _ [.moveTo 2]) (fun i => 1 - i)
    (fun r r' h => by
      obtain ⟨hr, hr'⟩ := Grammar.nested_leftCalls h
      rw [hr, hr']
      decide) list
  exact ⟨by decide +kernel, fun n hn => hends.2 n hn⟩

end Packrat
