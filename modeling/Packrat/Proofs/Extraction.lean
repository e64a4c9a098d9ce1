import Mathlib.Data.List.Forall2
import Packrat.Proofs.Mirror

/-!
# Extracting a rule

A part of the body of a rule can be made a rule of its own, which the body then refers to. The
reference brings in what a rule does beyond its body: it skips blanks in front and behind, keeps
failures apart, remembers, and opens one more rule. None of this shows in what a text comes to,
provided that the new rule has the mode of the old one: then no blank stands where it is entered or
left, so calling it is evaluating its body (`callRule_transparent`). Bodies that are built on first
use have to mean the same at any time, which they do if handles stay within their own sequences.

The runs of both grammars mirror each other. Where a part is called instead of evaluated there is
one more rule open, so the run with the new rule needs up to twice the room
(`Grammar.Extracts.mirrors`); the other one needs no more than it (`Grammar.Extracts.mirrored`).
-/

namespace Packrat

/-- One occurrence of `e` in an expression is replaced by `y`. Labels follow the parts, so they may
change along the way. -/
inductive Expr.Swap (e y : Expr) : Expr → Expr → Prop where
  | here : Swap e y e y
  | optional (label label' : String) {x x' : Expr} (h : Swap e y x x') :
      Swap e y (.optionalAs label x) (.optionalAs label' x')
  | repeated (label label' : String) (count : Count) {x x' : Expr} (h : Swap e y x x') :
      Swap e y (.repeatedAs label x count) (.repeatedAs label' x' count)
  | lookahead (label label' : String) (negated : Bool) {x x' : Expr} (h : Swap e y x x') :
      Swap e y (.lookaheadAs label negated x) (.lookaheadAs label' negated x')
  | step (label label' : String) (type : ValueType) (build : Hook Slots (Except Fault Value))
      (before after : List (Step Expr)) (store : Option ValueType) {x x' : Expr}
      (h : Swap e y x x') :
      Swap e y (.sequenceAs label type (before ++ ⟨x, store⟩ :: after) build)
        (.sequenceAs label' type (before ++ ⟨x', store⟩ :: after) build)
  | alternative (label label' : String) (before after : List Expr) {x x' : Expr}
      (h : Swap e y x x') :
      Swap e y (.choiceAs label (before ++ x :: after)) (.choiceAs label' (before ++ x' :: after))
  | map (type : ValueType) (f : Hook Value Value) {x x' : Expr} (h : Swap e y x x') :
      Swap e y (.map type f x) (.map type f x')

/-- `g'` is `g` with a new rule `n` for an occurrence of `e` in the body of the rule `a`. The new
rule has the mode of `a` and the body `e`, and the occurrence is replaced by a reference to it. -/
structure Grammar.Extracts (g g' : Grammar) (a n : RuleId) (e : Expr) : Prop where
  /-- The new rule is another one. -/
  ne : a.index ≠ n.index
  /-- No body of `g` refers to the new rule. -/
  fresh : ∀ r x, (g.body r).Means (some (.ok x)) → x.Within fun r' => r'.index ≠ n.index
  /-- The other rules keep their modes. -/
  modes : ∀ r, r.index ≠ n.index → g'.skipsBlanks r = g.skipsBlanks r
  /-- The new rule has the mode of `a`. -/
  mode : g'.skipsBlanks n = g.skipsBlanks a
  /-- The other rules keep their bodies. -/
  others : ∀ r, r.index ≠ a.index → r.index ≠ n.index →
    ∃ meaning, (g.body r).Means meaning ∧ (g'.body r).Means meaning
  /-- In the body of `a` the occurrence is replaced. -/
  replaced : ∃ x x', (g.body a).Means (some (.ok x)) ∧ (g'.body a).Means (some (.ok x')) ∧
    Expr.Swap e (.rule n) x x'
  /-- The new rule has the body `e`. -/
  extracted : (g'.body n).Means (some (.ok e))

/-- Gives the rule `a` the body `x'` and adds a rule with its mode and the body `e`. -/
def Grammar.extract (g : Grammar) (a : RuleId) (name : String) (e x' : Expr) : Grammar where
  rules := (g.setBody a x').rules.push ⟨name, g.skipsBlanks a, .defined e⟩
  handles := g.handles

section

variable {env : Env} {g g' : Grammar} {mode : Bool} {e y x x' : Expr} {a n r : RuleId}
  {s t u w : State}

/-! ## Replacing an occurrence -/

namespace Expr.Swap

variable {P : RuleId → Prop} {call call' : RuleId → Matcher}

theorem symm (h : Swap e y x x') : Swap y e x' x := by
  induction h with
  | here => exact .here
  | optional label label' _ ih => exact .optional label' label ih
  | repeated label label' count _ ih => exact .repeated label' label count ih
  | lookahead label label' negated _ ih => exact .lookahead label' label negated ih
  | step label label' type build before after store _ ih =>
    exact .step label' label type build before after store ih
  | alternative label label' before after _ ih => exact .alternative label' label before after ih
  | map type f _ ih => exact .map type f ih

/-- What occurs in the part occurs in the whole. -/
theorem within (h : Swap e y x x') (hx : x.Within P) : e.Within P := by
  induction h with
  | here => exact hx
  | optional label label' _ ih => exact ih hx
  | repeated label label' count _ ih => exact ih hx
  | lookahead label label' negated _ ih => exact ih hx
  | @step label label' type build before after store x x' _ ih =>
    exact ih (hx.step ⟨x, store⟩ (List.mem_append_right _ List.mem_cons_self))
  | @alternative label label' before after x x' _ ih =>
    exact ih (hx.alternative x (List.mem_append_right _ List.mem_cons_self))
  | map type f _ ih => exact ih hx

end Expr.Swap

theorem Expr.stepMatchers_append (env : Env) (call : RuleId → Matcher)
    (before after : List (Step Expr)) : stepMatchers env call (before ++ after) =
      stepMatchers env call before ++ stepMatchers env call after := by
  induction before with
  | nil => rfl
  | cons step before ih => rw [List.cons_append, stepMatchers, stepMatchers, ih, List.cons_append]

theorem Expr.matchers_append (env : Env) (call : RuleId → Matcher) (before after : List Expr) :
    matchers env call (before ++ after) =
      matchers env call before ++ matchers env call after := by
  induction before with
  | nil => rfl
  | cons x before ih => rw [List.cons_append, matchers, matchers, ih, List.cons_append]

/-! ## Calling is evaluating the body -/

namespace State.Stays

theorem refl (s : State) : s.Stays s := ⟨rfl, rfl, rfl⟩

theorem trans (h : s.Stays t) (h' : t.Stays u) : s.Stays u :=
  ⟨h'.cursor.trans h.cursor, h'.skipping.trans h.skipping, h'.grammar.trans h.grammar⟩

/-- Where no blank stands, none is skipped. -/
theorem skipBlanks (h : s.skipping = true → env.Settled s.cursor) :
    s.Stays (s.skipBlanks env) := by
  unfold State.skipBlanks
  split
  next hs => exact ⟨env.skipBlanks_of_settled (h hs), rfl, rfl⟩
  next => exact ⟨rfl, rfl, rfl⟩

/-- A rule of the mode that holds already is entered in place. -/
theorem entering (hr : s.grammar.skipsBlanks r = s.skipping)
    (h : s.skipping = true → env.Settled s.cursor) : s.Stays (s.entering env r) := by
  have hmode : s.Stays { s with skipping := s.grammar.skipsBlanks r } := ⟨rfl, hr, rfl⟩
  refine hmode.trans (.skipBlanks fun hs => h ?_)
  rw [← hr]
  exact hs

end State.Stays

/-- Where no blank stands, skipping them changes nothing that is compared. -/
theorem skippingBlanks_stays {o : Outcome Value} (h : s.skipping = true → env.Settled s.cursor)
    (ho : ∀ stop v, o = .matched stop v → s.cursor = stop) :
    ∃ t, Matcher.skippingBlanks env o s = .ok o t ∧ s.Stays t := by
  cases o with
  | failed => exact ⟨s, rfl, rfl, rfl, rfl⟩
  | matched stop v =>
    have hstay := State.Stays.skipBlanks h
    refine ⟨s.skipBlanks env, ?_, hstay⟩
    rw [Matcher.run_skippingBlanks_matched, hstay.cursor, ho stop v rfl]

/-- A rule is left in place if its body has landed and the caller has its mode. -/
theorem leaving_stays {o : Outcome Value} (hs : s.cursor ≤ env.length) (hc : u.cursor = s.cursor)
    (hk : t.skipping = s.skipping) (h : Lands env u o t) : t.Stays (s.leaving env r o t) := by
  cases o with
  | matched stop v => exact ⟨rfl, hk.symm, rfl⟩
  | failed =>
    refine ⟨?_, hk.symm, rfl⟩
    rw [h.1, hc]
    exact Nat.min_eq_left hs

/-- What a call does after the body leaves the outcome and the place. -/
theorem called_stays {k : Nat} {o : Outcome Value} (hs : s.cursor ≤ env.length)
    (hsettled : s.skipping = true → env.reference.Settled s.cursor) (hc : t.cursor = s.cursor)
    (hk : t.skipping = s.skipping)
    (h : x.matcher env.reference (callRule env.reference k) t = .ok o u) :
    ∃ w, Matcher.skippingBlanks env.reference o
      ((((s.opened (.rule r)).leaving env.reference r o u).settle env.reference (.rule r) s.cursor
        s.failures o).closed s.cursor o (.rule r)) = .ok o w ∧ u.Stays w := by
  have hst : Sane env.reference t := sane_reference (hc.trans_le hs)
  have hland : Lands env.reference t o u := by
    have hrun := x.orderly_run (orderly_answer k) hst
    rw [answer, ← x.matcher_eq_run, h] at hrun
    exact hrun.2
  have hku : u.skipping = t.skipping := ((Carried.restores env.reference k).matcher x h).skipping
  have hleave : u.Stays ((s.opened (.rule r)).leaving env.reference r o u) :=
    leaving_stays hs (hc.trans (s.opened_cursor _).symm)
      ((hku.trans hk).trans (s.opened_skipping _).symm) hland
  have hstay := hleave.trans (settled_stays env.reference _ (.rule r) s.cursor s.failures o)
  generalize (((s.opened (.rule r)).leaving env.reference r o u).settle env.reference (.rule r)
    s.cursor s.failures o).closed s.cursor o (.rule r) = w' at hstay ⊢
  -- in a mode that skips blanks the body ends where none is left
  have hblank : w'.skipping = true → env.reference.Settled w'.cursor := by
    intro hm
    rw [hstay.skipping, hku] at hm
    rw [hstay.cursor]
    exact (x.poises_callRule t o u ⟨hm, hc.symm ▸ hsettled (hk ▸ hm)⟩ h).settled
  have hstop : ∀ stop v, o = .matched stop v → w'.cursor = stop := by
    rintro stop v rfl
    exact hstay.cursor.trans hland.1
  obtain ⟨w, hw, hend⟩ := skippingBlanks_stays hblank hstop
  exact ⟨w, hw, hstay.trans hend⟩

/-- A call of a rule evaluates its body, if the rule has the mode that holds already and no blank
stands there. The body is evaluated in the place of the call, and the call ends where the body
does. -/
theorem callRule_transparent (hs : s.cursor ≤ env.length)
    (hsettled : s.skipping = true → env.reference.Settled s.cursor) (hg : g.Upholds s.grammar)
    (hr : g.skipsBlanks r = s.skipping) (hx : (g.body r).Means (some (.ok x))) :
    ∃ t, (t.cursor = s.cursor ∧ t.skipping = s.skipping ∧ g.Upholds t.grammar) ∧
      ∀ k, match x.matcher env.reference (callRule env.reference k) t with
        | .ok o u => ∃ w, callRule env.reference (k + 1) r s = .ok o w ∧ u.Stays w
        | .error h u => callRule env.reference (k + 1) r s = .error h u := by
  have hopen := State.Stays.opened s (.rule r)
  have henter : (s.opened (.rule r)).Stays ((s.opened (.rule r)).entering env.reference r) := by
    refine .entering ?_ fun hk => ?_
    · rw [hopen.grammar, hg.skipsBlanks, hr, hopen.skipping]
    · rw [hopen.cursor]
      exact hsettled (hopen.skipping ▸ hk)
  have hstay := hopen.trans henter
  obtain ⟨t, hb, hrebuilt, hgt⟩ := Grammar.Upholds.body? (hstay.grammar.symm ▸ hg) hx
  have hplace : t.cursor = s.cursor ∧ t.skipping = s.skipping := by
    obtain ⟨-, -, -, rfl⟩ := hrebuilt
    exact ⟨hstay.cursor, hstay.skipping⟩
  refine ⟨t, ⟨hplace.1, hplace.2, hgt⟩, fun k => ?_⟩
  -- in the reference run a call is always worked out
  have hcall : callRule env.reference (k + 1) r s = _ :=
    (answer_reference env (k + 1) (.rule r) s).trans (by rw [produce_succ, hb])
  rw [hcall]
  dsimp only
  rw [answer, ← x.matcher_eq_run]
  cases hrun : x.matcher env.reference (callRule env.reference k) t with
  | error h u => rfl
  | ok o u => exact called_stays hs hsettled hplace.1 hplace.2 hrun

/-- Where one run evaluates an expression, another one may call a rule that has it as its body. -/
theorem mirrors_body_call {m k : Nat} (hn : g'.skipsBlanks n = mode)
    (he : (g'.body n).Means (some (.ok e)))
    (hm : Mirrors (Abreast env.reference g g' mode)
      (e.matcher env.reference (callRule env.reference m))
      (e.matcher env.reference (callRule env.reference k))) :
    Mirrors (Abreast env.reference g g' mode)
      (e.matcher env.reference (callRule env.reference m))
      (callRule env.reference (k + 1) n) := by
  intro s t o u h hr
  have hin : t.cursor ≤ env.length := h.cursor.trans_le h.inside
  have hsettled : t.skipping = true → env.reference.Settled t.cursor := by
    rw [h.right, h.cursor]
    exact h.settled
  obtain ⟨t', ⟨hc, hk, hg⟩, hcall⟩ :=
    callRule_transparent hin hsettled h.upholds' (hn.trans h.right.symm) he
  have h' : Abreast env.reference g g' mode s t' :=
    ⟨hc.trans h.cursor, h.inside, h.left, hk.trans h.right, h.settled, h.upholds, hg⟩
  obtain ⟨w', hw', hend⟩ := hm s t' o u h' hr
  specialize hcall k
  rw [hw'] at hcall
  obtain ⟨w, hw, hstay⟩ := hcall
  exact ⟨w, hw, hend.of_stays (.refl u) hstay⟩

/-- Where one run calls a rule, another one may evaluate the body of that rule. -/
theorem mirrors_call_body {m k : Nat} (hn : g.skipsBlanks n = mode)
    (he : (g.body n).Means (some (.ok e)))
    (hm : Mirrors (Abreast env.reference g g' mode)
      (e.matcher env.reference (callRule env.reference m))
      (e.matcher env.reference (callRule env.reference k))) :
    Mirrors (Abreast env.reference g g' mode) (callRule env.reference (m + 1) n)
      (e.matcher env.reference (callRule env.reference k)) := by
  intro s t o u h hr
  have hin : s.cursor ≤ env.length := h.inside
  have hsettled : s.skipping = true → env.reference.Settled s.cursor := by
    rw [h.left]
    exact h.settled
  obtain ⟨s', ⟨hc, hk, hg⟩, hcall⟩ :=
    callRule_transparent hin hsettled h.upholds (hn.trans h.left.symm) he
  have h' : Abreast env.reference g g' mode s' t :=
    ⟨h.cursor.trans hc.symm, hc.trans_le h.inside, hk.trans h.left, h.right,
      fun hmode => hc.symm ▸ h.settled hmode, hg, h.upholds'⟩
  specialize hcall m
  cases hs' : e.matcher env.reference (callRule env.reference m) s' with
  | error e' u' =>
    rw [hs'] at hcall
    rw [hcall] at hr
    cases hr
  | ok o' u' =>
    rw [hs'] at hcall
    obtain ⟨u'', hu'', hstay⟩ := hcall
    rw [hu''] at hr
    cases hr
    obtain ⟨w, hw, hend⟩ := hm s' t o u' h' hs'
    exact ⟨w, hw, hend.of_stays hstay (.refl w)⟩

/-! ## Around the occurrence -/

/-- Expressions with one occurrence replaced mirror each other if what stands there does. The rules
around it are those of either expression. -/
theorem Expr.Swap.mirrored {P : RuleId → Prop} {call call' : RuleId → Matcher}
    (h : Expr.Swap e y x x')
    (hpart : Mirrors (Abreast env g g' mode) (e.matcher env call) (y.matcher env call'))
    (hcall : ∀ r, P r → Mirrors (Abreast env g g' mode) (call r) (call' r))
    (hbuiltin : ∀ c, Mirrors (Abreast env g g' mode) (Matcher.builtin env c)
      (Matcher.builtin env c)) (hx : x.Within P ∨ x'.Within P) :
    Mirrors (Abreast env g g' mode) (x.matcher env call) (x'.matcher env call') := by
  induction h with
  | here => exact hpart
  | optional label label' _ ih => exact Matcher.mirrors_optional (ih hx)
  | repeated label label' count _ ih => exact Matcher.mirrors_repeated (ih hx) label label' count
  | lookahead label label' negated _ ih =>
    exact Matcher.mirrors_lookahead (ih hx) label label' negated
  | @step label label' type build before after store x x' _ ih =>
    have hpart : x.Within P ∨ x'.Within P :=
      hx.imp (·.step ⟨x, store⟩ (by simp)) (·.step ⟨x', store⟩ (by simp))
    -- the parts around the occurrence are the same on both sides, so either bound covers them
    have hrest : ∀ step, step ∈ before ∨ step ∈ after → step.body.Within P := by
      intro step hmem
      have hin : ∀ z, step ∈ before ++ z :: after := fun z => by simp [or_left_comm, hmem]
      exact hx.elim (·.step step (hin _)) (·.step step (hin _))
    have hbefore := steps_mirrored hcall hbuiltin before fun step h => hrest step (.inl h)
    have hafter := steps_mirrored hcall hbuiltin after fun step h => hrest step (.inr h)
    refine Matcher.mirrors_sequence ?_ label label' build
    rw [stepMatchers_append, stepMatchers_append, stepMatchers, stepMatchers]
    exact List.rel_append hbefore (.cons ⟨rfl, ih hpart⟩ hafter)
  | @alternative label label' before after x x' _ ih =>
    have hpart : x.Within P ∨ x'.Within P :=
      hx.imp (·.alternative x (by simp)) (·.alternative x' (by simp))
    have hrest : ∀ y, y ∈ before ∨ y ∈ after → y.Within P := by
      intro y hmem
      have hin : ∀ z, y ∈ before ++ z :: after := fun z => by simp [or_left_comm, hmem]
      exact hx.elim (·.alternative y (hin _)) (·.alternative y (hin _))
    have hbefore := alternatives_mirrored hcall hbuiltin before fun y h => hrest y (.inl h)
    have hafter := alternatives_mirrored hcall hbuiltin after fun y h => hrest y (.inr h)
    refine Matcher.mirrors_choice ?_ label label'
    rw [matchers_append, matchers_append, matchers, matchers]
    exact List.rel_append hbefore (.cons (ih hpart) hafter)
  | map type f _ ih => exact Matcher.mirrors_map (ih hx) f

/-! ## Every occurrence can be extracted -/

namespace Grammar

/-- The bodies after an extraction: that of the new rule, that of the old one, and those of the
others. -/
theorem body_extract (g : Grammar) (a r : RuleId) (name : String) (e x' : Expr) :
    (g.extract a name e x').body r =
      if r.index = g.rules.size then .defined e else (g.setBody a x').body r := by
  unfold body extract
  rw [Array.getElem?_push, size_setBody]
  by_cases h : r.index = g.rules.size
  · simp only [h, if_true]
  · simp only [h, if_false]

/-- The new rule has the mode of the one it was taken from. -/
theorem skipsBlanks_extract (g : Grammar) (a r : RuleId) (name : String) (e x' : Expr) :
    (g.extract a name e x').skipsBlanks r =
      if r.index = g.rules.size then g.skipsBlanks a else g.skipsBlanks r := by
  rw [← skipsBlanks_setBody g a r x']
  unfold skipsBlanks extract
  rw [Array.getElem?_push, size_setBody]
  by_cases h : r.index = g.rules.size
  · simp only [h, if_true]
    rfl
  · simp only [h, if_false]

/-- A grammar whose bodies have a meaning and refer to its own rules has a grammar with a new rule
for each occurrence in a body. -/
theorem extracts_extract {name : String} (hmeans : ∀ r, ∃ meaning, (g.body r).Means meaning)
    (hown : ∀ r x, (g.body r).Means (some (.ok x)) → x.Within (·.index < g.rules.size))
    (ha : (g.body a).Means (some (.ok x))) (hswap : Expr.Swap e (.rule ⟨g.rules.size, name⟩) x x') :
    g.Extracts (g.extract a name e x') a ⟨g.rules.size, name⟩ e := by
  have hlt : a.index < g.rules.size := by
    refine index_lt_of_body_ne fun hu => ?_
    rw [hu] at ha
    cases ha
  refine ⟨Nat.ne_of_lt hlt, ?_, ?_, ?_, ?_, ⟨x, x', ha, ?_, hswap⟩, ?_⟩
  · exact fun r x hx r' hr' => Nat.ne_of_lt (hown r x hx r' hr')
  · intro r hr
    rw [skipsBlanks_extract, if_neg hr]
  · rw [skipsBlanks_extract, if_pos rfl]
  · intro r hra hr
    obtain ⟨meaning, hm⟩ := hmeans r
    refine ⟨meaning, hm, ?_⟩
    rw [body_extract, if_neg hr, body_setBody, if_neg fun hi => hra hi.1.symm]
    exact hm
  · rw [body_extract, if_neg (Nat.ne_of_lt hlt), body_setBody, if_pos ⟨rfl, hlt⟩]
    rfl
  · rw [body_extract, if_pos rfl]
    rfl

end Grammar

/-! ## Whole grammars -/

/-- A body that both grammars have mirrors itself if it does as an expression. -/
theorem BodiesMirror.of_same {m k : Nat} {meaning : Option (Except Fault Expr)}
    (hm : (g.body r).Means meaning) (hm' : (g'.body r).Means meaning)
    (hx : ∀ x, meaning = some (.ok x) → Mirrors (Abreast env g g' (g.skipsBlanks r))
      (x.matcher env (callRule env m)) (x.matcher env (callRule env k))) :
    BodiesMirror env g g' m k r := by
  match meaning with
  | none => exact .inl ⟨hm, hm'⟩
  | some (.error f) => exact .inr (.inl ⟨f, hm⟩)
  | some (.ok x) => exact .inr (.inr ⟨x, x, hm, hm', hx x rfl⟩)

namespace Grammar.Extracts

/-- The bodies of the rule that the occurrence is in, by whatever name it is referred to. -/
theorem swapped (h : g.Extracts g' a n e) (hr : r.index = a.index) :
    ∃ x x', (g.body r).Means (some (.ok x)) ∧ (g'.body r).Means (some (.ok x')) ∧
      Expr.Swap e (.rule n) x x' ∧ x.Within (·.index ≠ n.index) ∧
      g'.skipsBlanks n = g.skipsBlanks r := by
  obtain ⟨x, x', hx, hx', hswap⟩ := h.replaced
  rw [body_congr_index g hr, body_congr_index g' hr, skipsBlanks_congr_index g hr]
  exact ⟨x, x', hx, hx', hswap, h.fresh a x hx, h.mode⟩

/-- Every rule of the old grammar is mirrored in the new one, with room for one more call in each
open rule. -/
theorem mirrors (h : g.Extracts g' a n e) (m : Nat) :
    ∀ k mode r, 2 * m ≤ k → r.index ≠ n.index → Mirrors (Abreast env.reference g g' mode)
      (callRule env.reference m r) (callRule env.reference k r) := by
  induction m with
  | zero => exact fun k mode r _ _ => mirrors_rule_zero _
  | succ m ih =>
    intro k mode r hk hr
    -- one for the rule itself, and one for the new rule if the body calls it
    obtain ⟨k, rfl⟩ : ∃ k', k = k' + 2 := ⟨k - 2, by omega⟩
    have hexpr : ∀ j mode, 2 * m ≤ j → ∀ x : Expr, x.Within (·.index ≠ n.index) →
        Mirrors (Abreast env.reference g g' mode)
          (x.matcher env.reference (callRule env.reference m))
          (x.matcher env.reference (callRule env.reference j)) :=
      fun j mode hj x hx => x.mirrored (fun r' => ih j mode r' hj) mirrors_builtin hx
    refine mirrors_rule (h.modes r hr) ?_
    by_cases hra : r.index = a.index
    · obtain ⟨x, x', hx, hx', hswap, hwithin, hmode⟩ := h.swapped hra
      have hpart := mirrors_body_call hmode h.extracted
        (hexpr k _ (by omega) e (hswap.within hwithin))
      refine .inr (.inr ⟨x, x', hx, hx', ?_⟩)
      exact hswap.mirrored hpart (fun r' => ih (k + 1) _ r' (by omega)) mirrors_builtin
        (.inl hwithin)
    · obtain ⟨meaning, hm, hm'⟩ := h.others r hra hr
      refine .of_same hm hm' fun x hx => ?_
      subst hx
      exact hexpr (k + 1) _ (by omega) x (h.fresh r x hm)

/-- Every rule of the old grammar mirrors itself in the new one. -/
theorem mirrored (h : g.Extracts g' a n e) (m : Nat) :
    ∀ k mode r, m ≤ k → r.index ≠ n.index → Mirrors (Abreast env.reference g' g mode)
      (callRule env.reference m r) (callRule env.reference k r) := by
  induction m using Nat.strong_induction_on with
  | _ m ih =>
    intro k mode r hk hr
    match m, k with
    | 0, _ => exact mirrors_rule_zero _
    | m + 1, k + 1 =>
    have hexpr : ∀ j mode, j ≤ m → ∀ x : Expr, x.Within (·.index ≠ n.index) →
        Mirrors (Abreast env.reference g' g mode)
          (x.matcher env.reference (callRule env.reference j))
          (x.matcher env.reference (callRule env.reference k)) :=
      fun j mode hj x hx =>
        x.mirrored (fun r' => ih j (by omega) k mode r' (by omega)) mirrors_builtin hx
    refine mirrors_rule (h.modes r hr).symm ?_
    by_cases hra : r.index = a.index
    · obtain ⟨x, x', hx, hx', hswap, hwithin, hmode⟩ := h.swapped hra
      rw [← h.modes r hr] at hmode
      have hpart : Mirrors (Abreast env.reference g' g (g'.skipsBlanks r))
          (callRule env.reference m n) (e.matcher env.reference (callRule env.reference k)) := by
        -- the call has opened a rule that the other run does not, so its body has less room
        match m with
        | 0 => exact mirrors_rule_zero _
        | j + 1 =>
          exact mirrors_call_body hmode h.extracted
            (hexpr j _ (by omega) e (hswap.within hwithin))
      refine .inr (.inr ⟨x', x, hx', hx, ?_⟩)
      exact hswap.symm.mirrored hpart (fun r' => ih m (by omega) k _ r' (by omega)) mirrors_builtin
        (.inr hwithin)
    · obtain ⟨meaning, hm, hm'⟩ := h.others r hra hr
      refine .of_same hm' hm fun x hx => ?_
      subst hx
      exact hexpr m _ (by omega) x (h.fresh r x hm)

end Grammar.Extracts

/-! ## Whole texts -/

theorem abreast_start (env : Env) (g g' : Grammar) :
    Abreast env g g' false (.start env g) (.start env g') where
  cursor := rfl
  inside := Nat.zero_le _
  left := rfl
  right := rfl
  settled := nofun
  upholds := .refl g
  upholds' := .refl g'

/-- A value that a rule gives a text, it gives it in a grammar that mirrors it with enough room. -/
theorem Grammar.parse_ok_of_mirrors {config : Config} {root : RuleId} {text : String} {v : Value}
    (hlimit : config.limit = none)
    (hm : ∀ m, ∃ k, Mirrors (Abreast (Env.ofText text config).reference g g' false)
      (callRule (Env.ofText text config).reference m root)
      (callRule (Env.ofText text config).reference k root))
    (h : (g.parse root config text).answer = .ok (.ok v)) :
    (g'.parse root config text).answer = .ok (.ok v) := by
  have hlim : (Env.ofText text config).limit = none := hlimit
  rw [Grammar.parse_ok_iff, root_matched_iff hlim] at h ⊢
  obtain ⟨t, ht⟩ := h
  rw [Expr.evaluate_eq_run] at ht
  have hcall := (run_expr (.rule root) _ _).symm.trans ht
  obtain ⟨k, hk⟩ := hm (headroom (Env.ofText text config).reference g)
  obtain ⟨w, hw, -⟩ := hk _ _ _ _ (abreast_start _ g g') hcall
  exact ⟨w, evaluate_reference_eq (.rule root) (sane_start _ g')
    ((run_expr (.rule root) _ _).trans hw) (Result.exhausted_ok _ w)⟩

/-- Extracting a rule preserves meaning: without a limit, each rule gives each text the same value
in both grammars, if it gives one at all. -/
theorem Grammar.parse_extracted (h : g.Extracts g' a n e) {root : RuleId}
    (hroot : root.index ≠ n.index) (text : String) (config : Config)
    (hlimit : config.limit = none) (v : Value) :
    (g.parse root config text).answer = .ok (.ok v) ↔
      (g'.parse root config text).answer = .ok (.ok v) := by
  constructor
  · refine Grammar.parse_ok_of_mirrors hlimit fun m => ?_
    exact ⟨2 * m, h.mirrors m _ false root (Nat.le_refl _) hroot⟩
  · refine Grammar.parse_ok_of_mirrors hlimit fun m => ?_
    exact ⟨m, h.mirrored m _ false root (Nat.le_refl _) hroot⟩

end

/-- Brackets around `x`, with a tag for the value of `x`. -/
def Expr.bracketed (x : Expr) : Expr :=
  .sequence .val [Expr.skipped (.char { apply := (· == '(') }), ⟨x, some .list⟩,
    Expr.skipped (.char { apply := (· == ')') })]
    { apply := fun slots => (slots.get ⟨1, .list⟩).map (.tag "nest") }

/-- Brackets in a row. -/
def Expr.row : Expr := (Expr.rule ⟨0, "nest"⟩).repeated .zeroOrMore

/-- Nested brackets, with a body that is built on first use. -/
def Grammar.brackets : Grammar where
  rules := #[⟨"nest", true, .delayed { apply := fun handles => (.ok Expr.row.bracketed, handles) }⟩]

theorem Grammar.brackets_means (r : RuleId) : (Grammar.brackets.body r).Means
    (if r.index = 0 then some (.ok Expr.row.bracketed) else none) := by
  split
  next h =>
    rw [body_congr_index _ (show r.index = (⟨0, "nest"⟩ : RuleId).index from h)]
    exact ⟨_, rfl, fun _ => rfl⟩
  next h =>
    have hsize : Grammar.brackets.rules.size ≤ r.index := Nat.one_le_iff_ne_zero.mpr h
    rw [body, Array.getElem?_eq_none hsize]
    rfl

theorem Expr.row_within {P : RuleId → Prop} (h : P ⟨0, "nest"⟩) : Expr.row.bracketed.Within P := by
  refine .sequence fun step hmem r hr => ?_
  simp only [List.mem_cons, List.not_mem_nil, or_false] at hmem
  rcases hmem with rfl | rfl | rfl
  · cases hr
  · cases hr
    exact h
  · cases hr

/-- What stands inside brackets becomes a rule of its own. -/
theorem Grammar.parse_extracted_brackets :
    let nest : RuleId := ⟨0, "nest"⟩
    let g := Grammar.brackets.extract nest "row" .row (.bracketed (.rule ⟨1, "row"⟩))
    Grammar.brackets.Extracts g nest ⟨1, "row"⟩ .row ∧
      ∃ v, v.display = "nest(nest())" ∧
        (Grammar.brackets.parse nest {} " ( ( ) )").answer = .ok (.ok v) ∧
        (g.parse nest {} " ( ( ) )").answer = .ok (.ok v) := by
  intro nest g
  have hown : ∀ r x, (Grammar.brackets.body r).Means (some (.ok x)) →
      x.Within (·.index < Grammar.brackets.rules.size) := by
    intro r x hx
    have hmeans := hx.unique (Grammar.brackets_means r)
    split at hmeans
    · cases hmeans
      exact Expr.row_within (by decide)
    · cases hmeans
  have hext : Grammar.brackets.Extracts g nest ⟨1, "row"⟩ .row :=
    Grammar.extracts_extract (fun r => ⟨_, Grammar.brackets_means r⟩) hown
      (Grammar.brackets_means nest) (.step _ _ .val _ [_] [_] (some .list) .here)
  have hrun : ((Grammar.brackets.parse nest {} " ( ( ) )").answer.toOption.bind
      Except.toOption).map Value.display = some "nest(nest())" := by decide +kernel
  cases hparse : (Grammar.brackets.parse nest {} " ( ( ) )").answer with
  | error halt => rw [hparse] at hrun; cases hrun
  | ok result =>
    rw [hparse] at hrun
    cases result with
    | error why => cases hrun
    | ok v =>
      exact ⟨hext, v, Option.some.inj hrun, rfl,
        (Grammar.parse_extracted hext (by decide) _ _ rfl v).mp hparse⟩

end Packrat
