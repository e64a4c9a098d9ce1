import Packrat.Proofs.Permanence
import Packrat.Proofs.Transparency
import Packrat.Proofs.Verdict

/-!
# Reported failures

The failure trees of rules. A rule that is `known` has the tree that is told of it, a rule too many
has the one failure that says so, and otherwise the tree is that of the body with the rule's own
failure at the root (`Grammar.ruleVerdict`). Without limit and memory these are the trees of the
grammar itself (`Grammar.freeVerdict`).

A run bears these trees out in the state in which it ends (`answer_explained`): what it worked out
before the limit was hit can be recalled there, and what it refused, or worked out after that,
cannot. What can be recalled is sound, so it was left by the trees of the grammar.
-/

namespace Packrat

/-- Whether a rule would be one too many with `depth` rules open. -/
def Env.refuses (env : Env) (depth : Nat) : Bool :=
  match env.limit with
  | some limit => limit ≤ depth
  | none => false

namespace Grammar

/-- What the body of a rule comes to, where `eval` tells it of expressions in a mode for blanks. A
body that is not built yet has no verdict. -/
def bodyVerdict (g : Grammar) (env : Env) (eval : Bool → Expr → Nat → Option Verdict) (r : RuleId)
    (p : Nat) : Option Verdict :=
  let start := if g.skipsBlanks r then env.skipBlanks p else p
  match g.body r with
  | .undefined => some (.failed (.of [.leaf start (.undefined r.label)] ⟨p, .wrong r.label⟩))
  | .delayed _ => none
  | .defined x =>
    match eval (g.skipsBlanks r) x start with
    | none => none
    | some (.matched stop v) => some (.matched stop v)
    | some (.failed why) => some (.failed (.of [why] ⟨p, .wrong r.label⟩))

/-- What a rule comes to with `depth` rules open and room for `n` more. -/
def ruleVerdict (g : Grammar) (env : Env) (known : RuleId → Nat → Option Verdict) (n depth : Nat)
    (r : RuleId) (p : Nat) : Option Verdict :=
  match known r p with
  | some v => some v
  | none =>
    if env.refuses depth then some (.failed (.leaf p (.tooDeep r.label)))
    else match n with
      | 0 => none
      | n + 1 => g.bodyVerdict env (fun skipping x => x.verdict env skipping
          (g.ruleVerdict env known n (depth + 1))) r p

/-- What a rule comes to by the grammar alone. -/
def freeVerdict (g : Grammar) (env : Env) : RuleId → Nat → Option Verdict :=
  g.ruleVerdict env.reference (fun _ _ => none) (headroom env.reference g) 0

end Grammar

/-- What the rules come to that can be recalled. -/
def State.remembered (s : State) (env : Env) (r : RuleId) (p : Nat) : Option Verdict :=
  match s.memo.find? p (.rule r) with
  | some _ => s.grammar.freeVerdict env r p
  | none => none

/-- What `known` tells is what can be recalled in `s`. -/
structure Knows (env : Env) (s : State) (known : RuleId → Nat → Option Verdict) : Prop where
  recalled : ∀ p key entry, s.Recalls env p key entry →
    ∃ w, key.verdict env known p = some w ∧ w.entry = entry
  unknown : ∀ r p, Unknown env s ⟨.rule r, p⟩ → known r p = none

/-- With room for `n` open rules, the answers on the way to `z` are what their rules come to in the
grammar of `z`. -/
def Explained (env : Env) (z : State) (known : RuleId → Nat → Option Verdict) (n : Nat) : Prop :=
  ∀ key s o t, Sane env s → Sized env s → answer env n key s = .ok o t → Later env t z →
    ∃ w, key.verdict env (z.grammar.ruleVerdict env known n s.depth) s.cursor = some w ∧
      Explains env s o t (w.trailing env s.skipping)

/-- An evaluation from `s` to `t` reports a verdict: a match leaves the failures as they were, and a
failure adds the listing of its tree. -/
def Reports (s : State) (o : Outcome Value) (t : State) : Verdict → Prop
  | .matched stop v => o = .matched stop v ∧ t.failures = s.failures
  | .failed why => o = .failed ∧ t.failures = s.failures ++ why.listing.toArray

section

variable {env : Env} {known : RuleId → Nat → Option Verdict} {n depth : Nat} {key : Key}
  {r : RuleId} {s t u z : State} {o o' : Outcome Value} {w : Verdict} {g : Grammar} {p : Nat}

/-! ## Rules -/

theorem ruleVerdict_known (h : known r p = some w) :
    g.ruleVerdict env known n depth r p = some w := by
  rw [Grammar.ruleVerdict.eq_def, h]

theorem ruleVerdict_refused (h : known r p = none) (hd : env.refuses depth = true) :
    g.ruleVerdict env known n depth r p = some (.failed (.leaf p (.tooDeep r.label))) := by
  rw [Grammar.ruleVerdict.eq_def, h]
  simp only [hd, if_true]

theorem ruleVerdict_succ (h : known r p = none) (hd : env.refuses depth = false) :
    g.ruleVerdict env known (n + 1) depth r p = g.bodyVerdict env (fun skipping x =>
      x.verdict env skipping (g.ruleVerdict env known n (depth + 1))) r p := by
  rw [Grammar.ruleVerdict.eq_def, h]
  simp only [hd, Bool.false_eq_true, if_false]

/-- What is known of a key does not depend on room and depth. -/
theorem Key.verdict_of_known (h : key.verdict env known p = some w) :
    key.verdict env (g.ruleVerdict env known n depth) p = some w := by
  cases key with
  | builtin c => exact h
  | rule r => exact ruleVerdict_known h

/-! ## Entries -/

namespace Explains

theorem entry (h : Explains env s o t w) (hs : s.failures = #[]) :
    w.entry = .ofOutcome t.failures o := by
  obtain ⟨rfl, -, -, -, hf⟩ := h
  cases w with
  | matched stop v => rfl
  | failed why =>
    rw [hf, hs, Array.empty_append]
    rfl

/-- A remembered outcome bears out the verdict that left the entry. -/
theorem recalled (hs : Sane env s) (hk : s.known? env key = some w.entry)
    (h : answer env n key s = .ok o t) : Explains env s o t (w.trailing env s.skipping) := by
  have hfits := hs.memo _ _ _ (State.known?_eq_some.mp hk)
  cases w with
  | matched stop v =>
    obtain ⟨es, he⟩ := answer_known_success (n := n) hk
    rw [he] at h
    refine trailing ?_ h
    exact .matched rfl hfits.2 rfl rfl
  | failed why =>
    obtain ⟨es, he⟩ := answer_known_failure (n := n) hk
    rw [he] at h
    cases h
    exact ⟨rfl, rfl, hs.cursor, rfl, rfl⟩

/-- An outcome that was worked out bears out the verdict that left its entry. -/
theorem settled (hw : w.entry = .ofOutcome u.failures o') (hc : u.cursor = o'.stopFrom s.cursor)
    (hle : u.cursor ≤ env.length) (hk : u.skipping = s.skipping)
    (h : Matcher.skippingBlanks env o'
      ((u.settle env key p s.failures o').closed p o' key) = .ok o t) :
    Explains env s o t (w.trailing env s.skipping) := by
  obtain ⟨d, es, he⟩ := (u.settle env key p s.failures o').closed_eq p o' key
  rw [he, State.settle_eq] at h
  cases w with
  | matched stop v =>
    cases o' with
    | failed => cases hw
    | matched stop' v' =>
      cases hw
      refine trailing ?_ h
      exact .matched hc (hc.symm.le.trans hle) hk rfl
  | failed why =>
    cases o' with
    | matched stop' v' => cases hw
    | failed =>
      refine trailing ?_ h
      exact ⟨rfl, hc, hle, hk, congrArg (s.failures ++ ·) (Entry.failure.inj hw).symm⟩

end Explains

/-! ## Answers -/

/-- The questions of a dialogue on the way to `z` are answered as the rules come to. -/
theorem Linked.told {α : Type} {d d' : Dialogue α} {a : α} (hE : Explained env z known n)
    (h : Linked env env #[] #[] s t d d') (hs : Sane env s) (hz : Sized env s)
    (hr : d.run (answer env n) = .ok a u) (hu : Later env u z) :
    d.Told env (z.grammar.ruleVerdict env known n s.depth) (answer env n) := by
  intro key v o v' hv ha
  obtain ⟨hsv, hzv⟩ := h.reaches_question (kept_sized env n) hs hz hv
  have hlater := h.later_answer hs hz hv ha
  rw [hr] at hlater
  rw [← (h.restores_question hv).depth]
  exact hE key v o v' hsv hzv ha (hlater.trans hu)

theorem entering_cursor (s : State) (r : RuleId) : (s.entering env r).cursor =
    if s.grammar.skipsBlanks r then env.skipBlanks s.cursor else s.cursor := by
  unfold State.entering State.skipBlanks
  dsimp only
  split <;> rfl

/-- A rule that fails adds its own failure to those of its body. -/
theorem Explains.leaving {why : Blame} (hs : s.cursor ≤ env.length)
    (hf : t.failures = s.failures ++ why.listing.toArray) (r : RuleId) :
    Explains env s .failed (s.leaving env r .failed t)
      (.failed (.of [why] ⟨s.cursor, .wrong r.label⟩)) := by
  have hparts : t.failures = s.failures ++ (Blame.listings [why]).toArray := by
    rw [hf]
    simp [Blame.listings]
  rw [State.leaving]
  exact .failed hs (moveTo_start hs { t with skipping := s.skipping }) rfl hparts _

/-- The work behind a rule bears out what its body comes to. -/
theorem produce_explained (hE : Explained env z known n) (hs : Sane env s) (hz : Sized env s)
    (h : produce env (n + 1) (.rule r) s = .ok o t) (ht : Later env t z) :
    ∃ w, z.grammar.bodyVerdict env (fun skipping x => x.verdict env skipping
        (z.grammar.ruleVerdict env known n s.depth)) r s.cursor = some w ∧
      Explains env s o t w := by
  have he : State.Works env { s with skipping := s.grammar.skipsBlanks r } (s.entering env r) :=
    .skipBlanks env _
  have hq : Quiet env s (s.entering env r) := .entering s r
  have hfe : (s.entering env r).failures = s.failures := State.skipBlanks_failures _ _
  have honward := (produce_reaches_end (kept_onward env (n + 1)) (.rule r) hs trivial).2
  rw [h] at honward
  have hgrows := honward.grows.trans ht.grows
  unfold Grammar.bodyVerdict
  rw [hgrows.skipsBlanks r, ← entering_cursor s r]
  obtain ⟨k, ⟨⟩, ⟨hd, -, rfl, rfl⟩ | ⟨x, u, v, -, hru, hx, hr, rfl⟩⟩ := produce_rule_cases h
  · rw [entering_grammar] at hd
    rw [hgrows.undefined r hd]
    refine ⟨_, rfl, .leaving hs.cursor ?_ r⟩
    rw [State.record_failures, hfe]
    simp [Blame.leaf, Blame.listing, Blame.listings]
  · have hqu : Quiet env s u := hq.trans (.of_rebuilt hru)
    have hself := x.linked_self env u
    have hzu : Sized env u := (kept_sized env 0).quiet hz hqu
    have hlater := hself.later n (hqu.sane hs) hzu
    rw [hr] at hlater
    have hend : Later env v z := (Later.of_quiet (.leaving s r o v)).trans ht
    have htold := hself.told hE (hqu.sane hs) hzu hr hend
    obtain ⟨w, hw, rfl, hc, hle, -, hf⟩ := x.verdict_of_run u (hqu.sane hs).cursor htold hr
    rw [(hlater.trans hend).grows.defined r x hx]
    -- apart from the grammar and events, `u` is the state in which the body was entered
    obtain ⟨-, g, es, rfl⟩ := hru
    dsimp only at hw hf ⊢
    rw [he.skipping, he.depth] at hw
    rw [hfe] at hf
    dsimp only at hw
    rw [hw]
    cases w with
    | matched stop a =>
      have hfv : v.failures = s.failures := by rw [hf]; simp [Verdict.failures]
      exact ⟨_, rfl, .matched hc (hc.symm.le.trans hle) rfl hfv⟩
    | failed why => exact ⟨_, rfl, .leaving hs.cursor hf r⟩

/-- What was worked out when nothing was remembered any more bears out the verdict of its key. -/
theorem worked_explained (hknows : Knows env z known) (hE : ∀ k < n, Explained env z known k)
    (hs : Sane env s) (hz : Sized env s) (hl : key.refused env s = false)
    (hun : Unknown env z ⟨key, s.cursor⟩) (hr : produce env n key (s.opened key) = .ok o u)
    (hu : Later env u z) :
    ∃ w, key.verdict env (z.grammar.ruleVerdict env known n s.depth) s.cursor = some w ∧
      Explains env (s.opened key) o u w := by
  have hopen : Quiet env s (s.opened key) := .opened s key
  cases key with
  | builtin c =>
    obtain ⟨o', u', hu', hexp⟩ := Explains.scan (hopen.sane hs).cursor c.label { apply := c.holds }
    rw [produce_builtin, hu'] at hr
    cases hr
    exact ⟨_, rfl, hexp⟩
  | rule r =>
    cases n with
    | zero => cases hr
    | succ n =>
      have hbody := produce_explained (hE n (Nat.lt_succ_self n)) (hopen.sane hs)
        ((kept_sized env 0).quiet hz hopen) hr hu
      rw [Key.verdict, ruleVerdict_succ (hknows.unknown r _ hun) hl]
      exact hbody

/-- What was worked out is recalled from then on, or it is never known. -/
theorem recalls_or_unknown (hs : Sane env s) (hz : Sized env s)
    (hr : produce env n key (s.opened key) = .ok o' u)
    (hun : Unknown env u ⟨key, s.cursor⟩)
    (hend : Matcher.skippingBlanks env o'
      ((u.settle env key s.cursor s.failures o').closed s.cursor o' key) = .ok o t)
    (ht : Later env t z) :
    z.Recalls env s.cursor key (.ofOutcome u.failures o') ∨ Unknown env z ⟨key, s.cursor⟩ := by
  by_cases hmem : env.memoizing = true
  · cases hov : u.overflowed with
    | true =>
      have hstill : Still u t := (Still.settle hov ..).trans (still_closing hend)
      have hmemo := (ht.frozen (hstill.overflowed.trans hov)).2.trans hstill.memo
      exact Or.inr (hun.of_memo hmemo)
    | false => exact Or.inl (ht.retains _ _ _ (recalls_of_produce hmem hs hz hr hend hov))
  · exact Or.inr fun _ hrec => hmem hrec.1

/-- An answer that was got on the way to `z` bears out what its key comes to in the grammar of `z`.
The entries that `z` recalls decide which of the rules count as known. -/
theorem answer_explained (hknows : Knows env z known) (n : Nat) : Explained env z known n := by
  induction n using Nat.strong_induction_on with
  | _ n ih =>
    intro key s o t hs hz h ht
    rcases answer_cases env key s with ⟨entry, hk⟩ | ⟨r, rfl, hk, hl⟩ | ⟨hk, hl⟩
    · have hrec := (State.known?_eq_some.mp hk).congr (still_of_known hk h).memo.symm
      obtain ⟨w, hw, rfl⟩ := hknows.recalled _ _ _ (ht.retains _ _ _ hrec)
      exact ⟨w, Key.verdict_of_known hw, .recalled hs hk h⟩
    · have hun := known?_eq_none_iff.mp hk
      rw [answer_refused hk hl] at h
      cases h
      -- a refusal sets the flag, so the rule stays unknown
      have hnone := hknows.unknown r s.cursor (hun.of_memo (ht.frozen rfl).2)
      refine ⟨_, ruleVerdict_refused hnone hl, ?_⟩
      refine .leaf hs.cursor ?_ ?_ ?_ (.tooDeep r.label) <;> rfl
    · obtain ⟨o', u, hr, hend⟩ := answer_worked hk hl h
      obtain ⟨hcur, hle, hskip⟩ := produce_lands hs hr
      have hun := produce_unknown n hs hz hk
      rw [hr] at hun
      suffices hw : ∃ w, key.verdict env (z.grammar.ruleVerdict env known n s.depth) s.cursor =
          some w ∧ w.entry = .ofOutcome u.failures o' by
        obtain ⟨w, hw, hentry⟩ := hw
        exact ⟨w, hw, .settled hentry hcur hle hskip hend⟩
      rcases recalls_or_unknown hs hz hr hun hend ht with hrec | hunz
      · obtain ⟨w, hw, hentry⟩ := hknows.recalled _ _ _ hrec
        exact ⟨w, Key.verdict_of_known hw, hentry⟩
      · have hclose : Later env (u.settle env key s.cursor s.failures o') t :=
          .of_still (still_closing hend)
        have hlater := (Later.settle hun s.failures o').trans (hclose.trans ht)
        obtain ⟨w, hw, hexp⟩ := worked_explained hknows ih hs hz hl hunz hr hlater
        exact ⟨w, hw, hexp.entry (s.opened_failures key)⟩

/-! ## Expressions -/

/-- An evaluation bears out its verdict in the state in which it ends. -/
theorem Expr.evaluate_explained (x : Expr) (hs : Sane env s) (hz : Sized env s)
    (hknows : Knows env t known) (h : x.evaluate env s = .ok o t) :
    ∃ v, x.verdict env s.skipping
        (t.grammar.ruleVerdict env known (headroom env t.grammar) s.depth) s.cursor = some v ∧
      Explains env s o t v := by
  rw [headroom_of_grows (x.evaluate_later hs hz h).grows]
  rw [Expr.evaluate_eq_run] at h
  have htold := (x.linked_self env s).told (answer_explained hknows _) hs hz h (.refl env t)
  exact x.verdict_of_run s hs.cursor htold h

theorem knows_reference (env : Env) (s : State) : Knows env.reference s fun _ _ => none :=
  ⟨fun _ _ _ hr => absurd hr.1 Bool.false_ne_true, fun _ _ _ => rfl⟩

/-- Without limit and memory, an evaluation bears out what the grammar in which it ends says. -/
theorem Expr.evaluate_reference_explained (x : Expr) (hs : Sane env.reference s)
    (hz : Sized env.reference s) (hd : s.depth = 0) (h : x.evaluate env.reference s = .ok o t) :
    ∃ v, x.verdict env.reference s.skipping (t.grammar.freeVerdict env) s.cursor = some v ∧
      Explains env.reference s o t v := by
  have hexp := x.evaluate_explained hs hz (knows_reference env t) h
  rw [hd] at hexp
  exact hexp

/-! ## What can be recalled -/

theorem Verdict.trailing_off (v : Verdict) : v.trailing env false = v := by
  cases v <;> rfl

theorem Key.verdict_expr (call : RuleId → Nat → Option Verdict) (skipping : Bool) :
    key.expr.verdict env skipping call p =
      (key.verdict env call p).map (·.trailing env skipping) := by
  cases key <;> rw [Key.expr, Expr.verdict]

/-- A sound entry was left by the verdict of its key. -/
theorem Sound.verdict {entry : Entry} (h : Sound env g p key entry) (hp : p ≤ env.length) :
    ∃ w, key.verdict env (g.freeVerdict env) p = some w ∧ w.entry = entry := by
  obtain ⟨o, t, ht, hentry, hg⟩ := h.evaluate_grown hp
  have hz : Sized env.reference { State.start env g with cursor := p } := sized_start env g
  obtain ⟨v, hv, hexp⟩ := key.expr.evaluate_reference_explained (sane_reference hp) hz rfl ht
  rw [hg] at hv
  have hkey : (key.verdict env.reference (g.freeVerdict env) p).map
      (·.trailing env.reference false) = some v := (Key.verdict_expr _ _).symm.trans hv
  simp only [Verdict.trailing_off, Option.map_id_fun', id_eq] at hkey
  exact ⟨v, hkey, (hexp.entry rfl).trans hentry.symm⟩

theorem knows_remembered (hmem : env.memoizing = true) (hs : Sane env s) (hm : MemoSound env s) :
    Knows env s (s.remembered env) where
  recalled := by
    intro p key entry hr
    obtain ⟨w, hw, hentry⟩ := (hm p key entry hr).verdict (hs.memo p key entry hr).le
    refine ⟨w, ?_, hentry⟩
    cases key with
    | builtin c => exact hw
    | rule r =>
      rw [Key.verdict, State.remembered, hr.2]
      exact hw
  unknown := by
    intro r p hun
    rw [State.remembered]
    cases hf : s.memo.find? p (.rule r) with
    | none => rfl
    | some entry => exact absurd ⟨hmem, hf⟩ (hun entry)

/-! ## Reports -/

theorem Reports.of_failures (ho : w.outcome = o) (hf : t.failures = s.failures ++ w.failures) :
    Reports s o t w := by
  subst ho
  cases w with
  | matched stop v => exact ⟨rfl, by simpa [Verdict.failures] using hf⟩
  | failed why => exact ⟨rfl, hf⟩

/-- An evaluation reports what the grammar in which it ends says, as far as rules can be recalled
there, and what comes of their bodies otherwise. -/
theorem Expr.evaluate_reports (hmem : env.memoizing = true) (x : Expr) (hs : Sane env s)
    (hz : Sized env s) (hm : MemoSound env s) (h : x.evaluate env s = .ok o t) :
    s.grammar.Grows t.grammar ∧ ∃ v, x.verdict env s.skipping (t.grammar.ruleVerdict env
        (t.remembered env) (headroom env t.grammar) s.depth) s.cursor = some v ∧
      Reports s o t v := by
  obtain ⟨hst, hmt⟩ := (x.linked_self env s).reaches_end
    (kept_sound env (headroom env s.grammar)) hs hm
  rw [← Expr.evaluate_eq_run, h] at hst hmt
  obtain ⟨v, hv, hexp⟩ := x.evaluate_explained hs hz (knows_remembered hmem hst hmt) h
  exact ⟨(x.evaluate_later hs hz h).grows, v, hv, .of_failures hexp.outcome hexp.failures⟩

/-- Where no rule was refused, an evaluation reports what the grammar in which it ends says. -/
theorem Expr.evaluate_reports_free (x : Expr) (hs : Sane env s) (hm : MemoSound env s)
    (h : x.evaluate env s = .ok o t) (hclear : env.limit = none ∨ t.overflowed = false) :
    ∃ v, x.verdict env.reference s.skipping (t.grammar.freeVerdict env) s.cursor = some v ∧
      Reports s o t v := by
  rw [Expr.evaluate_eq_run] at h
  have hfollow := follows_anew x hs hm (headroom env s.grammar)
  rw [h] at hfollow
  obtain ⟨k, u, hu, hsync, hg⟩ := hfollow hclear
  have heval := evaluate_reference_eq x (sane_anew hs) hu (Result.exhausted_ok o u)
  have hz : Sized env.reference (s.anew env) := sized_start env s.grammar
  obtain ⟨v, hv, hexp⟩ := x.evaluate_reference_explained (sane_anew hs) hz rfl heval
  rw [show u.grammar = t.grammar from hg] at hv
  refine ⟨v, hv, .of_failures hexp.outcome ?_⟩
  obtain ⟨fs, hft, hfu⟩ := hsync.failures
  have hfs : #[] ++ fs = #[] ++ v.failures := hfu.symm.trans hexp.failures
  rw [Array.empty_append, Array.empty_append] at hfs
  rw [hft, hfs]

end

/-! ## Sessions -/

/-- At every moment of a session, an evaluation that matches leaves the failures as it found them,
and one that fails adds the listing of its failure tree. The tree follows the expression and the
grammar: the rules that can be recalled in the end have the trees of the grammar itself, and all
others were refused or have those of their bodies, under the limit and with the rules open that were
open there. Where no rule was refused, all trees are those of the grammar. -/
theorem Session.failures_of_evaluate (text : String) (blanks : List Char) (limit : Option Nat)
    (g : Grammar) (cs : List (Command RuleId Expr)) (hcs : ∀ r x, .define r x ∉ cs) (s : State)
    (hs : s ∈ (Session.start text { blanks, limit } g).moments cs) (x : Expr) (o : Outcome Value)
    (t : State) (h : x.evaluate (.ofText text { blanks, limit }) s = .ok o t) :
    let env := Env.ofText text { blanks, limit }
    let rules := t.grammar.ruleVerdict env (t.remembered env) (headroom env t.grammar) s.depth
    g.Grows t.grammar ∧
      (∃ v, x.verdict env s.skipping rules s.cursor = some v ∧ Reports s o t v) ∧
      (limit = none ∨ t.overflowed = false →
        ∃ v, x.verdict env.reference s.skipping (t.grammar.freeVerdict env) s.cursor = some v ∧
          Reports s o t v) := by
  intro env rules
  have hsane := Session.sane_of_mem_moments hs
  have hm := Session.memoSound_of_mem_moments hcs hs
  have hgs := (Session.pairwise_onward text { blanks, limit } g hcs).2 s hs
  obtain ⟨hgt, hreports⟩ := x.evaluate_reports rfl hsane (Session.sized_of_mem_moments hs) hm h
  exact ⟨hgs.trans hgt, hreports, x.evaluate_reports_free hsane hm h⟩

/-- A rule that begins with itself is refused the third time, while the digit behind it, which has
failed before, is recalled at the same depth. -/
theorem Session.failures_of_evaluate_refused :
    let env := Env.ofText "x" { limit := some 2 }
    let s := ((Session.start "x" { limit := some 2 } .digits).after
      [.evaluate (.rule ⟨0, "digit"⟩)]).state
    let rules (t : State) :=
      t.grammar.ruleVerdict env (t.remembered env) (headroom env t.grammar) s.depth
    let digit := Blame.of [.leaf 0 (.wrong "Digit")] ⟨0, .wrong "Symbol(digit)"⟩
    let loop (why : Blame) := Blame.of [.of [why, digit]
      ⟨0, .wrong "PrioritizedChoice(Symbol(loop) / Symbol(digit))"⟩] ⟨0, .wrong "Symbol(loop)"⟩
    let why := loop (loop (.leaf 0 (.tooDeep "Symbol(loop)")))
    s.failures.size = 2 ∧
      ∃ o t, (Expr.rule ⟨1, "loop"⟩).evaluate env s = .ok o t ∧ t.overflowed = true ∧
        ∃ v, (Expr.rule ⟨1, "loop"⟩).verdict env s.skipping (rules t) s.cursor = some v ∧
          Reports s o t v ∧ v.failures = why.listing.toArray := by
  intro env s rules digit loop why
  have hends : Result.meets (fun _ t => t.overflowed &&
      decide (((Expr.rule ⟨1, "loop"⟩).verdict env s.skipping (rules t) s.cursor).map
        Verdict.failures = some why.listing.toArray))
      ((Expr.rule ⟨1, "loop"⟩).evaluate env s) = true := by decide +kernel
  obtain ⟨o, t, h, htest⟩ := Result.exists_of_meets hends
  obtain ⟨hov, hwhy⟩ := Bool.and_eq_true_iff.mp htest
  obtain ⟨-, ⟨v, hv, hreports⟩, -⟩ := Session.failures_of_evaluate "x" defaultBlanks (some 2)
    .digits [.evaluate (.rule ⟨0, "digit"⟩)] (by simp) s (Session.after_mem_moments _ _)
    (.rule ⟨1, "loop"⟩) o t h
  have hlist := of_decide_eq_true hwhy
  rw [hv] at hlist
  exact ⟨by decide +kernel, o, t, h, hov, v, hv, hreports, Option.some.inj hlist⟩

end Packrat
