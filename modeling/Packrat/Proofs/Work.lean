import Mathlib.Data.List.ProdSigma
import Packrat.Proofs.References
import Packrat.Proofs.Representation

/-!
# How much work a run does

While the limit is not hit, the body of a rule is evaluated at most once at each position. The
history of a run tells which bodies were evaluated (`State.attempts`). From the start of an
evaluation that is completed to its end, as many bodies were evaluated as entries for rules were
made, place by place: where a body is evaluated there was no entry, none is made before the
evaluation has ended (`produce_unknown`), and then one is. `Accounts` is this balance; it adds up
along a run. So at the end each attempt has its entry, and there is one entry for a place at most.

It also says which rules can be among them: those that occur in the evaluated expressions or in the
bodies of the grammar. This bounds the number of bodies that are evaluated, and the number of
entries.
-/

namespace Packrat

/-- The built-in character classes. -/
def CharClass.all : List CharClass := [.any, .digit, .letter, .hexDigit]

theorem CharClass.mem_all (c : CharClass) : c ∈ all := by
  cases c <;> simp [all]

/-- The rule and position of an attempt. -/
def Event.attempted? : Event → Option (RuleId × Nat)
  | .attempt r p => some (r, p)
  | _ => none

namespace State

/-- The rules whose bodies were evaluated so far, with the positions, in order. -/
def attempts (s : State) : List (RuleId × Nat) := s.events.toList.filterMap Event.attempted?

/-- The number of entries for a rule at a position, which is one or none. -/
def marks (s : State) (a : RuleId × Nat) : Nat :=
  if (s.memo.find? a.2 (.rule a.1)).isSome then 1 else 0

theorem marks_le (s : State) (a : RuleId × Nat) : s.marks a ≤ 1 := by
  unfold marks
  split <;> omega

theorem marks_congr {s t : State} (h : t.memo = s.memo) (a : RuleId × Nat) :
    t.marks a = s.marks a := by
  unfold marks
  rw [h]

end State

/-- From `s` to `t` as many bodies were evaluated as entries were made, for each rule and position,
and they are bodies of rules with `P` or of rules that the grammar mentions; it comes to mention no
others. -/
structure Accounts (P : RuleId → Prop) (s t : State) : Prop where
  tally : ∀ a, t.attempts.count a + s.marks a = s.attempts.count a + t.marks a
  scope : ∀ a ∈ t.attempts, a ∈ s.attempts ∨ P a.1 ∨ s.grammar.Mentions a.1
  mentions : ∀ r, t.grammar.Mentions r → s.grammar.Mentions r

section

variable {env : Env} {n : Nat} {key : Key} {P Q : RuleId → Prop} {s t u w : State}
  {o : Outcome Value}

/-- A limit that was hit stays hit. -/
theorem Onward.clear (h : Onward s t) (ht : t.overflowed = false) : s.overflowed = false := by
  by_contra hs
  have hhit := (h.frozen (by simpa using hs)).1
  simp [ht] at hhit

namespace Accounts

theorem of_same (ha : t.attempts = s.attempts) (hm : t.memo = s.memo)
    (hg : ∀ r, t.grammar.Mentions r → s.grammar.Mentions r) : Accounts P s t where
  tally a := by rw [ha, State.marks_congr hm]
  scope a hmem := Or.inl (ha ▸ hmem)
  mentions := hg

theorem trans (h : Accounts P s t) (h' : Accounts P t u) : Accounts P s u where
  tally a := by
    have h1 := h.tally a
    have h2 := h'.tally a
    omega
  scope a hmem := by
    rcases h'.scope a hmem with hmem | hP | hM
    · exact h.scope a hmem
    · exact Or.inr (Or.inl hP)
    · exact Or.inr (Or.inr (h.mentions a.1 hM))
  mentions r hr := h.mentions r (h'.mentions r hr)

theorem mono (h : Accounts P s t) (hPQ : ∀ r, P r → Q r ∨ s.grammar.Mentions r) :
    Accounts Q s t where
  tally := h.tally
  scope a hmem := by
    rcases h.scope a hmem with hmem | hP | hM
    · exact Or.inl hmem
    · exact Or.inr (hPQ a.1 hP)
    · exact Or.inr (Or.inr hM)
  mentions := h.mentions

end Accounts

/-! ## Single actions -/

theorem attempts_of_works (h : s.Works env t) : t.attempts = s.attempts := by
  obtain ⟨calls, hcalls⟩ := h.events
  unfold State.attempts
  rw [hcalls]
  simp [List.filterMap_append, Event.attempted?, Function.comp_def]

theorem Accounts.of_works (h : s.Works env t) : Accounts P s t :=
  .of_same (attempts_of_works h) h.memo fun r hr => by rw [← h.grammar]; exact hr

theorem attempts_emit (s : State) (e : Event) :
    (s.emit e).attempts = s.attempts ++ e.attempted?.toList := by
  unfold State.attempts State.emit
  cases h : e.attempted? <;> simp [h]

theorem attempts_note {α : Type} (s : State) (journal : Option String) (text : α → String) (a : α) :
    (s.note journal text a).attempts = s.attempts := by
  cases journal with
  | none => rfl
  | some journal =>
    rw [State.note, attempts_emit]
    exact List.append_nil _

theorem attempts_closed (s : State) (p : Nat) (o : Outcome Value) (key : Key) :
    (s.closed p o key).attempts = s.attempts := by
  cases key with
  | builtin c => rfl
  | rule r =>
    cases o with
    | matched stop v =>
      change ({ s with depth := s.depth - 1 }.emit (.matched r p stop)).attempts = _
      rw [attempts_emit]
      exact List.append_nil _
    | failed =>
      change ({ s with depth := s.depth - 1 }.emit (.failed r p)).attempts = _
      rw [attempts_emit]
      exact List.append_nil _

theorem attempts_recalled (s : State) (p : Nat) (o : Outcome Value) (key : Key) :
    (s.recalled p o key).attempts = s.attempts := by
  cases key with
  | builtin c => rfl
  | rule r =>
    rw [State.recalled, attempts_emit]
    split <;> simp [Event.attempted?]

theorem attempts_body? {r : RuleId} {x : Option Expr} (h : Matcher.body? r s = .ok x t) :
    t.attempts = s.attempts := by
  cases hb : s.grammar.body r with
  | undefined => rw [Matcher.run_body?_undefined hb] at h; cases h; rfl
  | defined y => rw [Matcher.run_body?_defined hb] at h; cases h; rfl
  | delayed b =>
    have hnote := attempts_note s b.journal (fun _ => "build") s.grammar.handles
    rw [Matcher.run_body?_delayed hb] at h
    cases hr : (Matcher.built s.grammar r b).1 with
    | error f => rw [hr] at h; cases h
    | ok y => rw [hr] at h; cases h; exact hnote

/-- Opening a rule is one attempt, at the cursor. -/
theorem attempts_opened (s : State) (key : Key) (a : RuleId × Nat) :
    (s.opened key).attempts.count a =
      s.attempts.count a + if key = .rule a.1 ∧ s.cursor = a.2 then 1 else 0 := by
  cases key with
  | builtin c => rfl
  | rule r =>
    obtain ⟨r', p⟩ := a
    change ({ s with depth := s.depth + 1 }.emit (.attempt r s.cursor)).attempts.count (r', p) = _
    rw [attempts_emit, List.count_append]
    congr 1
    simp [Event.attempted?, List.count_singleton]

theorem mem_attempts_opened {a : RuleId × Nat} (h : a ∈ (s.opened key).attempts) :
    a ∈ s.attempts ∨ key = .rule a.1 := by
  cases key with
  | builtin c => exact Or.inl h
  | rule r =>
    change a ∈ ({ s with depth := s.depth + 1 }.emit (.attempt r s.cursor)).attempts at h
    rw [attempts_emit, List.mem_append] at h
    rcases h with h | h
    · exact Or.inl h
    · simp only [Event.attempted?, Option.toList_some, List.mem_singleton] at h
      rw [h]
      exact Or.inr rfl

/-- Settling an outcome for a place that is not known makes one entry. -/
theorem marks_settle (hmem : env.memoizing = true) (hov : s.overflowed = false) {p : Nat}
    (hz : Sized env s) (hp : p ≤ env.length) (hun : Unknown env s ⟨key, p⟩)
    (outer : Array Failure) (o : Outcome Value) (a : RuleId × Nat) :
    (s.settle env key p outer o).marks a =
      s.marks a + if key = .rule a.1 ∧ p = a.2 then 1 else 0 := by
  obtain ⟨r, q⟩ := a
  by_cases ha : key = .rule r ∧ p = q
  · obtain ⟨rfl, rfl⟩ := ha
    have hrec := recalls_settle hmem hov hz hp (.rule r) outer o
    have hnone : s.memo.find? p (.rule r) = none := by
      rw [Option.eq_none_iff_forall_ne_some]
      exact fun entry hentry => hun entry ⟨hmem, hentry⟩
    simp [State.marks, hrec.2, hnone]
  · have hne : q ≠ p ∨ Key.rule r ≠ key := by
      by_contra hboth
      push Not at hboth
      exact ha ⟨hboth.2.symm, hboth.1.symm⟩
    rw [if_neg ha, State.settle_eq]
    unfold State.marks
    simp only [hmem, hov, Bool.not_false, Bool.and_self, if_true]
    rw [Memo.find?_insert_of_ne _ hne]
    rfl

/-! ## Answers -/

/-- An expression asks only for rules that occur in it. -/
theorem Expr.refers_of_reaches (x : Expr) (hs : Sane env s) {r : RuleId}
    (hu : (x.dialogue env s).Reaches (answer env n) (.rule r) u) : x.Refers r := by
  have h := x.begins_of_reaches (Expr.covers_true env n) hs (fun _ _ _ _ _ _ => trivial) hu
  exact Expr.Begins.mono (fun _ _ => trivial) x h.2

/-- With room for `n` open rules, an answer that was got before the limit was hit balances, and the
rules that were evaluated are the one asked for and those that the grammar mentions. -/
def Balanced (env : Env) (n : Nat) : Prop :=
  ∀ key s o t, Sane env s → Sized env s → answer env n key s = .ok o t → t.overflowed = false →
    Accounts (fun r => key = .rule r) s t

/-- A dialogue balances if the answers to its questions do. -/
theorem Linked.accounts {α : Type} (hn : Balanced env n) {d d' : Dialogue α}
    (h : Linked env env #[] #[] s t d d') (hs : Sane env s) (hz : Sized env s)
    (hP : ∀ r u, d.Reaches (answer env n) (.rule r) u → P r) {a : α}
    (hr : d.run (answer env n) = .ok a w) (hov : w.overflowed = false) : Accounts P s w := by
  induction h with
  | done hu hw huw a => cases hr; exact .of_works hu
  | halt hu hw huw e => cases hr
  | @ask s t u w' hu hw huw key next next' hnext ih =>
    have hq := Quiet.of_works hu
    have hzu : Sized env u := (kept_sized env n).quiet hz hq
    rw [Dialogue.run_ask] at hr
    cases ha : answer env n key u with
    | error e v => rw [ha] at hr; cases hr
    | ok o v =>
      rw [ha] at hr
      dsimp only at hr
      obtain ⟨hsv, hzv⟩ := answer_reaches_end (kept_sized env n) key (hq.sane hs) hzu
      rw [ha] at hsv hzv
      obtain ⟨-, honward⟩ := (hnext o v v (.refl v)).reaches_end (kept_onward env n) hsv trivial
      rw [hr] at honward
      -- had the limit been hit in the answer, it would have been hit at the end
      have hovv := honward.clear hov
      have hans := (hn key u o v (hq.sane hs) hzu ha hovv).mono fun r hkey =>
        Or.inl (hP r u (hkey ▸ .here key u next))
      have hrest := ih o v v (.refl v) hsv hzv (fun r u' hu' => hP r u' (.there ha hu')) hr
      exact (Accounts.of_works hu).trans (hans.trans hrest)

/-- The work behind a rule balances, with the rules that its body refers to. -/
theorem produce_accounts_succ (hn : Balanced env n) (hs : Sane env s) (hz : Sized env s)
    {r : RuleId} (h : produce env (n + 1) (.rule r) s = .ok o t) (hov : t.overflowed = false) :
    Accounts (fun _ => False) s t := by
  have henter : Accounts (fun _ => False) s (s.entering env r) := by
    have hstill := Still.entering env s r
    have hw : State.Works env { s with skipping := s.grammar.skipsBlanks r } (s.entering env r) :=
      .skipBlanks env _
    have ha : (s.entering env r).attempts = s.attempts := (attempts_of_works hw).trans rfl
    exact .of_same ha hstill.memo fun r hr => by rw [← hstill.grammar]; exact hr
  obtain ⟨k, ⟨⟩, ⟨-, -, -, rfl⟩ | ⟨x, u, w, hb, hru, hx, hr, rfl⟩⟩ := produce_rule_cases h
  · exact henter.trans (.of_same rfl rfl fun _ hr => hr)
  · have hq : Quiet env (s.entering env r) u := .of_rebuilt hru
    have hqs : Quiet env s u := (Quiet.entering s r).trans hq
    have hbody : Accounts (fun _ => False) (s.entering env r) u :=
      .of_same (attempts_body? hb) hq.memo fun _ hr => Matcher.mentions_of_body? hb hr
    have hleave : Accounts (fun _ => False) w (s.leaving env r o w) := by
      cases o <;> exact .of_same rfl rfl fun _ hr => hr
    have hovw : w.overflowed = false := (Onward.of_quiet (Quiet.leaving s r o w)).clear hov
    have hrun := (x.linked_self env u).accounts hn (hqs.sane hs)
      ((kept_sized env n).quiet hz hqs)
      (fun r' u' hu' => x.refers_of_reaches (hqs.sane hs) hu') hr hovw
    refine henter.trans (hbody.trans (Accounts.trans ?_ hleave))
    exact hrun.mono fun r' hr' => Or.inr (Grammar.mentions_of_defines hx hr')

/-- An answer balances if its work does: the attempt that opens the rule is matched by the entry
that settles it. -/
theorem answer_accounts_of_produce (hmem : env.memoizing = true)
    (hp : ∀ s o t, Sane env s → Sized env s → produce env n key s = .ok o t →
      t.overflowed = false → Accounts (fun _ => False) s t)
    (hs : Sane env s) (hz : Sized env s) (h : answer env n key s = .ok o t)
    (hov : t.overflowed = false) : Accounts (fun r => key = .rule r) s t := by
  rcases answer_cases env key s with ⟨entry, hk⟩ | ⟨r, rfl, hk, hl⟩ | ⟨hk, hl⟩
  · have hstill := still_of_known hk h
    have ha : t.attempts = s.attempts := by
      rw [answer_known hk] at h
      cases entry <;>
        exact (attempts_of_works (.of_skippingBlanks h)).trans (attempts_recalled _ _ _ _)
    exact .of_same ha hstill.memo fun r hr => by rw [← hstill.grammar]; exact hr
  · rw [answer_refused hk hl] at h
    cases h
    cases hov
  · obtain ⟨o', u, hr, hend⟩ := answer_worked hk hl h
    have hopen : Quiet env s (s.opened key) := .opened s key
    have hso := hopen.sane hs
    have hzo : Sized env (s.opened key) := (kept_sized env n).quiet hz hopen
    have hstill := still_closing hend
    have hovu : u.overflowed = false := by
      have heq := hstill.overflowed
      rw [State.settle_eq] at heq
      exact heq.symm.trans hov
    obtain ⟨-, hzu⟩ := produce_reaches_end (kept_sized env n) key hso hzo
    have hun := produce_unknown n hs hz hk
    rw [hr] at hzu hun
    have hwork := hp (s.opened key) o' u hso hzo hr hovu
    have ha : t.attempts = u.attempts := by
      refine (attempts_of_works (.of_skippingBlanks hend)).trans
        ((attempts_closed _ _ _ _).trans ?_)
      rw [State.settle_eq]
      rfl
    refine ⟨fun a => ?_, fun a hmem => ?_, fun r hr => ?_⟩
    -- opening the rule counts one attempt at the cursor, settling its outcome one entry there
    · have h1 := hwork.tally a
      have h2 := attempts_opened s key a
      have h3 := marks_settle hmem hovu hzu hs.cursor hun s.failures o' a
      have h4 := State.marks_congr hopen.memo a
      have h5 := State.marks_congr hstill.memo a
      rw [ha]
      omega
    · rw [ha] at hmem
      rcases hwork.scope a hmem with hmem | hfalse | hM
      · exact (mem_attempts_opened hmem).imp_right Or.inl
      · exact hfalse.elim
      · rw [s.opened_grammar key] at hM
        exact Or.inr (Or.inr hM)
    · rw [hstill.grammar, State.settle_grammar] at hr
      rw [← s.opened_grammar key]
      exact hwork.mentions r hr

/-- The work behind a key balances, with any room. -/
theorem produce_accounts (hmem : env.memoizing = true) (n : Nat) (key : Key) (s : State)
    (o : Outcome Value) (t : State) (hs : Sane env s) (hz : Sized env s)
    (h : produce env n key s = .ok o t) (hov : t.overflowed = false) :
    Accounts (fun _ => False) s t := by
  induction n generalizing key s o t with
  | zero =>
    cases key with
    | rule r => cases h
    | builtin c =>
      obtain ⟨o', t', ht', hw⟩ := exists_produce_builtin env 0 c s
      rw [ht'] at h
      cases h
      exact .of_works hw
  | succ n ih =>
    cases key with
    | builtin c => exact ih (.builtin c) s o t hs hz (by rw [produce_builtin] at h ⊢; exact h) hov
    | rule r =>
      refine produce_accounts_succ (fun key s o t hs hz ha hov => ?_) hs hz h hov
      exact answer_accounts_of_produce hmem (ih key) hs hz ha hov

theorem balanced (hmem : env.memoizing = true) (n : Nat) : Balanced env n :=
  fun key _ _ _ hs hz h hov =>
    answer_accounts_of_produce hmem (produce_accounts hmem n key) hs hz h hov

/-- An evaluation that is completed before the limit is hit balances. -/
theorem Expr.evaluate_accounts (hmem : env.memoizing = true) (x : Expr) (hs : Sane env s)
    (hz : Sized env s) (h : x.evaluate env s = .ok o t) (hov : t.overflowed = false) :
    Accounts x.Refers s t := by
  rw [Expr.evaluate_eq_run] at h
  exact (x.linked_self env s).accounts (balanced hmem _) hs hz
    (fun r u hu => x.refers_of_reaches hs hu) h hov

/-! ## Sessions -/

/-- The rule occurs in the expression that the step evaluates or gives to a rule. -/
def Command.Refers : Command RuleId Expr → RuleId → Prop
  | .evaluate x, r | .define _ x, r => x.Refers r
  | _, _ => False

/-- Every body that was evaluated has its entry and is that of a rule with `P`, and the grammar
mentions no other rules. -/
structure Ledger (P : RuleId → Prop) (s : State) : Prop where
  tally : ∀ a, s.attempts.count a = s.marks a
  scope : ∀ a ∈ s.attempts, P a.1
  mentions : ∀ r, s.grammar.Mentions r → P r

/-- A session begins with a balanced ledger. -/
theorem ledger_start (env : Env) {g : Grammar} (hg : ∀ r, g.Mentions r → P r) :
    Ledger P (.start env g) where
  tally a := by simp [State.attempts, State.marks, State.start, Memo.find?_empty]
  scope a hmem := by simp [State.attempts, State.start] at hmem
  mentions := hg

namespace Ledger

/-- A balanced run keeps the ledger. -/
theorem of_accounts (hs : Ledger P s) (h : Accounts P s t) : Ledger P t where
  tally a := by
    have h1 := hs.tally a
    have h2 := h.tally a
    omega
  scope a hmem := by
    rcases h.scope a hmem with hmem | hP | hM
    · exact hs.scope a hmem
    · exact hP
    · exact hs.mentions a.1 hM
  mentions r hr := hs.mentions r (h.mentions r hr)

/-- No body was evaluated twice at a position, since there is one entry for a place at most. -/
theorem nodup (h : Ledger P s) : s.attempts.Nodup := by
  rw [List.nodup_iff_count_le_one]
  intro a
  rw [h.tally a]
  exact s.marks_le a

/-- Every entry for a rule stems from an attempt. -/
theorem mem_attempts (h : Ledger P s) {r : RuleId} {p : Nat} {entry : Entry}
    (hfind : s.memo.find? p (.rule r) = some entry) : (r, p) ∈ s.attempts := by
  have htally := h.tally (r, p)
  simp only [State.marks, hfind, Option.isSome_some, if_true] at htally
  exact List.count_pos_iff.mp (by omega)

/-- Every attempt has left an entry. -/
theorem exists_entry (h : Ledger P s) {r : RuleId} {p : Nat} (hmem : (r, p) ∈ s.attempts) :
    ∃ entry, s.memo.find? p (.rule r) = some entry := by
  have htally := h.tally (r, p)
  have hpos := List.count_pos_iff.mpr hmem
  unfold State.marks at htally
  split at htally
  · rename_i hsome
    exact Option.isSome_iff_exists.mp hsome
  · omega

end Ledger

/-- A completed step of a session keeps the balance. -/
theorem Command.ledger (hmem : env.memoizing = true) (c : Command RuleId Expr)
    (hc : ∀ r, c.Refers r → P r) (hs : Sane env s) (hz : Sized env s) (hL : Ledger P s)
    {reply : Reply} (h : c.run env s = .ok reply t) (hov : t.overflowed = false) :
    Ledger P t := by
  have hworks : ∀ {u}, s.Works env u → Ledger P u := fun hw => hL.of_accounts (.of_works hw)
  cases c with
  | evaluate x =>
    rw [Command.run_evaluate] at h
    cases hr : x.evaluate env s with
    | error e u => rw [hr] at h; cases h
    | ok o u =>
      rw [hr] at h
      cases h
      refine hL.of_accounts ((x.evaluate_accounts hmem hs hz hr hov).mono fun r hr => ?_)
      exact Or.inl (hc r hr)
  | define r x =>
    rw [Command.run_define] at h
    cases hd : s.grammar.define r x with
    | error e => rw [hd] at h; cases h; exact hL
    | ok g =>
      rw [hd] at h
      cases h
      -- a definition evaluates nothing; the rules of its expression are allowed for
      refine ⟨hL.tally, hL.scope, fun r' hr' => ?_⟩
      rcases Grammar.mentions_of_define hd hr' with hr' | hr'
      · exact hL.mentions r' hr'
      · exact hc r' hr'
  | advance k => cases h; exact hworks (.moveTo env s _)
  | moveTo p => cases h; exact hworks (.moveTo env s p)
  | record message => cases h; exact hworks (.record env s _)
  | clearFailures => cases h; exact hworks (.cutBack env s 0)
  | cutBack height => cases h; exact hworks (.cutBack env s height)
  | setSkipping on => cases h; exact ⟨hL.tally, hL.scope, hL.mentions⟩
  | skipBlanks => cases h; exact hworks (.skipBlanks env s)
  | query => cases h; exact hL

/-- No step of the session is halted. -/
def Session.completes (s : Session) : List (Command RuleId Expr) → Bool
  | [] => true
  | c :: cs => (s.step c).1.isOk && (s.step c).2.completes cs

/-- That the limit was hit is never forgotten by an evaluation. -/
theorem kept_overflowed (env : Env) (n : Nat) :
    Kept env n (fun _ => True) fun s t => s.overflowed = true → t.overflowed = true where
  trans h h' hs := h' (h hs)
  holds _ := trivial
  quiet _ h := h.overflowed
  settle outer _ _ _ _ _ _ _ ht := by rw [State.settle_eq]; exact ht

/-- Nor by the later steps of a session. -/
theorem Session.overflowed_after {cs : List (Command RuleId Expr)} (hs : Sane env s)
    (h : s.overflowed = true) : (Session.after ⟨env, s⟩ cs).state.overflowed = true := by
  obtain ⟨l, hl, hpath⟩ := Session.passes_moments (kept_overflowed env) cs
    (fun _ _ _ _ _ _ _ => id) s hs trivial
  have hmem := Session.after_mem_moments ⟨env, s⟩ cs
  rw [hl] at hmem
  rcases List.mem_cons.mp hmem with heq | hmem
  · rw [heq]; exact h
  · exact (hpath.reaches (kept_overflowed env 0) hmem).2 h

/-- The balance holds after a session whose steps are completed before the limit is hit. -/
theorem Session.ledger_after (hmem : env.memoizing = true) {cs : List (Command RuleId Expr)}
    (hP : ∀ c ∈ cs, ∀ r, c.Refers r → P r) (hs : Sane env s) (hz : Sized env s)
    (hL : Ledger P s) (hcs : Session.completes ⟨env, s⟩ cs = true)
    (hov : (Session.after ⟨env, s⟩ cs).state.overflowed = false) :
    Ledger P (Session.after ⟨env, s⟩ cs).state := by
  induction cs generalizing s with
  | nil => exact hL
  | cons c cs ih =>
    have hpath := c.passes (kept_sized env _) (fun _ _ _ _ _ => hz) hs hz
    obtain ⟨hsane, hsized⟩ := hpath.last (kept_sized env 0)
    rw [Session.completes, Bool.and_eq_true] at hcs
    obtain ⟨hok, hrest⟩ := hcs
    change (Session.after ((Session.mk env s).step c).2 cs).state.overflowed = false at hov
    change Ledger P (Session.after ((Session.mk env s).step c).2 cs).state
    rw [Session.step_eq] at hrest hov ⊢
    dsimp only at hrest hov ⊢
    refine ih (fun c hc => hP c (List.mem_cons_of_mem _ hc)) hsane hsized ?_ hrest hov
    cases hr : c.run env s with
    | error e t => simp [Session.step, hr, Except.isOk, Except.toBool] at hok
    | ok reply t =>
      rw [hr] at hsane hov
      refine c.ledger hmem (hP c List.mem_cons_self) hs hz hL hr ?_
      by_contra hne
      have hhit : (Session.after ⟨env, t⟩ cs).state.overflowed = true :=
        Session.overflowed_after hsane (by simpa using hne)
      rw [Result.state_ok] at hov
      rw [hov] at hhit
      cases hhit

/-! ## Counting -/

namespace Memo

variable {m : Memo}

theorem size_le {bound : Nat} (h : ∀ table ∈ m.tables, table.length ≤ bound) :
    m.size ≤ m.tables.size * bound := by
  obtain ⟨⟨tables⟩⟩ := m
  unfold size
  simp only [List.size_toArray]
  induction tables with
  | nil => simp
  | cons table rest ih =>
    have htable : table.length ≤ bound := h table (by simp)
    have hrest := ih fun table' hmem => h table' (by simp at hmem; simp [hmem])
    rw [List.foldr_cons, List.length_cons, Nat.succ_mul]
    omega

/-- A table with one entry for a key is no longer than a list of all keys with entries. -/
theorem length_le_of_distinct (hm : m.Distinct) {keys : List Key}
    (h : ∀ p key entry, m.find? p key = some entry → key ∈ keys) {table : List (Key × Entry)}
    (htable : table ∈ m.tables) : table.length ≤ keys.length := by
  have hsub : table.map Prod.fst ⊆ keys := by
    intro _ hkey
    obtain ⟨⟨key, entry⟩, hmem, rfl⟩ := List.mem_map.mp hkey
    obtain ⟨p, hp, rfl⟩ := Array.mem_iff_getElem.mp htable
    have hsome : (m.tables[p].lookup key).isSome = true :=
      List.lookup_isSome_iff.mpr ⟨(key, entry), hmem, by simp⟩
    obtain ⟨entry', hentry⟩ := Option.isSome_iff_exists.mp hsome
    refine h p key entry' ?_
    rw [find?, Array.getElem?_eq_getElem hp]
    exact hentry
  have hlength := ((hm table htable).subperm hsub).length_le
  rwa [List.length_map] at hlength

end Memo

namespace Ledger

variable {ids : List RuleId}

/-- There are no more bodies evaluated than rules and positions to evaluate them for. -/
theorem length_attempts_le (h : Ledger (· ∈ ids) s) (hmem : env.memoizing = true)
    (hs : Sane env s) : s.attempts.length ≤ ids.length * (env.length + 1) := by
  have hsub : s.attempts ⊆ ids ×ˢ List.range (env.length + 1) := by
    rintro ⟨r, p⟩ ha
    obtain ⟨entry, hentry⟩ := h.exists_entry ha
    have hp : p ≤ env.length := (hs.memo p (.rule r) entry ⟨hmem, hentry⟩).le
    exact List.mem_product.mpr ⟨h.scope _ ha, List.mem_range.mpr (Nat.lt_succ_of_le hp)⟩
  have hlength := (h.nodup.subperm hsub).length_le
  rwa [List.length_product, List.length_range] at hlength

/-- There are no more entries than keys and positions to have entries for. -/
theorem size_memo_le (h : Ledger (· ∈ ids) s) (hz : Sized env s) (hm : s.memo.Distinct) :
    s.memo.size ≤ (ids.length + CharClass.all.length) * (env.length + 1) := by
  have hkeys : ∀ p key entry, s.memo.find? p key = some entry →
      key ∈ ids.map .rule ++ CharClass.all.map .builtin := by
    intro p key entry hentry
    rw [List.mem_append]
    cases key with
    | rule r => exact Or.inl (List.mem_map_of_mem (h.scope _ (h.mem_attempts hentry)))
    | builtin c => exact Or.inr (List.mem_map_of_mem c.mem_all)
  have hsize := Memo.size_le fun table htable => Memo.length_le_of_distinct hm hkeys htable
  unfold Sized at hz
  rw [hz, List.length_append, List.length_map, List.length_map] at hsize
  rwa [Nat.mul_comm]

end Ledger

end

/-- In a session whose steps are completed and in which the limit is not hit, no body is evaluated
twice at one position, and the places where bodies were evaluated are those that have entries. So if
all rules that occur are rules of the grammar, then there are at most as many evaluations of bodies
as rules times positions, and at most as many entries as rules and built-in character classes times
positions. -/
theorem Session.work_bound (text : String) (blanks : List Char) (limit : Option Nat)
    (g : Grammar) (cs : List (Command RuleId Expr))
    (hcs : (Session.start text { blanks, limit } g).completes cs = true)
    (hov : ((Session.start text { blanks, limit } g).after cs).state.overflowed = false) :
    let s := ((Session.start text { blanks, limit } g).after cs).state
    s.attempts.Nodup ∧
      (∀ r p, (r, p) ∈ s.attempts ↔ ∃ entry, s.memo.find? p (.rule r) = some entry) ∧
      (g.Closed → (∀ c ∈ cs, ∀ r, c.Refers r → r ∈ g.ids) →
        s.attempts.length ≤ g.rules.size * (text.length + 1) ∧
        s.memo.size ≤ (g.rules.size + CharClass.all.length) * (text.length + 1)) := by
  intro s
  have hmoment := Session.after_mem_moments (Session.start text { blanks, limit } g) cs
  have hledger : ∀ {P : RuleId → Prop}, (∀ r, g.Mentions r → P r) →
      (∀ c ∈ cs, ∀ r, c.Refers r → P r) → Ledger P s := fun hg hP =>
    Session.ledger_after rfl hP (sane_start _ g) (sized_start _ g) (ledger_start _ hg) hcs hov
  have hall : Ledger (fun _ => True) s := hledger (fun _ _ => trivial) fun _ _ _ _ => trivial
  refine ⟨hall.nodup, fun r p => ⟨hall.exists_entry, ?_⟩, fun hg hP => ?_⟩
  · rintro ⟨entry, hentry⟩
    exact hall.mem_attempts hentry
  · have hids := hledger hg hP
    rw [← g.length_ids, ← Env.length_ofText text { blanks, limit }]
    exact ⟨hids.length_attempts_le rfl (Session.sane_of_mem_moments hmoment),
      hids.size_memo_le (Session.sized_of_mem_moments hmoment)
        (Session.distinct_of_mem_moments hmoment)⟩

/-- Two alternatives that begin with the same rule. -/
def RuleForm.shared : List RuleForm :=
  let item : StepForm Form := ⟨.rule "item", true, none⟩
  [⟨"pair", false, false, some (.choice
      [.sequence [item, ⟨.text "a", true, none⟩] none false none,
        .sequence [item, ⟨.text "b", true, none⟩] none false none] false), none⟩,
    ⟨"item", false, true, some (.builtin .digit), none⟩]

/-- The second alternative, the second evaluation and the evaluation of the part find what is
known. -/
theorem Session.work_bound_shared :
    ∃ g, Grammar.ofForms RuleForm.shared = .ok g ∧
      let pair : RuleId := ⟨0, "pair"⟩
      let item : RuleId := ⟨1, "item"⟩
      let cs := [.evaluate (.rule pair), .moveTo 0, .evaluate (.rule pair), .evaluate (.rule item),
        .moveTo 0, .evaluate (.rule item)]
      let s := ((Session.start "7b" {} g).after cs).state
      s.attempts = [(pair, 0), (item, 0), (item, 2)] ∧ s.memo.size = 5 ∧
        s.attempts.length ≤ 2 * 3 ∧ s.memo.size ≤ (2 + 4) * 3 := by
  refine ⟨_, rfl, ?_⟩
  intro pair item cs s
  have hrefers : ∀ c ∈ cs, ∀ r, c.Refers r → r ∈ [pair, item] := by
    simp [cs, Command.Refers, Expr.Refers, Expr.Begins]
  refine ⟨by decide +kernel, by decide +kernel,
    (Session.work_bound "7b" defaultBlanks none _ cs ?_ ?_).2.2
      (@Grammar.closed_ofForms _ RuleForm.shared rfl) hrefers⟩
  · decide +kernel
  · decide +kernel

end Packrat
