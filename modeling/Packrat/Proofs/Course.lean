import Mathlib.Data.List.Chain
import Packrat.Proofs.Cursor
import Packrat.Proofs.Lockstep
import Packrat.Session

/-!
# The course of a run

The states that a run passes through, in order, also inside the rules that it opens and also where
it is halted: `Dialogue.course` for a dialogue, `answerCourse` for what happens between a question
and its answer, and `Session.moments` for a session.

All changes along a course are quiet, they remember nothing, except where an outcome is settled. So
a relation that holds across quiet changes and across the settling of what `produce` came to
(`Kept`) holds along every course.
-/

namespace Packrat

/-! ## Courses -/

/-- The states of a dialogue, where `inner` gives those between a question and its answer. -/
def Dialogue.course {α : Type} (f : Key → Matcher) (inner : Key → State → List State) :
    Dialogue α → List State
  | .done _ s => [s]
  | .halt _ s => [s]
  | .ask key s next => s :: inner key s ++ Result.state (f key s) ::
    match f key s with
    | .ok o t => (next o t).course f inner
    | .error _ _ => []

/-- The states between a question and its answer, where `work` gives those of the work behind it. -/
def courseBetween (env : Env) (work : Key → State → List State) (key : Key) (s : State) :
    List State :=
  if (s.known? env key).isSome || key.refused env s then []
  else work key (s.opened key)

/-- The states of the work behind an answer. -/
def workCourse (env : Env) : Nat → Key → State → List State
  | n + 1, .rule r, s =>
    s.entering env r :: match Matcher.body? r (s.entering env r) with
      | .ok (some x) t =>
        t :: (x.dialogue env t).course (answer env n) (courseBetween env (workCourse env n))
      | .ok none t => [t]
      | .error _ t => [t]
  | 0, .rule _, _ => []
  | _, .builtin _, _ => []

/-- The states between a question and its answer with room for `n` open rules. -/
def answerCourse (env : Env) (n : Nat) : Key → State → List State :=
  courseBetween env (workCourse env n)

/-- The states inside a step of a session. -/
def Command.course (env : Env) (s : State) : Command RuleId Expr → List State
  | .evaluate x =>
    (x.dialogue env s).course (answer env (headroom env s.grammar))
      (answerCourse env (headroom env s.grammar))
  | _ => []

/-- The states of a session: between its steps and inside of them. -/
def Session.moments (s : Session) : List (Command RuleId Expr) → List State
  | [] => [s.state]
  | c :: cs => s.state :: c.course s.env s.state ++ (s.step c).2.moments cs

/-- A course ends with the state in which the dialogue does. -/
theorem Dialogue.exists_course_eq {α : Type} (f : Key → Matcher)
    (inner : Key → State → List State) (d : Dialogue α) :
    ∃ l, d.course f inner = l ++ [(d.run f).state] := by
  induction d with
  | done a s => exact ⟨[], rfl⟩
  | halt e s => exact ⟨[], rfl⟩
  | ask key s next ih =>
    rw [course, run_ask]
    cases f key s with
    | error e t => exact ⟨s :: inner key s, rfl⟩
    | ok o t =>
      obtain ⟨l, hl⟩ := ih o t
      refine ⟨s :: inner key s ++ t :: l, ?_⟩
      dsimp only [Result.state_ok]
      simp only [hl, List.cons_append, List.append_assoc]

/-! ## Quiet changes -/

/-- A change from `s` to `t` that remembers nothing and forgets nothing. -/
structure Quiet (env : Env) (s t : State) : Prop where
  memo : t.memo = s.memo
  grows : s.grammar.Grows t.grammar
  /-- The limit stays hit. -/
  overflowed : s.overflowed = true → t.overflowed = true
  inside : s.cursor ≤ env.length → t.cursor ≤ env.length

namespace Quiet

variable {env : Env} {s t u : State}

theorem refl (env : Env) (s : State) : Quiet env s s := ⟨rfl, .refl _, id, id⟩

theorem trans (h : Quiet env s t) (h' : Quiet env t u) : Quiet env s u where
  memo := h'.memo.trans h.memo
  grows := h.grows.trans h'.grows
  overflowed hs := h'.overflowed (h.overflowed hs)
  inside hs := h'.inside (h.inside hs)

/-- A quiet change keeps a state sane. -/
theorem sane (h : Quiet env s t) (hs : Sane env s) : Sane env t :=
  hs.of_memo h.memo (h.inside hs.cursor)

/-- What an expression does by itself is quiet. -/
theorem of_works (h : s.Works env t) : Quiet env s t where
  memo := h.memo
  grows := by rw [h.grammar]; exact .refl _
  overflowed hs := h.overflowed.trans hs
  inside := h.inside

/-- Building a body is quiet. -/
theorem of_rebuilt (h : s.Rebuilt t) : Quiet env s t := by
  obtain ⟨hg, g, es, rfl⟩ := h
  exact ⟨rfl, hg, id, id⟩

theorem entering (s : State) (r : RuleId) : Quiet env s (s.entering env r) := by
  have h := of_works (State.Works.skipBlanks env { s with skipping := s.grammar.skipsBlanks r })
  exact ⟨h.memo, h.grows, h.overflowed, h.inside⟩

/-- Leaving a rule is quiet; where it fails the cursor goes back into the text. -/
theorem leaving (s : State) (r : RuleId) (o : Outcome Value) (t : State) :
    Quiet env t (s.leaving env r o t) := by
  cases o with
  | matched stop v => exact ⟨rfl, .refl _, id, id⟩
  | failed => exact ⟨rfl, .refl _, id, fun _ => Nat.min_le_right ..⟩

theorem opened (s : State) (key : Key) : Quiet env s (s.opened key) := by
  obtain ⟨d, es, he⟩ := s.opened_eq key
  rw [he]
  exact ⟨rfl, .refl _, id, id⟩

/-- To end work is quiet, and so is to skip the blanks behind it. -/
theorem closing (s : State) (start : Nat) (o : Outcome Value) (key : Key) :
    Quiet env s (Result.state (Matcher.skippingBlanks env o (s.closed start o key))) := by
  obtain ⟨d, es, he⟩ := s.closed_eq start o key
  rw [he]
  have hc : Quiet env s { s with depth := d, events := es } := ⟨rfl, .refl _, id, id⟩
  cases o with
  | matched stop v => exact hc.trans (of_works (.skipBlanks env _))
  | failed => exact hc

end Quiet

/-! ## What is kept along a course -/

/-- A relation `R` between a state and a later one, which holds along a run from a state with `I`
and with room for `n` open rules. -/
structure Kept (env : Env) (n : Nat) (I : State → Prop) (R : State → State → Prop) : Prop where
  trans : ∀ {s t u}, R s t → R t u → R s u
  holds : ∀ {s t}, R s t → I t
  quiet : ∀ {s t}, I s → Quiet env s t → R s t
  settle : ∀ {k key s o t} (outer : Array Failure), k ≤ n → Sane env s → I s → s.failures = #[] →
    s.known? env key = none → produce env k key s = .ok o t → I t →
      R t (t.settle env key s.cursor outer o)

/-- From `s` through the states of `l`, which are sane. -/
def Passes (env : Env) (R : State → State → Prop) (s : State) (l : List State) : Prop :=
  List.IsChain (fun u w => Sane env w ∧ R u w) (s :: l)

namespace Passes

variable {env : Env} {n : Nat} {I : State → Prop} {R : State → State → Prop} {s t u : State}
  {l l' : List State}

theorem single (ht : Sane env t) (h : R s t) : Passes env R s [t] := List.isChain_pair.mpr ⟨ht, h⟩

theorem cons (ht : Sane env t) (h : R s t) (h' : Passes env R t l) : Passes env R s (t :: l) :=
  List.isChain_cons_cons.mpr ⟨⟨ht, h⟩, h'⟩

/-- A course can be cut at any of its states. -/
theorem append (h : Passes env R s (l ++ [t])) (h' : Passes env R t l') :
    Passes env R s (l ++ t :: l') := by
  unfold Passes at h h' ⊢
  rw [← List.cons_append] at h ⊢
  exact List.isChain_split.mpr ⟨h, h'⟩

/-- What is kept holds between any two states of a course, in their order. -/
theorem pairwise (hR : Kept env n I R) (h : Passes env R s l) :
    (s :: l).Pairwise fun u w => Sane env w ∧ R u w := by
  have : IsTrans State fun u w => Sane env w ∧ R u w :=
    ⟨fun _ _ _ h h' => ⟨h'.1, hR.trans h.2 h'.2⟩⟩
  exact List.isChain_iff_pairwise.mp h

theorem reaches (hR : Kept env n I R) (h : Passes env R s l) (ht : t ∈ l) :
    Sane env t ∧ R s t := (List.pairwise_cons.mp (h.pairwise hR)).1 t ht

theorem last (hR : Kept env n I R) (h : Passes env R s (l ++ [t])) : Sane env t ∧ R s t :=
  h.reaches hR (List.mem_append_right _ (List.mem_singleton.mpr rfl))

/-- A course with something in front of it and behind it, if only its ends are known. -/
theorem widen (hR : Kept env n I R) (h : Passes env R t (l ++ [u])) (hst : R s t) {w : State}
    (hw : Sane env w) (huw : R u w) : Passes env R s (l ++ [w]) := by
  induction l generalizing s t with
  | nil =>
    obtain ⟨-, htu⟩ := h.reaches hR (List.mem_singleton.mpr rfl)
    exact .single hw (hR.trans hst (hR.trans htu huw))
  | cons v l ih =>
    obtain ⟨⟨hv, htv⟩, h⟩ := List.isChain_cons_cons.mp h
    exact .cons hv (hR.trans hst htv) (ih h (hR.quiet (hR.holds htv) (.refl env v)))

end Passes

section

variable {env : Env} {n : Nat} {I : State → Prop} {R : State → State → Prop} {s t : State}

/-- What is kept is kept along a dialogue if it is kept up to each of its answers. -/
theorem Linked.passes {α : Type} (hR : Kept env n I R) {f : Key → Matcher}
    {inner : Key → State → List State}
    (hf : ∀ key s, Sane env s → I s → Passes env R s (inner key s ++ [Result.state (f key s)]))
    {d d' : Dialogue α} (h : Linked env env #[] #[] s t d d') (hs : Sane env s) (hI : I s) :
    Passes env R s (d.course f inner) := by
  induction h with
  | done hu hw huw a =>
    exact .single ((Quiet.of_works hu).sane hs) (hR.quiet hI (.of_works hu))
  | halt hu hw huw e =>
    exact .single ((Quiet.of_works hu).sane hs) (hR.quiet hI (.of_works hu))
  | @ask s t u w hu hw huw key next next' hnext ih =>
    have hsane := (Quiet.of_works hu).sane hs
    have hsu := hR.quiet hI (.of_works hu)
    have hpath := hf key u hsane (hR.holds hsu)
    rw [Dialogue.course]
    refine .cons hsane hsu (hpath.append ?_)
    have hend := hpath.last hR
    cases hr : f key u with
    | error e v => exact List.isChain_singleton _
    | ok o v =>
      rw [hr] at hend
      exact ih o v v (.refl v) hend.1 (hR.holds hend.2)

/-- With less room there is less to keep. -/
theorem Kept.mono (hR : Kept env n I R) {k : Nat} (hk : k ≤ n) : Kept env k I R where
  trans := hR.trans
  holds := hR.holds
  quiet := hR.quiet
  settle outer hj := hR.settle outer (Nat.le_trans hj hk)

/-- The work behind a built-in class always has an outcome. -/
theorem exists_produce_builtin (env : Env) (n : Nat) (c : CharClass) (s : State) :
    ∃ o t, produce env n (.builtin c) s = .ok o t ∧ s.Works env t := by
  rw [produce_builtin]
  exact Matcher.exists_scan env c.label { apply := c.holds } s

/-- A built-in class passes through no state but its end, which comes about quietly. -/
theorem passes_scan (hR : Kept env n I R) (c : CharClass) (hs : Sane env s) (hI : I s) :
    Passes env R s [Result.state (Matcher.scan env c.label { apply := c.holds } s)] := by
  obtain ⟨o, t, ht, hw⟩ := Matcher.exists_scan env c.label { apply := c.holds } s
  rw [ht]
  exact .single ((Quiet.of_works hw).sane hs) (hR.quiet hI (.of_works hw))

/-- Work on a rule enters it, builds its body, goes through the dialogue of the body and leaves the
rule. All but the dialogue is quiet. -/
theorem passes_produce_succ (hR : Kept env n I R)
    (hf : ∀ key s, Sane env s → I s →
      Passes env R s (answerCourse env n key s ++ [Result.state (answer env n key s)]))
    (r : RuleId) (hs : Sane env s) (hI : I s) :
    Passes env R s (workCourse env (n + 1) (.rule r) s ++
      [Result.state (produce env (n + 1) (.rule r) s)]) := by
  have he := hs.entering r
  have hse := hR.quiet hI (.entering s r)
  rw [workCourse, produce_succ]
  refine .cons he hse ?_
  rcases Matcher.body?_cases r (s.entering env r) with
    ⟨-, hb⟩ | ⟨x, t, hb, hrt, -⟩ | ⟨f, t, hb, hrt⟩
  · rw [hb]
    have hq := (Quiet.of_works (.record env (s.entering env r) (.undefined r.label))).trans
      (.leaving s r .failed _)
    have hrefl := hR.quiet (hR.holds hse) (.refl env _)
    exact .cons he hrefl (.single (hq.sane he) (hR.quiet (hR.holds hse) hq))
  · have hq : Quiet env (s.entering env r) t := .of_rebuilt hrt
    have ht := hq.sane he
    have het := hR.quiet (hR.holds hse) hq
    have hpath := (x.linked_self env t).passes hR hf ht (hR.holds het)
    obtain ⟨l, hl⟩ := Dialogue.exists_course_eq (answer env n) (answerCourse env n)
      (x.dialogue env t)
    rw [hb]
    dsimp only
    refine .cons ht het ?_
    change Passes env R t ((x.dialogue env t).course (answer env n) (answerCourse env n) ++ _)
    rw [hl] at hpath ⊢
    rw [List.append_assoc]
    refine hpath.append ?_
    have hend := hpath.last hR
    cases hr : (x.dialogue env t).run (answer env n) with
    | error e u =>
      rw [hr] at hend
      exact .single hend.1 (hR.quiet (hR.holds hend.2) (.refl env u))
    | ok o u =>
      rw [hr] at hend
      exact .single (hend.1.leaving s r o) (hR.quiet (hR.holds hend.2) (.leaving s r o u))
  · have hq : Quiet env (s.entering env r) t := .of_rebuilt hrt
    have ht := hq.sane he
    have het := hR.quiet (hR.holds hse) hq
    rw [hb]
    exact .cons ht het (.single ht (hR.quiet (hR.holds het) (.refl env t)))

/-- An answer is quiet around the work behind it, except that the outcome is settled. -/
theorem passes_answer_of_produce (hR : Kept env n I R) {key : Key}
    (hp : ∀ s, Sane env s → I s →
      Passes env R s (workCourse env n key s ++ [Result.state (produce env n key s)]))
    (hs : Sane env s) (hI : I s) :
    Passes env R s (answerCourse env n key s ++ [Result.state (answer env n key s)]) := by
  rw [answerCourse, courseBetween]
  rcases answer_cases env key s with ⟨entry, hk⟩ | ⟨r, rfl, hk, hl⟩ | ⟨hk, hl⟩
  · -- recalled or refused: nothing lies between the two ends
    have hfit := hs.memo _ _ _ (State.known?_eq_some.mp hk)
    have hland := orderly_answer n key s hs
    rw [if_pos (by simp [hk])]
    cases entry with
    | success stop v =>
      obtain ⟨es, he⟩ := answer_known_success (n := n) hk
      rw [he] at hland ⊢
      have hq : Quiet env s { s with cursor := stop, events := es } :=
        ⟨rfl, .refl _, id, fun _ => hfit.2⟩
      exact .single hland.1 (hR.quiet hI (hq.trans (.of_works (.skipBlanks env _))))
    | failure fs =>
      obtain ⟨es, he⟩ := answer_known_failure (n := n) hk
      rw [he] at hland ⊢
      exact .single hland.1 (hR.quiet hI ⟨rfl, .refl _, id, id⟩)
  · have hland := orderly_answer n (.rule r) s hs
    rw [if_pos (by simp [Key.refused, hl])]
    rw [answer_refused hk hl] at hland ⊢
    exact .single hland.1 (hR.quiet hI ⟨rfl, .refl _, fun _ => rfl, id⟩)
  · -- worked out: the course of the work, and then its outcome is settled
    have hq : Quiet env s (s.opened key) := .opened s key
    have hso := hR.quiet hI hq
    have hnone := s.opened_failures key
    have hunknown : (s.opened key).known? env key = none := by
      rw [s.opened_known? env key]
      exact hk
    have hpath := hp _ (hq.sane hs) (hR.holds hso)
    have hland := orderly_produce n key _ (hq.sane hs)
    have hend := hpath.last hR
    rw [if_neg (by simp [hk, hl]), answer_unknown hk hl]
    cases hr : produce env n key (s.opened key) with
    | error e t =>
      rw [hr] at hpath hend
      exact hpath.widen hR hso hend.1 (hR.quiet (hR.holds hend.2) (.refl env t))
    | ok o t =>
      rw [hr] at hpath hend hland
      have hset := hR.settle s.failures (Nat.le_refl n) (hq.sane hs) (hR.holds hso) hnone
        hunknown hr (hR.holds hend.2)
      have hsettled := hend.1.settle hland.2 hnone key s.failures
      rw [s.opened_cursor key] at hset hsettled
      have hclose : Quiet env (t.settle env key s.cursor s.failures o) _ :=
        .closing _ s.cursor o key
      exact hpath.widen hR hso (hclose.sane hsettled)
        (hR.trans hset (hR.quiet (hR.holds hset) hclose))

/-- What is kept is kept along all work, with any room: a body is worked on with less room. -/
theorem passes_produce (hR : Kept env n I R) (key : Key) (hs : Sane env s) (hI : I s) :
    Passes env R s (workCourse env n key s ++ [Result.state (produce env n key s)]) := by
  induction n generalizing key s with
  | zero =>
    cases key with
    | builtin c => exact passes_scan hR c hs hI
    | rule r => exact .single hs (hR.quiet hI (.refl env s))
  | succ n ih =>
    cases key with
    | builtin c => exact passes_scan hR c hs hI
    | rule r =>
      have hR' := hR.mono (Nat.le_succ n)
      refine passes_produce_succ hR' (fun key s hs hI => ?_) r hs hI
      exact passes_answer_of_produce hR' (fun s hs hI => ih hR' key hs hI) hs hI

theorem passes_answer (hR : Kept env n I R) (key : Key) (hs : Sane env s) (hI : I s) :
    Passes env R s (answerCourse env n key s ++ [Result.state (answer env n key s)]) :=
  passes_answer_of_produce hR (fun _ hs hI => passes_produce hR key hs hI) hs hI

/-- What is kept is kept along the dialogue of every expression. -/
theorem Expr.passes (hR : Kept env n I R) (x : Expr) (hs : Sane env s) (hI : I s) :
    Passes env R s ((x.dialogue env s).course (answer env n) (answerCourse env n)) :=
  (x.linked_self env s).passes hR (fun key _ hs hI => passes_answer hR key hs hI) hs hI

/-- What is kept holds from the start of a dialogue to its end. -/
theorem Linked.reaches_end {α : Type} (hR : Kept env n I R) {d d' : Dialogue α}
    (h : Linked env env #[] #[] s t d d') (hs : Sane env s) (hI : I s) :
    Sane env (d.run (answer env n)).state ∧ R s (d.run (answer env n)).state := by
  have hpath := h.passes hR (fun key _ hs hI => passes_answer hR key hs hI) hs hI
  obtain ⟨l, hl⟩ := d.exists_course_eq (answer env n) (answerCourse env n)
  rw [hl] at hpath
  exact hpath.last hR

theorem answer_reaches_end (hR : Kept env n I R) (key : Key) (hs : Sane env s) (hI : I s) :
    Sane env (Result.state (answer env n key s)) ∧ R s (Result.state (answer env n key s)) :=
  (passes_answer hR key hs hI).last hR

theorem produce_reaches_end (hR : Kept env n I R) (key : Key) (hs : Sane env s) (hI : I s) :
    Sane env (Result.state (produce env n key s)) ∧ R s (Result.state (produce env n key s)) :=
  (passes_produce hR key hs hI).last hR

/-! ## Onward -/

/-- What holds between a state and any later one of a run: the grammar has grown, and once the limit
was hit nothing is remembered any more. -/
structure Onward (s t : State) : Prop where
  grows : s.grammar.Grows t.grammar
  frozen : s.overflowed = true → t.overflowed = true ∧ t.memo = s.memo

/-- Evaluations only go onward. -/
theorem kept_onward (env : Env) (n : Nat) : Kept env n (fun _ => True) Onward where
  trans h h' :=
    { grows := h.grows.trans h'.grows
      frozen := fun hs => by
        obtain ⟨ht, hm⟩ := h.frozen hs
        obtain ⟨hu, hm'⟩ := h'.frozen ht
        exact ⟨hu, hm'.trans hm⟩ }
  holds _ := trivial
  quiet _ h := ⟨h.grows, fun hs => ⟨h.overflowed hs, h.memo⟩⟩
  settle outer _ _ _ _ _ _ _ := by
    rw [State.settle_eq]
    refine ⟨.refl _, fun ht => ⟨ht, ?_⟩⟩
    dsimp only
    rw [ht, Bool.not_true, Bool.and_false, if_neg Bool.false_ne_true]

/-! ## Sessions -/

/-- To evaluate is to run the dialogue with the room that is enough. -/
theorem Expr.evaluate_eq_run (env : Env) (x : Expr) (s : State) :
    x.evaluate env s = (x.dialogue env s).run (answer env (headroom env s.grammar)) := by
  rw [answer, ← x.matcher_eq_run]
  rfl

theorem Expr.orderly_evaluate (x : Expr) (hs : Sane env s) :
    Orderly env False (Lands env s) (x.evaluate env s) := by
  rw [Expr.evaluate_eq_run]
  exact x.orderly_run (orderly_answer _) hs

theorem Command.run_evaluate (env : Env) (x : Expr) (s : State) :
    Command.run env (.evaluate x) s = match x.evaluate env s with
      | .ok o t => .ok (.outcome o) t
      | .error h t => .error h t := by
  rw [Command.run, ParseM.run_bind]
  cases x.evaluate env s <;> rfl

/-- A definition changes the grammar, or is refused and changes nothing. -/
theorem Command.run_define (env : Env) (r : RuleId) (x : Expr) (s : State) :
    Command.run env (.define r x) s = match s.grammar.define r x with
      | .ok g => .ok .done { s with grammar := g }
      | .error d => .ok (.refused d) s := by
  rw [Command.run, ParseM.run_bind, ParseM.run_get]
  dsimp only
  cases s.grammar.define r x <;> rfl

/-- A step other than an evaluation or a definition is quiet. -/
theorem Command.cases (env : Env) (c : Command RuleId Expr) (s : State) :
    (∃ x, c = .evaluate x) ∨ (∃ r x, c = .define r x) ∨
      (c.course env s = [] ∧ Quiet env s (Result.state (c.run env s))) := by
  cases c with
  | evaluate x => exact Or.inl ⟨x, rfl⟩
  | define r x => exact Or.inr (Or.inl ⟨r, x, rfl⟩)
  | advance n => exact Or.inr (Or.inr ⟨rfl, .of_works (.moveTo env s _)⟩)
  | moveTo position => exact Or.inr (Or.inr ⟨rfl, .of_works (.moveTo env s position)⟩)
  | record message => exact Or.inr (Or.inr ⟨rfl, .of_works (.record env s _)⟩)
  | clearFailures => exact Or.inr (Or.inr ⟨rfl, .of_works (.cutBack env s 0)⟩)
  | cutBack height => exact Or.inr (Or.inr ⟨rfl, .of_works (.cutBack env s height)⟩)
  | setSkipping on => exact Or.inr (Or.inr ⟨rfl, rfl, .refl _, id, id⟩)
  | skipBlanks => exact Or.inr (Or.inr ⟨rfl, .of_works (.skipBlanks env s)⟩)
  | query => exact Or.inr (Or.inr ⟨rfl, .refl env s⟩)

/-- What is kept is kept along a step of a session; what a definition does is up to `R`. -/
theorem Command.passes (hR : Kept env (headroom env s.grammar) I R) (c : Command RuleId Expr)
    (hd : ∀ r x g, c = .define r x → s.grammar.define r x = .ok g → R s { s with grammar := g })
    (hs : Sane env s) (hI : I s) :
    Passes env R s (c.course env s ++ [Result.state (c.run env s)]) := by
  rcases Command.cases env c s with ⟨x, rfl⟩ | ⟨r, x, rfl⟩ | ⟨hc, hq⟩
  · have hpath := x.passes hR hs hI
    obtain ⟨l, hl⟩ := Dialogue.exists_course_eq (answer env (headroom env s.grammar))
      (answerCourse env (headroom env s.grammar)) (x.dialogue env s)
    have hstate : Result.state (Command.run env (.evaluate x) s) =
        ((x.dialogue env s).run (answer env (headroom env s.grammar))).state := by
      rw [Command.run_evaluate, Expr.evaluate_eq_run]
      cases (x.dialogue env s).run (answer env (headroom env s.grammar)) <;> rfl
    rw [Command.course, hstate]
    rw [hl] at hpath ⊢
    obtain ⟨hend, hRend⟩ := hpath.last hR
    rw [List.append_assoc]
    exact hpath.append (.single hend (hR.quiet (hR.holds hRend) (.refl env _)))
  · rw [Command.run_define]
    cases hg : s.grammar.define r x with
    | ok g => exact .single (hs.of_memo rfl hs.cursor) (hd r x g rfl hg)
    | error e => exact .single hs (hR.quiet hI (.refl env s))
  · rw [hc]
    exact .single (hq.sane hs) (hR.quiet hI hq)

theorem Session.step_eq (s : Session) (c : Command RuleId Expr) :
    (s.step c).2 = { s with state := Result.state (c.run s.env s.state) } := by
  rw [Session.step]
  cases c.run s.env s.state <;> rfl

/-- What is kept is kept along a session. -/
theorem Session.passes_moments (hR : ∀ n, Kept env n I R) (cs : List (Command RuleId Expr))
    (hd : ∀ s r x g, .define r x ∈ cs → s.grammar.define r x = .ok g → I s →
      R s { s with grammar := g }) :
    ∀ s, Sane env s → I s → ∃ l, Session.moments ⟨env, s⟩ cs = s :: l ∧ Passes env R s l := by
  induction cs with
  | nil => intro s _ _; exact ⟨[], rfl, List.isChain_singleton _⟩
  | cons c cs ih =>
    intro s hs hI
    have hstep := c.passes (hR _)
      (fun r x g hc hg => hd s r x g (hc ▸ List.mem_cons_self) hg hI) hs hI
    obtain ⟨hend, hRend⟩ := hstep.last (hR 0)
    obtain ⟨l, hl, hpath⟩ := ih (fun s r x g hc => hd s r x g (List.mem_cons_of_mem _ hc)) _ hend
      ((hR 0).holds hRend)
    refine ⟨c.course env s ++ Result.state (c.run env s) :: l, ?_, hstep.append hpath⟩
    rw [Session.moments, Session.step_eq]
    dsimp only
    rw [hl]
    rfl

/-- What is kept along a session holds at every moment of it. -/
theorem Session.holds_of_mem_moments (hR : ∀ n, Kept env n I R) {cs : List (Command RuleId Expr)}
    (hd : ∀ s r x g, .define r x ∈ cs → s.grammar.define r x = .ok g → I s →
      R s { s with grammar := g })
    (hs : Sane env s) (hI : I s) (ht : t ∈ Session.moments ⟨env, s⟩ cs) : I t := by
  obtain ⟨l, hl, hpath⟩ := Session.passes_moments hR cs hd s hs hI
  rw [hl] at ht
  rcases List.mem_cons.mp ht with rfl | ht
  · exact hI
  · exact (hR 0).holds (hpath.reaches (hR 0) ht).2

end

/-- The session after some steps. -/
def Session.after (s : Session) (cs : List (Command RuleId Expr)) : Session :=
  cs.foldl (fun s c => (s.step c).2) s

theorem Session.exists_moments_eq_cons (s : Session) (cs : List (Command RuleId Expr)) :
    ∃ l, s.moments cs = s.state :: l := by
  cases cs with
  | nil => exact ⟨[], rfl⟩
  | cons c cs => exact ⟨_, rfl⟩

/-- Behind some steps, the moments of a session are those of the session after these steps. -/
theorem Session.exists_moments_append (s : Session) (cs cs' : List (Command RuleId Expr)) :
    ∃ l, s.moments (cs ++ cs') = l ++ (s.after cs).moments cs' := by
  induction cs generalizing s with
  | nil => exact ⟨[], rfl⟩
  | cons c cs ih =>
    obtain ⟨l, hl⟩ := ih (s.step c).2
    refine ⟨s.state :: c.course s.env s.state ++ l, ?_⟩
    rw [List.cons_append, Session.moments, hl, List.append_assoc]
    rfl

/-- The state after the steps of a session is one of its moments. -/
theorem Session.after_mem_moments (s : Session) (cs : List (Command RuleId Expr)) :
    (s.after cs).state ∈ s.moments cs := by
  obtain ⟨l, hl⟩ := s.exists_moments_append cs []
  rw [List.append_nil, Session.moments] at hl
  rw [hl]
  exact List.mem_append_right _ List.mem_cons_self

/-- A moment behind some steps is not before the end of these steps. -/
theorem Session.exists_le_of_mem_moments (s : Session) (cs cs' : List (Command RuleId Expr))
    {t : State} (ht : t ∈ (s.after cs).moments cs') :
    ∃ i j : Nat, i ≤ j ∧ (s.moments (cs ++ cs'))[i]? = some (s.after cs).state ∧
      (s.moments (cs ++ cs'))[j]? = some t := by
  obtain ⟨l, hl⟩ := s.exists_moments_append cs cs'
  obtain ⟨l', hl'⟩ := (s.after cs).exists_moments_eq_cons cs'
  obtain ⟨j, hj⟩ := List.getElem?_of_mem ht
  refine ⟨l.length, l.length + j, Nat.le_add_right _ _, ?_, ?_⟩
  · rw [hl, hl', List.getElem?_append_right (Nat.le_refl _), Nat.sub_self]
    rfl
  · rw [hl, List.getElem?_append_right (Nat.le_add_right _ _), Nat.add_sub_cancel_left, hj]

/-- A session that evaluates a rule which is neither remembered nor refused passes through the state
in which the body is entered. -/
theorem Session.entering_mem_moments (s : Session) {r : RuleId} (cs : List (Command RuleId Expr))
    (hk : s.state.known? s.env (.rule r) = none) (hl : s.state.atLimit s.env = false)
    (hroom : headroom s.env s.state.grammar ≠ 0) :
    (s.state.opened (.rule r)).entering s.env r ∈ s.moments (.evaluate (.rule r) :: cs) := by
  obtain ⟨n, hn⟩ := Nat.exists_eq_succ_of_ne_zero hroom
  rw [Session.moments, Command.course, Expr.dialogue, Dialogue.course, answerCourse, courseBetween,
    if_neg (by simp [hk, Key.refused, hl]), hn, workCourse]
  simp

/-! ## The cursor in a session -/

theorem kept_sane (env : Env) (n : Nat) : Kept env n (fun _ => True) fun _ _ => True where
  trans _ _ := trivial
  holds _ := trivial
  quiet _ _ := trivial
  settle _ _ _ _ _ _ _ _ := trivial

/-- At the start nothing is remembered. -/
theorem not_recalls_start (env : Env) (g : Grammar) (p : Nat) (key : Key) (entry : Entry) :
    ¬ (State.start env g).Recalls env p key entry := by
  rintro ⟨-, hf⟩
  rw [State.start, Memo.find?_empty] at hf
  cases hf

theorem sane_start (env : Env) (g : Grammar) : Sane env (.start env g) :=
  ⟨Nat.zero_le _, fun p key entry hr => absurd hr (not_recalls_start env g p key entry)⟩

/-- In a session a state is sane at every moment. -/
theorem Session.sane_of_mem_moments {text : String} {config : Config} {g : Grammar}
    {cs : List (Command RuleId Expr)} {s : State}
    (hs : s ∈ (Session.start text config g).moments cs) : Sane (.ofText text config) s := by
  have hstart := sane_start (.ofText text config) g
  obtain ⟨l, hl, hpath⟩ := Session.passes_moments (kept_sane (.ofText text config)) cs
    (fun _ _ _ _ _ _ _ => trivial) _ hstart trivial
  rw [Session.start, hl] at hs
  rcases List.mem_cons.mp hs with rfl | hs
  · exact hstart
  · exact (hpath.reaches (kept_sane _ 0) hs).1

/-- What only looks ahead ends where it began. -/
theorem lookahead_stop {env : Env} {label : String} {negated : Bool} {y : Expr} {s t : State}
    {stop : Nat} {v : Value}
    (h : (Expr.lookaheadAs label negated y).evaluate env s = .ok (.matched stop v) t) :
    stop = s.cursor := by
  rw [show (Expr.lookaheadAs label negated y).evaluate env s = Matcher.lookahead env label negated
    (y.matcher env (callRule env (headroom env s.grammar))) s from rfl, Matcher.run_lookahead] at h
  cases hr : y.matcher env (callRule env (headroom env s.grammar)) s with
  | error e u => rw [hr] at h; cases h
  | ok o u =>
    rw [hr] at h
    dsimp only at h
    split at h <;> cases h
    rfl

/-- From every state that a session passes through, an evaluation that fails leaves the cursor where
it is, and one that matches moves it to the end of the match, forwards and inside the text. What
only looks ahead ends where it began. -/
theorem Session.cursor_of_evaluate (text : String) (config : Config) (g : Grammar)
    (cs : List (Command RuleId Expr)) (s : State)
    (hs : s ∈ (Session.start text config g).moments cs) (x : Expr) :
    (∀ t, x.evaluate (.ofText text config) s = .ok .failed t → t.cursor = s.cursor) ∧
    (∀ stop v t, x.evaluate (.ofText text config) s = .ok (.matched stop v) t →
      t.cursor = stop ∧ s.cursor ≤ stop ∧ stop ≤ text.length ∧
        ∀ label negated y, x = .lookaheadAs label negated y → stop = s.cursor) := by
  have h := x.orderly_evaluate (sane_of_mem_moments hs)
  refine ⟨fun t ht => ?_, fun stop v t ht => ?_⟩
  · rw [ht] at h
    exact h.2.1
  · rw [ht] at h
    obtain ⟨-, hc, h1, h2, -⟩ := h
    rw [Env.length_ofText] at h2
    refine ⟨hc, h1, h2, ?_⟩
    rintro label negated y rfl
    exact lookahead_stop ht

/-- A rule for a digit and one that begins with itself. -/
def Grammar.digits : Grammar where
  rules := #[⟨"digit", true, .defined (.builtin .digit)⟩,
    ⟨"loop", false, .defined (.choice [.rule ⟨1, "loop"⟩, .rule ⟨0, "digit"⟩])⟩]

/-- After the limit was hit, the end of a remembered match is still where the cursor goes. -/
theorem Session.cursor_of_evaluate_recalled :
    let cs := [.evaluate (.rule ⟨0, "digit"⟩), .moveTo 0, .evaluate (.rule ⟨1, "loop"⟩), .moveTo 0]
    let s := ((Session.start "7" { limit := some 2 } .digits).after cs).state
    s.overflowed = true ∧
      ∃ v t, (Expr.rule ⟨0, "digit"⟩).evaluate (.ofText "7" { limit := some 2 }) s =
        .ok (.matched 1 v) t ∧ t.cursor = 1 := by
  intro cs s
  obtain ⟨v, t, ht⟩ : ∃ v t, (Expr.rule ⟨0, "digit"⟩).evaluate
      (.ofText "7" { limit := some 2 }) s = .ok (.matched 1 v) t := ⟨_, _, rfl⟩
  have h := (Session.cursor_of_evaluate "7" { limit := some 2 } .digits cs s
    (Session.after_mem_moments _ cs) (.rule ⟨0, "digit"⟩)).2 1 v t ht
  exact ⟨by decide +kernel, v, t, ht, h.1⟩

end Packrat
