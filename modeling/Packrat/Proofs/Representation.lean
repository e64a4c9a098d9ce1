import Packrat.Proofs.Permanence

/-!
# What holds of every state

`State.Valid` collects what a state looks like at every moment of a session, whatever steps led to
it. Cursor and memo are kept along the course of a run (`Kept`). The failures need an induction of
their own, since the work behind a key begins with none and is given back those of its caller, which
it never saw: `produce_stacked` goes along the states of the work, and `answer_stacked` puts the
failures of the caller and those of the work together.
-/

namespace Packrat

/-- The failures of a state lie inside the text. -/
def Stacked (env : Env) (s : State) : Prop := ∀ f ∈ s.failures, f.position ≤ env.length

/-- No table of the memo has two entries for a key. -/
def Memo.Distinct (m : Memo) : Prop := ∀ table ∈ m.tables, (table.map Prod.fst).Nodup

/-- What holds of a state of a session. -/
structure State.Valid (env : Env) (s : State) : Prop where
  /-- The cursor is inside the text. -/
  cursor : s.cursor ≤ env.length
  /-- There is a table for every position. -/
  tables : s.memo.tables.size = env.length + 1
  /-- A table has one entry for a key. -/
  distinct : s.memo.Distinct
  /-- A remembered match ends behind its start and inside the text. -/
  success : ∀ p key stop v, s.memo.find? p key = some (.success stop v) →
    p ≤ stop ∧ stop ≤ env.length
  /-- The failures of a remembered attempt lie between its position and the end of the text, and the
  last of them lies at the position. -/
  failure : ∀ p key fs, s.memo.find? p key = some (.failure fs) →
    (∀ f ∈ fs, p ≤ f.position ∧ f.position ≤ env.length) ∧ ∃ f, fs.back? = some f ∧ f.position = p
  /-- The failures lie inside the text. -/
  stack : ∀ f ∈ s.failures, f.position ≤ env.length

section

variable {env : Env} {n : Nat} {key : Key} {s t u : State}

/-! ## Tables -/

theorem Memo.distinct_empty (length : Nat) : (Memo.empty length).Distinct := by
  intro table htable
  have hnil : table = [] := (Array.mem_replicate.mp htable).2
  rw [hnil]
  exact List.nodup_nil

/-- Inserting replaces the entry of its key, if there is one. -/
theorem Memo.Distinct.insert {m : Memo} (h : m.Distinct) (p : Nat) (key : Key) (entry : Entry) :
    (m.insert p key entry).Distinct := by
  intro table htable
  obtain ⟨i, hi, rfl⟩ := Array.mem_iff_getElem.mp htable
  have hi' : i < m.tables.size := by simpa [Memo.insert] using hi
  have hold := h _ (Array.getElem_mem hi')
  simp only [Memo.insert, Array.getElem_modify]
  split
  · rw [List.map_cons, List.nodup_cons]
    refine ⟨?_, hold.sublist (List.filter_sublist.map _)⟩
    intro hmem
    obtain ⟨e, he, hkey⟩ := List.mem_map.mp hmem
    have hne := (List.mem_filter.mp he).2
    simp [hkey] at hne
  · exact hold

/-- Evaluations keep the keys of each table distinct. -/
theorem kept_distinct (env : Env) (n : Nat) :
    Kept env n (fun s => s.memo.Distinct) fun _ t => t.memo.Distinct where
  trans _ h := h
  holds h := h
  quiet hs h := by rw [h.memo]; exact hs
  settle := by
    intro k key s o t outer _ _ _ _ _ _ ht
    rw [State.settle_eq]
    dsimp only
    split
    · exact ht.insert s.cursor key _
    · exact ht

theorem Session.distinct_of_mem_moments {text : String} {config : Config} {g : Grammar}
    {cs : List (Command RuleId Expr)} (hs : s ∈ (Session.start text config g).moments cs) :
    s.memo.Distinct :=
  Session.holds_of_mem_moments (kept_distinct _) (fun _ _ _ _ _ _ h => h) (sane_start _ g)
    (Memo.distinct_empty _) hs

/-! ## Failures -/

theorem Stacked.of_failures (h : t.failures = s.failures) (hs : Stacked env s) :
    Stacked env t := by
  unfold Stacked
  rw [h]
  exact hs

/-- Work inside the text adds failures inside the text. -/
theorem Stacked.of_works (h : s.Works env t) (hc : s.cursor ≤ env.length) (hs : Stacked env s) :
    Stacked env t := h.stack hc hs

theorem Stacked.append {fs : Array Failure} (hs : Stacked env s)
    (hfs : ∀ f ∈ fs, f.position ≤ env.length) (h : t.failures = s.failures ++ fs) :
    Stacked env t := by
  intro f hf
  rw [h] at hf
  rcases Array.mem_append.mp hf with hf | hf
  · exact hs f hf
  · exact hfs f hf

theorem Stacked.opened (s : State) (key : Key) : Stacked env (s.opened key) := by
  unfold Stacked
  rw [s.opened_failures key]
  simp

theorem Stacked.entering (hs : Stacked env s) (r : RuleId) : Stacked env (s.entering env r) :=
  hs.of_failures (State.skipBlanks_failures ..)

theorem Stacked.rebuilt (h : s.Rebuilt t) (hs : Stacked env s) : Stacked env t := by
  obtain ⟨-, g, es, rfl⟩ := h
  exact hs

theorem Stacked.leaving (s : State) (r : RuleId) (o : Outcome Value) (ht : Stacked env t) :
    Stacked env (s.leaving env r o t) := by
  cases o with
  | matched stop v => exact ht
  | failed =>
    intro f hf
    rcases Array.mem_push.mp hf with hf | rfl
    · exact ht f hf
    · exact Nat.min_le_right ..

theorem Stacked.skippingBlanks (o : Outcome Value) (hs : Stacked env s) :
    Stacked env (Result.state (Matcher.skippingBlanks env o s)) := by
  cases o with
  | failed => exact hs
  | matched stop v => exact hs.of_failures (s.skipBlanks_failures env)

/-- What is put together after the work behind a key: the failures of the caller, and those of the
work if it failed. -/
theorem Stacked.closing (hs : Stacked env s) (ht : Stacked env t) (p : Nat) (o : Outcome Value) :
    Stacked env (Result.state (Matcher.skippingBlanks env o
      ((t.settle env key p s.failures o).closed p o key))) := by
  refine Stacked.skippingBlanks o ?_
  obtain ⟨d, es, he⟩ := (t.settle env key p s.failures o).closed_eq p o key
  rw [he, State.settle_eq]
  cases o with
  | matched stop v => exact hs
  | failed => exact hs.append ht rfl

/-! ## Along the course of a run -/

/-- A dialogue keeps its failures inside the text if the answers to its questions do. -/
theorem Linked.stacked {α : Type} {inner : Key → State → List State}
    (hf : ∀ key s, Sane env s → Stacked env s →
      Stacked env (Result.state (answer env n key s)) ∧ ∀ t ∈ inner key s, Stacked env t)
    {d d' : Dialogue α} (h : Linked env env #[] #[] s t d d') (hs : Sane env s)
    (hst : Stacked env s) :
    Stacked env (d.run (answer env n)).state ∧
      ∀ u ∈ d.course (answer env n) inner, Stacked env u := by
  induction h with
  | done hu hw huw a =>
    have hend := hst.of_works hu hs.cursor
    exact ⟨hend, fun v hv => List.mem_singleton.mp hv ▸ hend⟩
  | halt hu hw huw e =>
    have hend := hst.of_works hu hs.cursor
    exact ⟨hend, fun v hv => List.mem_singleton.mp hv ▸ hend⟩
  | @ask s t u w hu hw huw key next next' hnext ih =>
    -- the course holds the question, the work behind it, its answer, and what follows
    have hsu := (Quiet.of_works hu).sane hs
    have hstu := hst.of_works hu hs.cursor
    obtain ⟨hans, hinner⟩ := hf key u hsu hstu
    obtain ⟨hsane, -⟩ := answer_reaches_end (kept_sane env n) key hsu trivial
    rw [Dialogue.run_ask, Dialogue.course]
    cases hr : answer env n key u with
    | error e v =>
      rw [hr] at hans
      refine ⟨hans, fun x hx => ?_⟩
      simp only [List.cons_append, List.mem_cons, List.mem_append, List.not_mem_nil,
        or_false] at hx
      rcases hx with rfl | hx | rfl
      · exact hstu
      · exact hinner x hx
      · exact hans
    | ok o v =>
      rw [hr] at hans hsane
      obtain ⟨hend, hrest⟩ := ih o v v (.refl v) hsane hans
      refine ⟨hend, fun x hx => ?_⟩
      simp only [List.cons_append, List.mem_cons, List.mem_append] at hx
      rcases hx with rfl | hx | rfl | hx
      · exact hstu
      · exact hinner x hx
      · exact hans
      · exact hrest x hx

/-- An answer does if its work does, which begins with no failures. -/
theorem answer_stacked_of_produce
    (hp : ∀ s, Sane env s → Stacked env s →
      Stacked env (Result.state (produce env n key s)) ∧
        ∀ t ∈ workCourse env n key s, Stacked env t)
    (hs : Sane env s) (hst : Stacked env s) :
    Stacked env (Result.state (answer env n key s)) ∧
      ∀ t ∈ answerCourse env n key s, Stacked env t := by
  rw [answerCourse, courseBetween]
  rcases answer_cases env key s with ⟨entry, hk⟩ | ⟨r, rfl, hk, hl⟩ | ⟨hk, hl⟩
  · have hfit := hs.memo _ _ _ (State.known?_eq_some.mp hk)
    rw [if_pos (by simp [hk])]
    refine ⟨?_, by simp⟩
    cases entry with
    | success stop v =>
      obtain ⟨es, he⟩ := answer_known_success (n := n) hk
      rw [he]
      exact Stacked.skippingBlanks _ hst
    | failure fs =>
      obtain ⟨es, he⟩ := answer_known_failure (n := n) hk
      rw [he]
      exact hst.append (fun f hf => (hfit.1 f hf).2) rfl
  · rw [if_pos (by simp [Key.refused, hl]), answer_refused hk hl]
    have hw : State.Works env ({ s with overflowed := true }.emit (.limitReached r s.cursor)) _ :=
      .record env _ (.tooDeep r.label)
    exact ⟨Stacked.of_works hw hs.cursor hst, by simp⟩
  · have hopen : Quiet env s (s.opened key) := .opened s key
    obtain ⟨hend, hcourse⟩ := hp (s.opened key) (hopen.sane hs) (.opened s key)
    rw [if_neg (by simp [hk, hl]), answer_unknown hk hl]
    refine ⟨?_, hcourse⟩
    cases hr : produce env n key (s.opened key) with
    | error e t => rw [hr] at hend; exact hend
    | ok o t => rw [hr] at hend; exact hst.closing hend s.cursor o

/-- The failures stay inside the text while the work behind a key goes on. -/
theorem produce_stacked (n : Nat) (key : Key) (hs : Sane env s) (hst : Stacked env s) :
    Stacked env (Result.state (produce env n key s)) ∧
      ∀ t ∈ workCourse env n key s, Stacked env t := by
  induction n generalizing key s with
  | zero =>
    cases key with
    | builtin c =>
      obtain ⟨o, t, ht, hw⟩ := exists_produce_builtin env 0 c s
      rw [ht]
      exact ⟨hst.of_works hw hs.cursor, by simp [workCourse]⟩
    | rule r => exact ⟨hst, by simp [workCourse]⟩
  | succ n ih =>
    cases key with
    | builtin c =>
      obtain ⟨hend, -⟩ := ih (.builtin c) hs hst
      rw [produce_builtin] at hend
      rw [produce_builtin]
      exact ⟨hend, by simp [workCourse]⟩
    | rule r =>
      have he := hs.entering r
      have hste := hst.entering r
      rw [workCourse, produce_succ]
      rcases Matcher.body?_cases r (s.entering env r) with
        ⟨-, hb⟩ | ⟨x, t, hb, hrt, -⟩ | ⟨f, t, hb, hrt⟩
      · rw [hb]
        have hrec := hste.of_works (.record env _ (.undefined r.label)) he.cursor
        exact ⟨hrec.leaving s r .failed, by simpa using hste⟩
      · -- the body begins with the failures of its entry, which the questions put aside
        have hq : Quiet env (s.entering env r) t := .of_rebuilt hrt
        have hstt := hste.rebuilt hrt
        have hanswers : ∀ key s, Sane env s → Stacked env s →
            Stacked env (Result.state (answer env n key s)) ∧
              ∀ t ∈ courseBetween env (workCourse env n) key s, Stacked env t :=
          fun key s hs hst => answer_stacked_of_produce (fun s hs hst => ih key hs hst) hs hst
        obtain ⟨hend, hcourse⟩ := (x.linked_self env t).stacked hanswers (hq.sane he) hstt
        rw [hb]
        dsimp only
        refine ⟨?_, ?_⟩
        · cases hr : (x.dialogue env t).run (answer env n) with
          | error e u => rw [hr] at hend; exact hend
          | ok o u => rw [hr] at hend; exact hend.leaving s r o
        · intro u hu
          rcases List.mem_cons.mp hu with rfl | hu
          · exact hste
          rcases List.mem_cons.mp hu with rfl | hu
          · exact hstt
          · exact hcourse u hu
      · rw [hb]
        have hstt := hste.rebuilt hrt
        refine ⟨hstt, fun u hu => ?_⟩
        simp only [List.mem_cons, List.not_mem_nil, or_false] at hu
        rcases hu with rfl | rfl
        · exact hste
        · exact hstt

/-- Every answer keeps the failures inside the text, also at each state on its way. -/
theorem answer_stacked (n : Nat) (key : Key) (hs : Sane env s) (hst : Stacked env s) :
    Stacked env (Result.state (answer env n key s)) ∧
      ∀ t ∈ answerCourse env n key s, Stacked env t :=
  answer_stacked_of_produce (fun _ hs hst => produce_stacked n key hs hst) hs hst

/-! ## Sessions -/

/-- A step of a session keeps the failures inside the text. -/
theorem Command.stacked (c : Command RuleId Expr) (hs : Sane env s) (hst : Stacked env s) :
    Stacked env (Result.state (c.run env s)) ∧ ∀ t ∈ c.course env s, Stacked env t := by
  have hworks : ∀ {t}, s.Works env t → Stacked env t := fun h => hst.of_works h hs.cursor
  cases c with
  | evaluate x =>
    have h := (x.linked_self env s).stacked
      (fun key _ => answer_stacked (headroom env s.grammar) key) hs hst
    rw [← Expr.evaluate_eq_run] at h
    refine ⟨?_, h.2⟩
    rw [Command.run_evaluate]
    cases hr : x.evaluate env s with
    | ok o t => rw [hr] at h; exact h.1
    | error e t => rw [hr] at h; exact h.1
  | define r x =>
    refine ⟨?_, by simp [Command.course]⟩
    rw [Command.run_define]
    cases s.grammar.define r x <;> exact hst
  | advance k => exact ⟨hworks (.moveTo env s _), by simp [Command.course]⟩
  | moveTo p => exact ⟨hworks (.moveTo env s p), by simp [Command.course]⟩
  | record message => exact ⟨hworks (.record env s _), by simp [Command.course]⟩
  | clearFailures => exact ⟨hworks (.cutBack env s 0), by simp [Command.course]⟩
  | cutBack height => exact ⟨hworks (.cutBack env s height), by simp [Command.course]⟩
  | setSkipping on => exact ⟨hst, by simp [Command.course]⟩
  | skipBlanks => exact ⟨hworks (.skipBlanks env s), by simp [Command.course]⟩
  | query => exact ⟨hst, by simp [Command.course]⟩

/-- At every moment of a session the failures lie inside the text. -/
theorem Session.stacked_moments (cs : List (Command RuleId Expr)) (hs : Sane env s)
    (hst : Stacked env s) : ∀ t ∈ Session.moments ⟨env, s⟩ cs, Stacked env t := by
  induction cs generalizing s with
  | nil =>
    intro t ht
    rw [List.mem_singleton.mp ht]
    exact hst
  | cons c cs ih =>
    obtain ⟨hend, hcourse⟩ := c.stacked hs hst
    have hpath := c.passes (kept_sane env _) (fun _ _ _ _ _ => trivial) hs trivial
    obtain ⟨hsane, -⟩ := hpath.last (kept_sane env 0)
    intro t ht
    rw [Session.moments, Session.step_eq, List.cons_append] at ht
    rcases List.mem_cons.mp ht with rfl | ht
    · exact hst
    rcases List.mem_append.mp ht with ht | ht
    · exact hcourse t ht
    · exact ih hsane hend t ht

end

/-- At every moment of a session, whatever its steps were, the state is valid. An outcome that is
worked out from there is remembered at a position that has a table, and an evaluation from there,
with whatever room for open rules, adds failures between the cursor and the end of the text only. -/
theorem Session.valid_of_mem_moments (text : String) (blanks : List Char) (limit : Option Nat)
    (g : Grammar) (cs : List (Command RuleId Expr)) (s : State)
    (hs : s ∈ (Session.start text { blanks, limit } g).moments cs) :
    let env := Env.ofText text { blanks, limit }
    s.Valid env ∧
    (∀ n key o t, produce env n key (s.opened key) = .ok o t → s.cursor < t.memo.tables.size) ∧
    ∀ n (x : Expr) o t, x.matcher env (callRule env n) s = .ok o t →
      ∃ fs, t.failures = s.failures ++ fs ∧
        ∀ f ∈ fs, s.cursor ≤ f.position ∧ f.position ≤ env.length := by
  intro env
  have hsane : Sane env s := Session.sane_of_mem_moments hs
  have hsized : Sized env s := Session.sized_of_mem_moments hs
  have hdistinct : s.memo.Distinct := Session.distinct_of_mem_moments hs
  have hstacked : Stacked env s :=
    Session.stacked_moments cs (sane_start env g) (by simp [Stacked, State.start]) s hs
  refine ⟨⟨hsane.cursor, hsized, hdistinct, ?_, ?_, hstacked⟩, ?_, ?_⟩
  · intro p key stop v hfind
    exact hsane.memo p key _ ⟨rfl, hfind⟩
  · intro p key fs hfind
    obtain ⟨hwithin, parts, cause, rfl⟩ := hsane.memo p key _ ⟨rfl, hfind⟩
    exact ⟨hwithin, ⟨p, cause⟩, Array.back?_push, rfl⟩
  · intro n key o t hr
    have hopen : Quiet env s (s.opened key) := .opened s key
    obtain ⟨-, hend⟩ := produce_reaches_end (kept_sized env n) key (hopen.sane hsane)
      ((kept_sized env n).quiet hsized hopen)
    rw [hr] at hend
    rw [show t.memo.tables.size = env.length + 1 from hend]
    exact Nat.lt_succ_of_le hsane.cursor
  · intro n x o t hr
    have hland := x.orderly_run (orderly_answer n) hsane
    rw [answer, ← Expr.matcher_eq_run, hr] at hland
    exact (hland.2.advances hsane.cursor).failures

/-- Moves as far as a machine word can count stop at the end of the text; what is remembered and
what fails there is inside of it. -/
theorem Session.valid_of_mem_moments_far :
    let cs := [.evaluate (.rule ⟨0, "digit"⟩), .advance (2 ^ 64 - 1), .record "end",
      .moveTo (2 ^ 64 - 1), .evaluate (.rule ⟨0, "digit"⟩)]
    let env := Env.ofText "7 x" {}
    let s := ((Session.start "7 x" {} .digits).after cs).state
    s.cursor = 3 ∧ s.failures.size = 3 ∧ s.memo.size = 4 ∧ s.Valid env := by
  intro cs env s
  exact ⟨by decide +kernel, by decide +kernel, by decide +kernel,
    (Session.valid_of_mem_moments "7 x" defaultBlanks none .digits cs s
      (Session.after_mem_moments _ cs)).1⟩

end Packrat
