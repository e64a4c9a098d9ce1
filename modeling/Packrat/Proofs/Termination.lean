import Packrat.Proofs.Moves

/-!
# Evaluations under a limit end

A limit bounds the number of open rules, and the rest of an evaluation cannot go on for ever: an
expression is a finite tree, and the loop of a repetition ends by itself as long as its part lands
(`Expr.exhausted_cause`). So an evaluation under a limit has an outcome, unless a build function or
the builder of a body stops it with a fault. `Expr.Faults` and `Grammar.Faults` say which faults
these can be.
-/

namespace Packrat

namespace Expr

mutual

/-- A build function in the expression stops with `f` on some step values. -/
def Faults (f : Fault) : Expr → Prop
  | .builtin _ | .char _ | .literal _ _ | .empty | .fail _ | .position | .rule _ => False
  | .optionalAs _ x | .repeatedAs _ x _ | .lookaheadAs _ _ x | .map _ _ x => x.Faults f
  | .sequenceAs _ _ steps build => (∃ slots, build.apply slots = .error f) ∨ stepsFault f steps
  | .choiceAs _ xs => someFaults f xs

/-- A build function in one of the steps stops with `f`. -/
def stepsFault (f : Fault) : List (Step Expr) → Prop
  | [] => False
  | ⟨x, _⟩ :: rest => x.Faults f ∨ stepsFault f rest

/-- A build function in one of the alternatives stops with `f`. -/
def someFaults (f : Fault) : List Expr → Prop
  | [] => False
  | x :: rest => x.Faults f ∨ someFaults f rest

end

end Expr

/-- A body that can stop an evaluation with `f`, by its build functions or while it is built. -/
def Body.Faults (f : Fault) : Body → Prop
  | .undefined => False
  | .defined x => x.Faults f
  | .delayed build => ∃ handles, match (build.apply handles).1 with
    | .ok x => x.Faults f
    | .error e => e = f

/-- A body of the grammar can stop an evaluation with `f`. -/
def Grammar.Faults (g : Grammar) (f : Fault) : Prop := ∃ r, (g.body r).Faults f

section

variable {env : Env} {n : Nat} {key : Key} {f : Fault} {s t u : State}

/-! ## Where faults come from -/

/-- The dialogue can halt with `f` by itself. -/
inductive Dialogue.Halts {α : Type} (f : Fault) : Dialogue α → Prop where
  | halt (s : State) : Halts f (.halt (.fault f) s)
  | ask {key : Key} {s : State} {next : Outcome Value → State → Dialogue α} {o : Outcome Value}
      {t : State} (h : Halts f (next o t)) : Halts f (.ask key s next)

namespace Dialogue

variable {α β : Type}

theorem Halts.of_bind {d : Dialogue α} {g : α → State → Dialogue β} (h : (d.bind g).Halts f) :
    d.Halts f ∨ ∃ a s, (g a s).Halts f := by
  induction d with
  | done a s => exact Or.inr ⟨a, s, h⟩
  | halt e s => cases h; exact Or.inl (.halt s)
  | ask key s next ih =>
    cases h with
    | ask h =>
      rcases ih _ _ h with h | h
      · exact Or.inl (.ask h)
      · exact Or.inr h

theorem Halts.of_collect {count : Count} {d : State → Dialogue (Outcome Value)} {budget : Nat} :
    ∀ {items s}, (collect count d budget items s).Halts f → ∃ s, (d s).Halts f := by
  induction budget with
  | zero => intro items s h; cases h
  | succ budget ih =>
    intro items s h
    rw [collect] at h
    split at h
    · cases h
    · rcases h.of_bind with h | ⟨o, t, h⟩
      · exact ⟨s, h⟩
      · cases o with
        | failed => cases h
        | matched stop v =>
          dsimp only at h
          split at h
          · cases h
          · exact ih h

/-- A fault is that of the dialogue itself or of an answer to one of its questions. -/
theorem fault_cases {answer : Key → Matcher} {d : Dialogue α}
    (h : d.run answer = .error (.fault f) t) :
    d.Halts f ∨ ∃ key u, d.Reaches answer key u ∧ answer key u = .error (.fault f) t := by
  induction d with
  | done a s => cases h
  | halt e s => cases h; exact Or.inl (.halt _)
  | ask key s next ih =>
    rw [run_ask] at h
    cases hr : answer key s with
    | error e u =>
      rw [hr] at h
      cases h
      exact Or.inr ⟨key, s, .here key s next, hr⟩
    | ok o u =>
      rw [hr] at h
      rcases ih o u h with h | ⟨key', u', hu', h⟩
      · exact Or.inl (.ask h)
      · exact Or.inr ⟨key', u', .there hr hu', h⟩

end Dialogue

namespace Expr

mutual

/-- An expression halts by itself only where one of its build functions does. -/
theorem faults_of_halts (x : Expr) (s : State) (h : (x.dialogue env s).Halts f) : x.Faults f := by
  cases x with
  | builtin c => rw [dialogue] at h; cases h with | ask h => cases h
  | char test =>
    obtain ⟨o, t, ht, -⟩ := Matcher.exists_scan env "Character" test s
    rw [dialogue, Matcher.char, ParseM.run_bind, ht] at h
    cases o <;> cases h
  | literal length test =>
    rw [dialogue, Matcher.run_literal] at h
    cases hslice : env.slice? s.cursor length with
    | none => rw [hslice] at h; cases h
    | some text =>
      rw [hslice] at h
      dsimp only at h
      cases htest : test.apply text <;> rw [htest] at h <;> cases h
  | empty => rw [dialogue] at h; cases h
  | fail message => rw [dialogue] at h; cases h
  | position => rw [dialogue] at h; cases h
  | rule r => rw [dialogue] at h; cases h with | ask h => cases h
  | optionalAs label x =>
    rw [dialogue] at h
    rcases h.of_bind with h | ⟨o, t, h⟩
    · exact faults_of_halts x s h
    · cases o <;> cases h
  | repeatedAs label x count =>
    rw [dialogue] at h
    rcases h.of_bind with h | ⟨items, t, h⟩
    · obtain ⟨u, hu⟩ := h.of_collect
      exact faults_of_halts x u hu
    · split at h <;> cases h
  | lookaheadAs label negated x =>
    rw [dialogue] at h
    rcases h.of_bind with h | ⟨o, t, h⟩
    · exact faults_of_halts x s h
    · split at h <;> cases h
  | sequenceAs label type steps build =>
    rw [dialogue] at h
    rcases h.of_bind with h | ⟨slots, t, h⟩
    · exact Or.inr (stepsFault_of_halts steps s h)
    · cases slots with
      | none => cases h
      | some slots =>
        dsimp only at h
        cases hb : build.apply slots with
        | ok v => rw [hb] at h; cases h
        -- of all forms only a sequence halts by itself
        | error e => rw [hb] at h; cases h; exact Or.inl ⟨slots, hb⟩
  | choiceAs label xs =>
    rw [dialogue] at h
    rcases h.of_bind with h | ⟨o, t, h⟩
    · exact someFaults_of_halts xs s.cursor s h
    · cases o <;> cases h
  | map type g x =>
    rw [dialogue] at h
    rcases h.of_bind with h | ⟨o, t, h⟩
    · exact faults_of_halts x s h
    · cases o <;> cases h

theorem stepsFault_of_halts (steps : List (Step Expr)) (s : State)
    (h : (stepsDialogue env steps s).Halts f) : stepsFault f steps := by
  cases steps with
  | nil => rw [stepsDialogue] at h; cases h
  | cons step rest =>
    obtain ⟨x, store⟩ := step
    rw [stepsDialogue] at h
    rcases h.of_bind with h | ⟨o, t, h⟩
    · exact Or.inl (faults_of_halts x s h)
    · cases o with
      | failed => cases h
      | matched stop v =>
        rcases h.of_bind with h | ⟨slots, u, h⟩
        · exact Or.inr (stepsFault_of_halts rest t h)
        · cases slots <;> cases h

theorem someFaults_of_halts (xs : List Expr) (start : Nat) (s : State)
    (h : (firstDialogue env start xs s).Halts f) : someFaults f xs := by
  cases xs with
  | nil => rw [firstDialogue] at h; cases h
  | cons x rest =>
    rw [firstDialogue] at h
    rcases h.of_bind with h | ⟨o, t, h⟩
    · exact Or.inl (faults_of_halts x s h)
    · cases o with
      | matched stop v => cases h
      | failed => exact Or.inr (someFaults_of_halts rest start (t.moveTo env start) h)

end

end Expr

/-- Building a body brings in no new faults. -/
theorem Grammar.faults_of_built {g : Grammar} {r : RuleId}
    {b : Hook Handles (Except Fault Expr × Handles)} (hb : g.body r = .delayed b)
    (h : (Matcher.built g r b).2.Faults f) : g.Faults f := by
  obtain ⟨r', hr'⟩ := h
  unfold Matcher.built at hr'
  rcases hx : b.apply g.handles with ⟨result, handles⟩
  rw [hx] at hr'
  cases result with
  | error e => exact ⟨r', hr'⟩
  | ok x =>
    dsimp only at hr'
    rw [Grammar.body_setBody] at hr'
    split at hr'
    · refine ⟨r, ?_⟩
      rw [hb]
      refine ⟨g.handles, ?_⟩
      rw [hx]
      exact hr'
    · exact ⟨r', hr'⟩

/-- A run does not bring new faults into the grammar. -/
theorem Moves.faults (h : Moves env s t) (ht : t.grammar.Faults f) : s.grammar.Faults f := by
  refine h.lift (R := fun s t => t.grammar.Faults f → s.grammar.Faults f) (fun _ => id)
    (fun h h' hu => h (h' hu)) ?_ ht
  intro s t hm ht
  cases hm with
  | build r b hb => exact Grammar.faults_of_built hb ht
  | _ => exact ht

theorem body?_fault {r : RuleId} (h : Matcher.body? r s = .error (.fault f) t) :
    s.grammar.Faults f := by
  cases hb : s.grammar.body r with
  | undefined => rw [Matcher.run_body?_undefined hb] at h; cases h
  | defined x => rw [Matcher.run_body?_defined hb] at h; cases h
  | delayed b =>
    rw [Matcher.run_body?_delayed hb] at h
    refine ⟨r, ?_⟩
    rw [hb]
    refine ⟨s.grammar.handles, ?_⟩
    unfold Matcher.built at h
    rcases hx : b.apply s.grammar.handles with ⟨result, handles⟩
    rw [hx] at h
    cases result with
    | ok x => cases h
    | error e => cases h; rfl

/-- A fault in an answer comes from the grammar. -/
theorem answer_fault (n : Nat) (key : Key) (s : State)
    (h : answer env n key s = .error (.fault f) t) : s.grammar.Faults f := by
  induction n generalizing key s with
  | zero =>
    obtain ⟨-, -, hp⟩ := answer_error h
    cases key with
    | builtin c =>
      obtain ⟨o, u, hu, -⟩ := exists_produce_builtin env 0 c (s.opened (.builtin c))
      simp [hu] at hp
    | rule r => cases hp
  | succ n ih =>
    obtain ⟨-, hl, hp⟩ := answer_error h
    cases key with
    | builtin c =>
      obtain ⟨o, u, hu, -⟩ := exists_produce_builtin env (n + 1) c (s.opened (.builtin c))
      simp [hu] at hp
    | rule r =>
      have hopen : Moves env s ((s.opened (.rule r)).entering env r) :=
        (Moves.opened hl).trans (.entering _ r)
      rw [produce_succ] at hp
      rcases Matcher.body?_cases r ((s.opened (.rule r)).entering env r) with
        ⟨-, hb⟩ | ⟨x, u, hb, -, hx⟩ | ⟨e, u, hb, -⟩
      · rw [hb] at hp
        cases hp
      · have hmoves := hopen.trans (.body? r _)
        rw [hb] at hp hmoves
        dsimp only at hp
        cases hr : (x.dialogue env u).run (answer env n) with
        | ok o w => rw [hr] at hp; cases hp
        | error e w =>
          rw [hr] at hp
          cases hp
          -- the fault is that of a build function in the body, or of a rule that the body asks for
          rcases Dialogue.fault_cases hr with hhalts | ⟨key', v, hv, hans⟩
          · refine hmoves.faults ⟨r, ?_⟩
            rw [show (Result.state (.ok (some x) u)).grammar.body r = _ from hx]
            exact x.faults_of_halts u hhalts
          · exact (hmoves.trans ((x.linked_self env u).moves_question hv)).faults (ih key' v hans)
      · rw [hb] at hp
        cases hp
        exact hopen.faults (body?_fault hb)

/-- The faults of an evaluation are those of its expression and of its grammar. -/
theorem Expr.evaluate_fault {x : Expr} (h : x.evaluate env s = .error (.fault f) t) :
    x.Faults f ∨ s.grammar.Faults f := by
  rw [Expr.evaluate_eq_run] at h
  rcases Dialogue.fault_cases h with hhalts | ⟨key, u, hu, hans⟩
  · exact Or.inl (x.faults_of_halts s hhalts)
  · exact Or.inr (((x.linked_self env s).moves_question hu).faults (answer_fault _ key u hans))

/-- An evaluation that is not exhausted has an outcome or stops with a fault of the grammar. -/
theorem Expr.ends_of_not_exhausted {x : Expr} (h : ¬ Result.Exhausted (x.evaluate env s)) :
    (∃ o t, x.evaluate env s = .ok o t) ∨
      ∃ f t, x.evaluate env s = .error (.fault f) t ∧ (x.Faults f ∨ s.grammar.Faults f) := by
  cases hr : x.evaluate env s with
  | ok o t => exact Or.inl ⟨o, t, rfl⟩
  | error e t =>
    right
    cases e with
    | exhausted => rw [hr] at h; exact absurd trivial h
    | fault f => exact ⟨f, t, rfl, Expr.evaluate_fault hr⟩

/-- More room does not change an evaluation that is not exhausted. -/
theorem Expr.matcher_eq_of_not_exhausted {x : Expr}
    (h : ¬ Result.Exhausted (x.evaluate env s)) (hn : headroom env s.grammar ≤ n) :
    x.matcher env (callRule env n) s = x.evaluate env s := by
  rw [Expr.evaluate_eq_run] at h ⊢
  rw [x.matcher_eq_run, ← answer]
  exact Dialogue.run_mono env hn _ h

/-! ## Room under a limit -/

/-- Room for the rules that the limit still allows is enough for an answer. -/
theorem answer_not_exhausted {limit : Nat} (hlim : env.limit = some limit) (n : Nat) (key : Key)
    (s : State) (hs : Sane env s) (hroom : limit ≤ s.depth + n) :
    ¬ Result.Exhausted (answer env n key s) := by
  intro h
  induction n generalizing key s with
  | zero =>
    obtain ⟨-, hl, -⟩ := exhausted_produce h
    cases key with
    | builtin c => exact builtin_not_exhausted env 0 c s h
    | rule r =>
      simp [Key.refused, State.atLimit, hlim] at hl
      omega
  | succ n ih =>
    obtain ⟨-, hl, hp⟩ := exhausted_produce h
    cases key with
    | builtin c => exact builtin_not_exhausted env (n + 1) c s h
    | rule r =>
      have ho : Quiet env s (s.opened (.rule r)) := .opened s _
      rw [produce_succ] at hp
      rcases Matcher.body?_cases r ((s.opened (.rule r)).entering env r) with
        ⟨-, hb⟩ | ⟨x, u, hb, hrt, -⟩ | ⟨e, u, hb, -⟩
      · rw [hb] at hp
        exact Result.exhausted_ok _ _ hp
      · have hq : Quiet env s u := ho.trans ((Quiet.entering _ r).trans (.of_rebuilt hrt))
        have hdepth : u.depth = s.depth + 1 := by
          obtain ⟨-, g, es, rfl⟩ := hrt
          exact (State.Works.skipBlanks env _).depth
        rw [hb] at hp
        dsimp only at hp
        have he : Result.Exhausted ((x.dialogue env u).run (answer env n)) := by
          cases hr : (x.dialogue env u).run (answer env n) with
          | ok o w => rw [hr] at hp; exact absurd hp (Result.exhausted_ok _ _)
          | error e w => rw [hr] at hp; exact hp
        obtain ⟨r', v, hv, hrv⟩ := x.exhausted_cause (hq.sane hs) he
        have hv' := ((x.linked_self env u).restores_question hv).depth
        obtain ⟨hsv, -⟩ := (x.linked_self env u).reaches_question (kept_sane env n) (hq.sane hs)
          trivial hv
        exact ih (.rule r') v hsv (by omega) hrv
      · rw [hb] at hp
        cases hp

/-- Under a limit the room of an evaluation is enough. -/
theorem Expr.evaluate_not_exhausted {limit : Nat} (hlim : env.limit = some limit) (x : Expr)
    (hs : Sane env s) : ¬ Result.Exhausted (x.evaluate env s) := by
  intro h
  have hroom : headroom env s.grammar = limit := by simp [headroom, hlim]
  rw [Expr.evaluate_eq_run, hroom] at h
  obtain ⟨r, u, hu, hru⟩ := x.exhausted_cause hs h
  obtain ⟨hsu, -⟩ := (x.linked_self env s).reaches_question (kept_sane env limit) hs trivial hu
  exact answer_not_exhausted hlim limit (.rule r) u hsu (by omega) hru

/-- Under a limit an evaluation has an outcome or stops with a fault of the grammar. -/
theorem Expr.evaluate_ends {limit : Nat} (hlim : env.limit = some limit) (x : Expr)
    (hs : Sane env s) :
    (∃ o t, x.evaluate env s = .ok o t) ∨
      ∃ f t, x.evaluate env s = .error (.fault f) t ∧ (x.Faults f ∨ s.grammar.Faults f) :=
  Expr.ends_of_not_exhausted (Expr.evaluate_not_exhausted hlim x hs)

/-- More room than the limit asks for does not change an evaluation. -/
theorem Expr.matcher_eq_evaluate {limit : Nat} (hlim : env.limit = some limit) (x : Expr)
    (hs : Sane env s) (hn : limit ≤ n) :
    x.matcher env (callRule env n) s = x.evaluate env s := by
  have hroom : headroom env s.grammar = limit := by simp [headroom, hlim]
  exact Expr.matcher_eq_of_not_exhausted (Expr.evaluate_not_exhausted hlim x hs) (hroom ▸ hn)

end

/-! ## Sessions -/

/-- Under a limit every evaluation ends, at every moment of a session and with as much room as one
likes: with an outcome, or stopped by a fault that a build function of the expression, or a build
function or the builder of a body of the grammar gives. -/
theorem Session.limited_evaluation_ends (text : String) (blanks : List Char) (limit : Nat)
    (g : Grammar) (cs : List (Command RuleId Expr)) (s : State)
    (hs : s ∈ (Session.start text { blanks, limit := some limit } g).moments cs) (x : Expr) :
    let env := Env.ofText text { blanks, limit := some limit }
    ((∃ o t, x.evaluate env s = .ok o t) ∨
      ∃ f t, x.evaluate env s = .error (.fault f) t ∧ (x.Faults f ∨ s.grammar.Faults f)) ∧
    ∀ n, limit ≤ n → x.matcher env (callRule env n) s = x.evaluate env s := by
  intro env
  have hsane := Session.sane_of_mem_moments hs
  exact ⟨x.evaluate_ends rfl hsane, fun n hn => x.matcher_eq_evaluate rfl hsane hn⟩

/-- Rules that begin with themselves: directly, by way of another, and behind a repetition that can
match nothing again and again. -/
def Grammar.spirals : Grammar where
  rules := #[⟨"direct", false, .defined (.choice [.rule ⟨0, "direct"⟩, .builtin .digit])⟩,
    ⟨"ping", false, .defined (.choice [.rule ⟨2, "pong"⟩, .builtin .digit])⟩,
    ⟨"pong", true, .defined (.choice [.rule ⟨1, "ping"⟩, .builtin .letter])⟩,
    ⟨"hidden", false, .defined (.sequence .unit
      [Expr.skipped ((Expr.builtin .digit).optional.repeated .zeroOrMore),
        Expr.skipped (.rule ⟨3, "hidden"⟩)] { apply := fun _ => .ok .unit })⟩]

/-- Each way of beginning with oneself is cut off by the limit. -/
theorem Session.limited_evaluation_ends_spirals :
    let cs := [.evaluate (.rule ⟨0, "direct"⟩), .moveTo 0, .evaluate (.rule ⟨1, "ping"⟩), .moveTo 0]
    let env := Env.ofText "7" { limit := some 3 }
    let s := ((Session.start "7" { limit := some 3 } .spirals).after cs).state
    s.overflowed = true ∧ ((∃ o t, (Expr.rule ⟨3, "hidden"⟩).evaluate env s = .ok o t) ∨
      ∃ f t, (Expr.rule ⟨3, "hidden"⟩).evaluate env s = .error (.fault f) t ∧
        ((Expr.rule ⟨3, "hidden"⟩).Faults f ∨ s.grammar.Faults f)) := by
  intro cs env s
  exact ⟨by decide +kernel, (Session.limited_evaluation_ends "7" defaultBlanks 3 .spirals cs s
    (Session.after_mem_moments _ cs) (.rule ⟨3, "hidden"⟩)).1⟩

end Packrat
