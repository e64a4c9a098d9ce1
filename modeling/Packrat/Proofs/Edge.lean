import Packrat.Proofs.Transparency

/-!
# The left edge of an expression

An expression is `Nullable` if by its form it may match without consuming anything, given the bodies
of the rules. `Expr.Begins` finds the rules at its left edge: those that stand behind steps which
may be passed without consuming.

Both are sound for evaluations. A match of nothing is one of a nullable expression
(`nullable_of_run`), and a rule that is asked for before anything was consumed stands at the left
edge (`begins_of_reaches`), provided that matches of nothing among the answers are of nullable keys
(`Dialogue.Weighs`). With every step passable, `Begins` is the occurrence of a rule, and the second
fact says that an expression asks only for rules that occur in it.
-/

namespace Packrat

namespace Expr

/-- An expression that may match without consuming, where `has r x` says that the rule `r` has the
body `x`. -/
inductive Nullable (has : RuleId → Expr → Prop) : Expr → Prop where
  | empty : Nullable has .empty
  | position : Nullable has .position
  | literal (test : Hook String Bool) : Nullable has (.literal 0 test)
  | rule {r : RuleId} {x : Expr} (hx : has r x) (h : Nullable has x) : Nullable has (.rule r)
  | optional (label : String) (x : Expr) : Nullable has (.optionalAs label x)
  | lookahead (label : String) (negated : Bool) (x : Expr) :
      Nullable has (.lookaheadAs label negated x)
  | repeatedZero (label : String) (x : Expr) {count : Count} (h : count.least = 0) :
      Nullable has (.repeatedAs label x count)
  | repeated (label : String) {x : Expr} (count : Count) (h : Nullable has x) :
      Nullable has (.repeatedAs label x count)
  | sequence (label : String) (type : ValueType) {steps : List (Step Expr)}
      (build : Hook Slots (Except Fault Value)) (h : ∀ step ∈ steps, Nullable has step.body) :
      Nullable has (.sequenceAs label type steps build)
  | choice (label : String) {xs : List Expr} {x : Expr} (hx : x ∈ xs) (h : Nullable has x) :
      Nullable has (.choiceAs label xs)
  | map (type : ValueType) (f : Hook Value Value) {x : Expr} (h : Nullable has x) :
      Nullable has (.map type f x)

theorem Nullable.mono {has has' : RuleId → Expr → Prop} (hle : ∀ r x, has r x → has' r x) {x : Expr}
    (h : x.Nullable has) : x.Nullable has' := by
  induction h with
  | empty => exact .empty
  | position => exact .position
  | literal test => exact .literal test
  | rule hx _ ih => exact .rule (hle _ _ hx) ih
  | optional label x => exact .optional label x
  | lookahead label negated x => exact .lookahead label negated x
  | repeatedZero label x h => exact .repeatedZero label x h
  | repeated label count _ ih => exact .repeated label count ih
  | sequence label type build _ ih => exact .sequence label type build ih
  | choice label hx _ ih => exact .choice label hx ih
  | map type f _ ih => exact .map type f ih

mutual

/-- The rule `r` stands in the expression at a place that is reached through steps with `pass`. -/
def Begins (pass : Expr → Prop) (r : RuleId) : Expr → Prop
  | .builtin _ | .char _ | .literal _ _ | .empty | .fail _ | .position => False
  | .rule r' => r' = r
  | .optionalAs _ x | .repeatedAs _ x _ | .lookaheadAs _ _ x | .map _ _ x => x.Begins pass r
  | .sequenceAs _ _ steps _ => stepsBegin pass r steps
  | .choiceAs _ xs => someBegins pass r xs

/-- The same for the steps of a sequence: those before the place have `pass`. -/
def stepsBegin (pass : Expr → Prop) (r : RuleId) : List (Step Expr) → Prop
  | [] => False
  | ⟨x, _⟩ :: rest => x.Begins pass r ∨ pass x ∧ stepsBegin pass r rest

/-- The same for the alternatives of a choice. -/
def someBegins (pass : Expr → Prop) (r : RuleId) : List Expr → Prop
  | [] => False
  | x :: rest => x.Begins pass r ∨ someBegins pass r rest

end

section

variable {pass pass' : Expr → Prop} {r : RuleId}

mutual

theorem Begins.mono (hle : ∀ y, pass y → pass' y) (x : Expr) (h : x.Begins pass r) :
    x.Begins pass' r := by
  cases x with
  | builtin c => exact h
  | char test => exact h
  | literal length test => exact h
  | empty => exact h
  | fail message => exact h
  | position => exact h
  | rule r' => exact h
  | optionalAs label x => exact Begins.mono hle x h
  | repeatedAs label x count => exact Begins.mono hle x h
  | lookaheadAs label negated x => exact Begins.mono hle x h
  | sequenceAs label type steps build => exact stepsBegin_mono hle steps h
  | choiceAs label xs => exact someBegins_mono hle xs h
  | map type f x => exact Begins.mono hle x h

theorem stepsBegin_mono (hle : ∀ y, pass y → pass' y) (steps : List (Step Expr))
    (h : stepsBegin pass r steps) : stepsBegin pass' r steps := by
  cases steps with
  | nil => exact h
  | cons step rest =>
    rcases h with h | ⟨hx, h⟩
    · exact Or.inl (Begins.mono hle step.body h)
    · exact Or.inr ⟨hle _ hx, stepsBegin_mono hle rest h⟩

theorem someBegins_mono (hle : ∀ y, pass y → pass' y) (xs : List Expr)
    (h : someBegins pass r xs) : someBegins pass' r xs := by
  cases xs with
  | nil => exact h
  | cons x rest =>
    rcases h with h | h
    · exact Or.inl (Begins.mono hle x h)
    · exact Or.inr (someBegins_mono hle rest h)

end

end

end Expr

/-- The matches of nothing among the answers to a dialogue are of keys with `null`. -/
def Dialogue.Weighs {α : Type} (null : Expr → Prop) (f : Key → Matcher) (d : Dialogue α) : Prop :=
  ∀ key u v t, d.Reaches f key u → f key u = .ok (.matched u.cursor v) t → null key.expr

/-- Where the matches of nothing among the answers are of keys with `null`, those of expressions are
of expressions with `null`. -/
def Expr.Covers (env : Env) (n : Nat) (null : Expr → Prop) : Prop :=
  ∀ (y : Expr) (s t : State) (v : Value), Sane env s →
    (y.dialogue env s).Weighs null (answer env n) →
    (y.dialogue env s).run (answer env n) = .ok (.matched s.cursor v) t → null y

section

variable {env : Env} {n : Nat} {s t u : State} {null : Expr → Prop} {v : Value}

namespace Dialogue

variable {α β : Type} {f : Key → Matcher} {d : Dialogue α} {g : α → State → Dialogue β}

theorem Weighs.left (h : (d.bind g).Weighs null f) : d.Weighs null f :=
  fun key u v t hu hr => h key u v t (hu.bind_left g) hr

theorem Weighs.right (h : (d.bind g).Weighs null f) {a : α} (hr : d.run f = .ok a t) :
    (g a t).Weighs null f := fun key u v w hu ha => h key u v w (.bind_right hr hu) ha

end Dialogue

/-! ## How far a match gets -/

/-- The dialogue of an expression lands as the expression does. -/
theorem Expr.run_lands (x : Expr) (hs : Sane env s) {o : Outcome Value}
    (h : (x.dialogue env s).run (answer env n) = .ok o t) : Sane env t ∧ Lands env s o t := by
  have hrun := x.orderly_run (orderly_answer n) hs
  rw [h] at hrun
  exact hrun

theorem Expr.run_advances (x : Expr) (hs : Sane env s) {o : Outcome Value}
    (h : (x.dialogue env s).run (answer env n) = .ok o t) :
    Sane env t ∧ s.cursor ≤ t.cursor := by
  obtain ⟨ht, hland⟩ := x.run_lands hs h
  exact ⟨ht, (hland.advances hs.cursor).le⟩

theorem Expr.steps_advance {steps : List (Step Expr)} : ∀ {slots : Option Slots} {s t : State},
    Sane env s → (stepsDialogue env steps s).run (answer env n) = .ok slots t →
      s.cursor ≤ t.cursor := by
  induction steps with
  | nil =>
    intro slots s t hs h
    cases h
    exact Nat.le_refl _
  | cons step rest ih =>
    obtain ⟨x, store⟩ := step
    intro slots s t hs h
    rw [stepsDialogue] at h
    obtain ⟨o, u, hu, h⟩ := Dialogue.run_bind_ok h
    obtain ⟨hsu, hle⟩ := x.run_advances hs hu
    cases o with
    | failed => cases h; exact hle
    | matched stop v =>
      obtain ⟨slots', w, hw, h⟩ := Dialogue.run_bind_ok h
      have hend : t = w := by cases slots' <;> cases h <;> rfl
      rw [hend]
      exact Nat.le_trans hle (ih hsu hw)

theorem Expr.collect_advances (x : Expr) {count : Count} {budget : Nat} :
    ∀ {items items' : Array Value} {s t : State}, Sane env s →
      (Dialogue.collect count (x.dialogue env) budget items s).run (answer env n) = .ok items' t →
      s.cursor ≤ t.cursor := by
  induction budget with
  | zero => intro items items' s t hs h; cases h
  | succ budget ih =>
    intro items items' s t hs h
    rw [Dialogue.collect] at h
    split at h
    · cases h
      exact Nat.le_refl _
    · obtain ⟨o, u, hu, h⟩ := Dialogue.run_bind_ok h
      obtain ⟨hsu, hle⟩ := x.run_advances hs hu
      cases o with
      | failed => cases h; exact hle
      | matched stop v =>
        dsimp only at h
        split at h
        · cases h; exact hle
        · exact Nat.le_trans hle (ih hsu h)

theorem Matcher.scan_stop {label : String} {test : Hook Char Bool} {stop : Nat}
    (h : scan env label test s = .ok (.matched stop v) t) :
    stop = s.cursor + 1 ∧ t.cursor = s.cursor + 1 := by
  rw [run_scan] at h
  cases hc : env.text[s.cursor]? with
  | none => rw [hc] at h; cases h
  | some c =>
    have hlt : s.cursor < env.length := (Array.getElem?_eq_some_iff.mp hc).1
    have hcur : ((s.note test.journal Char.toString c).advance env 1).cursor = s.cursor + 1 := by
      rw [State.advance, State.moveTo_cursor, State.note_cursor, Nat.min_eq_left hlt]
    rw [hc] at h
    dsimp only at h
    split at h
    · cases h
      exact ⟨hcur, hcur⟩
    · cases h

theorem Matcher.char_lt {test : Hook Char Bool} {stop : Nat} (hs : Sane env s)
    (h : char env test s = .ok (.matched stop v) t) : s.cursor < stop := by
  have hscan : Packrat.Orderly env True (Lands env s) _ := orderly_scan "Character" test s hs
  rw [char, ParseM.run_bind] at h
  cases hr : scan env "Character" test s with
  | error e u => rw [hr] at h; cases h
  | ok o u =>
    rw [hr] at h hscan
    cases o with
    | failed => cases h
    | matched stop' v' =>
      obtain ⟨-, hu⟩ := scan_stop hr
      have hle := (State.skipBlanks_bounds hscan.1.cursor).1
      have hstop : stop = (u.skipBlanks env).cursor := by cases h; rfl
      omega

/-- A literal consumes as many characters as it has. -/
theorem Matcher.literal_le {length : Nat} {test : Hook String Bool} {stop : Nat}
    (h : literal env length test s = .ok (.matched stop v) t) : s.cursor + length ≤ stop := by
  rw [run_literal] at h
  cases hc : env.slice? s.cursor length with
  | none => rw [hc] at h; cases h
  | some text =>
    have hle : s.cursor + length ≤ env.length := by
      unfold Env.slice? at hc
      split at hc
      · assumption
      · cases hc
    have hcur : ((s.note test.journal id text).advance env length).cursor = s.cursor + length := by
      rw [State.advance, State.moveTo_cursor, State.note_cursor, Nat.min_eq_left hle]
    have hskip := State.skipBlanks_bounds (hcur ▸ hle)
    rw [hc] at h
    dsimp only at h
    split at h
    · cases h
      omega
    · cases h

/-! ## Matches of nothing -/

namespace Expr

/-- A repetition that matches nothing and must match something matches nothing at first. -/
theorem first_of_collect (x : Expr) {count : Count} {budget : Nat} {items : Array Value}
    (hs : Sane env s) (hleast : 0 < count.least) (hitems : count.least ≤ items.size)
    (h : (Dialogue.collect count (x.dialogue env) budget #[] s).run (answer env n) = .ok items t)
    (hc : t.cursor = s.cursor) :
    ∃ v u, (x.dialogue env s).run (answer env n) = .ok (.matched s.cursor v) u ∧
      ∀ {null}, (Dialogue.collect count (x.dialogue env) budget #[] s).Weighs null (answer env n) →
        (x.dialogue env s).Weighs null (answer env n) := by
  have hsome : items ≠ #[] := by
    rintro rfl
    simp at hitems
    omega
  cases budget with
  | zero => cases h
  | succ budget =>
    rw [Dialogue.collect] at h ⊢
    split at h
    · cases h
      exact absurd rfl hsome
    · rename_i hfull
      obtain ⟨o, u, hu, h⟩ := Dialogue.run_bind_ok h
      cases o with
      | failed => cases h; exact absurd rfl hsome
      | matched stop v =>
        obtain ⟨hsu, hcur, hle, -⟩ := x.run_lands hs hu
        -- the rounds after the first one do not go back, so it consumed nothing either
        have hback : u.cursor ≤ t.cursor := by
          dsimp only at h
          split at h
          · cases h; exact Nat.le_refl _
          · exact x.collect_advances hsu h
        have hstop : stop = s.cursor := by omega
        rw [hstop] at hu
        exact ⟨v, u, hu, fun hd => by rw [if_neg hfull] at hd; exact hd.left⟩

section

variable {has : RuleId → Expr → Prop}

mutual

/-- What matches nothing is nullable. -/
theorem nullable_of_run (x : Expr) {s t : State} (hs : Sane env s)
    (hd : (x.dialogue env s).Weighs (Nullable has) (answer env n)) {stop : Nat} {v : Value}
    (h : (x.dialogue env s).run (answer env n) = .ok (.matched stop v) t)
    (hstop : stop = s.cursor) : x.Nullable has := by
  cases x with
  | builtin c =>
    subst hstop
    have hans := (run_expr (.builtin c) _ s).symm.trans h
    rw [dialogue] at hd
    exact hd (.builtin c) s v t (.here _ _ _) hans
  | char test =>
    rw [dialogue, Dialogue.run_ofResult] at h
    have hlt := Matcher.char_lt hs h
    omega
  | literal length test =>
    rw [dialogue, Dialogue.run_ofResult] at h
    have hle := Matcher.literal_le h
    obtain rfl : length = 0 := by omega
    exact .literal test
  | empty => exact .empty
  | fail message => rw [dialogue] at h; cases h
  | position => exact .position
  | rule r =>
    subst hstop
    have hans := (run_expr (.rule r) _ s).symm.trans h
    rw [dialogue] at hd
    exact hd (.rule r) s v t (.here _ _ _) hans
  | optionalAs label x => exact .optional label x
  | repeatedAs label x count =>
    by_cases hleast : count.least = 0
    · exact .repeatedZero label x hleast
    · rw [dialogue] at hd h
      obtain ⟨items, u, hu, h⟩ := Dialogue.run_bind_ok h
      split at h
      · rename_i hitems
        cases h
        obtain ⟨v, w, hw, hx⟩ := x.first_of_collect hs (Nat.pos_of_ne_zero hleast) hitems hu hstop
        exact .repeated label count (nullable_of_run x hs (hx hd.left) hw rfl)
      · cases h
  | lookaheadAs label negated x => exact .lookahead label negated x
  | sequenceAs label type steps build =>
    rw [dialogue] at hd h
    obtain ⟨slots, u, hu, h⟩ := Dialogue.run_bind_ok h
    cases slots with
    | none => cases h
    | some slots =>
      have hc : u.cursor = s.cursor := by
        dsimp only at h
        cases hb : build.apply slots with
        | error f => rw [hb] at h; cases h
        | ok v' =>
          rw [hb] at h
          cases h
          simpa using hstop
      exact .sequence label type build (steps_nullable_of_run steps hs hd.left hu hc)
  | choiceAs label xs =>
    rw [dialogue] at hd h
    obtain ⟨o, u, hu, h⟩ := Dialogue.run_bind_ok h
    cases o with
    | failed => cases h
    | matched stop' v' =>
      cases h
      obtain ⟨x, hx, hnull⟩ := first_nullable_of_run xs hs rfl hd.left hu hstop
      exact .choice label hx hnull
  | map type f x =>
    rw [dialogue] at hd h
    obtain ⟨o, u, hu, h⟩ := Dialogue.run_bind_ok h
    cases o with
    | failed => cases h
    | matched stop' v' =>
      cases h
      exact .map type f (nullable_of_run x hs hd.left hu hstop)

/-- Steps that together consume nothing are all nullable, since none of them goes back. -/
theorem steps_nullable_of_run (steps : List (Step Expr)) {s t : State} (hs : Sane env s)
    (hd : (stepsDialogue env steps s).Weighs (Nullable has) (answer env n)) {slots : Slots}
    (h : (stepsDialogue env steps s).run (answer env n) = .ok (some slots) t)
    (hc : t.cursor = s.cursor) : ∀ step ∈ steps, step.body.Nullable has := by
  cases steps with
  | nil => intro step hstep; cases hstep
  | cons step rest =>
    obtain ⟨x, store⟩ := step
    rw [stepsDialogue] at hd h
    obtain ⟨o, u, hu, h⟩ := Dialogue.run_bind_ok h
    cases o with
    | failed => cases h
    | matched stop v =>
      obtain ⟨hsu, hcur, hle, -⟩ := x.run_lands hs hu
      have hrest := hd.right hu
      obtain ⟨slots', w, hw, h⟩ := Dialogue.run_bind_ok h
      cases slots' with
      | none => cases h
      | some slots' =>
        cases h
        have hback := steps_advance hsu hw
        intro step hstep
        rcases List.mem_cons.mp hstep with rfl | hstep
        · exact nullable_of_run x hs hd.left hu (by omega)
        · exact steps_nullable_of_run rest hsu hrest.left hw (by omega) step hstep

/-- A choice that consumes nothing has an alternative that is nullable. -/
theorem first_nullable_of_run (xs : List Expr) {s t : State} (hs : Sane env s) {start : Nat}
    (hstart : s.cursor = start)
    (hd : (firstDialogue env start xs s).Weighs (Nullable has) (answer env n)) {stop : Nat}
    {v : Value}
    (h : (firstDialogue env start xs s).run (answer env n) = .ok (.matched stop v) t)
    (hstop : stop = start) : ∃ x ∈ xs, x.Nullable has := by
  cases xs with
  | nil => cases h
  | cons x rest =>
    rw [firstDialogue] at hd h
    obtain ⟨o, u, hu, h⟩ := Dialogue.run_bind_ok h
    cases o with
    | matched stop' v' =>
      cases h
      exact ⟨x, List.mem_cons_self, nullable_of_run x hs hd.left hu (hstop.trans hstart.symm)⟩
    | failed =>
      obtain ⟨hsu, -⟩ := x.run_lands hs hu
      have hback : (u.moveTo env start).cursor = start := by
        rw [← hstart]
        exact moveTo_start hs.cursor u
      have hsane : Sane env (u.moveTo env start) := hsu.of_memo rfl (Nat.min_le_right ..)
      obtain ⟨y, hy, hnull⟩ := first_nullable_of_run rest hsane hback (hd.right hu) h hstop
      exact ⟨y, List.mem_cons_of_mem _ hy, hnull⟩

end

end

/-! ## Rules that are asked for -/

/-- A question inside a repetition is one of a match that begins where others have ended. -/
theorem reaches_of_collect (x : Expr) {count : Count} {budget : Nat} {key : Key} :
    ∀ {items : Array Value} {s : State}, Sane env s →
      (Dialogue.collect count (x.dialogue env) budget items s).Weighs null (answer env n) →
      (Dialogue.collect count (x.dialogue env) budget items s).Reaches (answer env n) key u →
      ∃ t, Sane env t ∧ s.cursor ≤ t.cursor ∧ (x.dialogue env t).Weighs null (answer env n) ∧
        (x.dialogue env t).Reaches (answer env n) key u := by
  induction budget with
  | zero => intro items s _ _ hu; cases hu
  | succ budget ih =>
    intro items s hs hd hu
    rw [Dialogue.collect] at hd hu
    split at hu
    · cases hu
    · rename_i hfull
      rw [if_neg hfull] at hd
      rcases hu.of_bind with hu | ⟨o, t, ht, hu⟩
      · exact ⟨s, hs, Nat.le_refl _, hd.left, hu⟩
      · obtain ⟨hst, hle⟩ := x.run_advances hs ht
        have hrest := hd.right ht
        cases o with
        | failed => cases hu
        | matched stop v =>
          dsimp only at hu hrest
          split at hu
          · cases hu
          · rename_i hstop
            rw [if_neg hstop] at hrest
            obtain ⟨w, hw, hle', hdw, huw⟩ := ih hst hrest hu
            exact ⟨w, hw, Nat.le_trans hle hle', hdw, huw⟩

section

variable {r : RuleId}

mutual

/-- A rule that an expression asks for stands at a place of it that is reached through steps that
consumed something or may match nothing. -/
theorem begins_of_reaches (hnull : Covers env n null) (x : Expr) {s : State} (hs : Sane env s)
    (hd : (x.dialogue env s).Weighs null (answer env n))
    (hu : (x.dialogue env s).Reaches (answer env n) (.rule r) u) :
    s.cursor ≤ u.cursor ∧ x.Begins (fun y => s.cursor < u.cursor ∨ null y) r := by
  cases x with
  | builtin c =>
    rw [dialogue] at hu
    cases hu with
    | there _ h => cases h
  | char test =>
    rw [dialogue] at hu
    cases hr : Matcher.char env test s <;> rw [hr] at hu <;> cases hu
  | literal length test =>
    rw [dialogue] at hu
    cases hr : Matcher.literal env length test s <;> rw [hr] at hu <;> cases hu
  | empty => rw [dialogue] at hu; cases hu
  | fail message => rw [dialogue] at hu; cases hu
  | position => rw [dialogue] at hu; cases hu
  | rule r' =>
    rw [dialogue] at hu
    cases hu with
    | here => exact ⟨Nat.le_refl _, rfl⟩
    | there _ h => cases h
  | optionalAs label x =>
    rw [dialogue] at hd hu
    rcases hu.of_bind with hu | ⟨o, t, -, hu⟩
    · exact begins_of_reaches hnull x hs hd.left hu
    · cases o <;> cases hu
  | repeatedAs label x count =>
    rw [dialogue] at hd hu
    rcases hu.of_bind with hu | ⟨items, t, -, hu⟩
    · obtain ⟨t, ht, hle, hdt, hut⟩ := x.reaches_of_collect hs hd.left hu
      obtain ⟨hle', hbegins⟩ := begins_of_reaches hnull x ht hdt hut
      -- what was consumed since a later round was consumed since the first one, too
      refine ⟨Nat.le_trans hle hle', Begins.mono (fun y hy => hy.imp_left fun hlt => ?_) x hbegins⟩
      exact Nat.lt_of_le_of_lt hle hlt
    · split at hu <;> cases hu
  | lookaheadAs label negated x =>
    rw [dialogue] at hd hu
    rcases hu.of_bind with hu | ⟨o, t, -, hu⟩
    · exact begins_of_reaches hnull x hs hd.left hu
    · split at hu <;> cases hu
  | sequenceAs label type steps build =>
    rw [dialogue] at hd hu
    rcases hu.of_bind with hu | ⟨slots, t, -, hu⟩
    · exact stepsBegin_of_reaches hnull steps hs hd.left hu
    · cases slots with
      | none => cases hu
      | some slots =>
        dsimp only at hu
        cases hb : build.apply slots <;> rw [hb] at hu <;> cases hu
  | choiceAs label xs =>
    rw [dialogue] at hd hu
    rcases hu.of_bind with hu | ⟨o, t, -, hu⟩
    · exact someBegins_of_reaches hnull xs hs rfl hd.left hu
    · cases o <;> cases hu
  | map type f x =>
    rw [dialogue] at hd hu
    rcases hu.of_bind with hu | ⟨o, t, -, hu⟩
    · exact begins_of_reaches hnull x hs hd.left hu
    · cases o <;> cases hu

/-- A rule that a step asks for stands behind steps that were passed: either something was consumed
or they are nullable. -/
theorem stepsBegin_of_reaches (hnull : Covers env n null) (steps : List (Step Expr)) {s : State}
    (hs : Sane env s)
    (hd : (stepsDialogue env steps s).Weighs null (answer env n))
    (hu : (stepsDialogue env steps s).Reaches (answer env n) (.rule r) u) :
    s.cursor ≤ u.cursor ∧ stepsBegin (fun y => s.cursor < u.cursor ∨ null y) r steps := by
  cases steps with
  | nil => rw [stepsDialogue] at hu; cases hu
  | cons step rest =>
    obtain ⟨x, store⟩ := step
    rw [stepsDialogue] at hd hu
    rcases hu.of_bind with hu | ⟨o, t, ht, hu⟩
    · obtain ⟨hle, hbegins⟩ := begins_of_reaches hnull x hs hd.left hu
      exact ⟨hle, Or.inl hbegins⟩
    · obtain ⟨hst, hland⟩ := x.run_lands hs ht
      have hrest := hd.right ht
      cases o with
      | failed => cases hu
      | matched stop v =>
        rcases hu.of_bind with hu | ⟨slots, w, -, hu⟩
        · obtain ⟨hcur, hle, -⟩ := hland
          obtain ⟨hle', hbegins⟩ := stepsBegin_of_reaches hnull rest hst hrest.left hu
          refine ⟨by omega, Or.inr ⟨?_, ?_⟩⟩
          · -- either the step consumed something, or it matched nothing
            by_cases hstop : stop = s.cursor
            · rw [hstop] at ht
              exact Or.inr (hnull x s t v hs hd.left ht)
            · exact Or.inl (by omega)
          · exact stepsBegin_mono (fun y hy => hy.imp_left fun hlt => by omega) rest hbegins
        · cases slots <;> cases hu

/-- A rule that an alternative asks for stands at the edge of this alternative. -/
theorem someBegins_of_reaches (hnull : Covers env n null) (xs : List Expr) {s : State}
    (hs : Sane env s) {start : Nat} (hstart : s.cursor = start)
    (hd : (firstDialogue env start xs s).Weighs null (answer env n))
    (hu : (firstDialogue env start xs s).Reaches (answer env n) (.rule r) u) :
    s.cursor ≤ u.cursor ∧ someBegins (fun y => s.cursor < u.cursor ∨ null y) r xs := by
  cases xs with
  | nil => rw [firstDialogue] at hu; cases hu
  | cons x rest =>
    rw [firstDialogue] at hd hu
    rcases hu.of_bind with hu | ⟨o, t, ht, hu⟩
    · obtain ⟨hle, hbegins⟩ := begins_of_reaches hnull x hs hd.left hu
      exact ⟨hle, Or.inl hbegins⟩
    · obtain ⟨hst, -⟩ := x.run_lands hs ht
      have hrest := hd.right ht
      cases o with
      | matched stop v => cases hu
      | failed =>
        have hback : (t.moveTo env start).cursor = start := by
          rw [← hstart]
          exact moveTo_start hs.cursor t
        have hsane : Sane env (t.moveTo env start) := hst.of_memo rfl (Nat.min_le_right ..)
        obtain ⟨hle, hbegins⟩ := someBegins_of_reaches hnull rest hsane hback hrest hu
        rw [hback, ← hstart] at hle hbegins
        exact ⟨hle, Or.inr hbegins⟩

end

end

/-- Nullability covers all matches of nothing, if the answers agree with it. -/
theorem covers_nullable (env : Env) (n : Nat) (has : RuleId → Expr → Prop) :
    Covers env n (Nullable has) := fun y _ _ _ hs hd h => y.nullable_of_run hs hd h rfl

theorem covers_true (env : Env) (n : Nat) : Covers env n fun _ => True :=
  fun _ _ _ _ _ _ _ => trivial

end Expr

end

end Packrat
