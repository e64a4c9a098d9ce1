import Packrat.Proofs.Limit
import Packrat.Proofs.Visits

/-!
# Mode and depth in the scope of a rule

The mode for blanks and the number of open rules are fields of the state that every rule changes
when it is entered and puts back when it is left. Here is what comes of this: they have a dynamic
scope. Whatever is evaluated directly in the body of a rule is evaluated in the mode of that rule,
and the depth is the number of rules around it (`Expr.Visits.skipping`, `Expr.Visits.depth`).

In a session the depth is also what the events tell, so the limit bounds it
(`Session.logged_after`).
-/

namespace Packrat

/-- The mode inside the given rules, the innermost first; `outer` is the mode around all of them. -/
def Grammar.modeInside (g : Grammar) (outer : Bool) : List RuleId → Bool
  | [] => outer
  | r :: _ => g.skipsBlanks r

section

variable {env : Env} {n k : Nat} {x y : Expr} {s t u : State} {rules : List RuleId}

/-! ## Entering a body -/

theorem entering_skipping (s : State) (env : Env) (r : RuleId) :
    (s.entering env r).skipping = s.grammar.skipsBlanks r :=
  (State.Works.skipBlanks env { s with skipping := s.grammar.skipsBlanks r }).skipping

theorem entering_depth (s : State) (env : Env) (r : RuleId) :
    (s.entering env r).depth = s.depth :=
  (State.Works.skipBlanks env { s with skipping := s.grammar.skipsBlanks r }).depth

/-- A body is evaluated in the mode of its rule, with one more rule open. -/
theorem body_scope {r : RuleId}
    (hb : Matcher.body? r ((s.opened (.rule r)).entering env r) = .ok (some x) t) :
    t.skipping = s.grammar.skipsBlanks r ∧ t.depth = s.depth + 1 := by
  obtain ⟨-, g, es, rfl⟩ := Matcher.rebuilt_of_body? hb
  exact ⟨entering_skipping _ env r, entering_depth _ env r⟩

theorem Moves.grows (h : Moves env s t) : s.grammar.Grows t.grammar := by
  refine h.lift (R := fun s t => s.grammar.Grows t.grammar) (fun _ => .refl _) .trans ?_
  intro s t hm
  cases hm with
  | build r b hb => exact Matcher.built_grows hb
  | _ => exact .refl _

/-! ## Visits -/

namespace Expr.Visits

/-- As many rules more are open as there are around the visit. -/
theorem depth (h : x.Visits env n s rules k y t) : t.depth = s.depth + rules.length := by
  induction h with
  | here => rfl
  | part _ hp ih => rw [((Carried.restores env _).part hp).depth, ih]
  | body _ hk hl hb ih =>
    rw [(body_scope hb).2, ih, List.length_cons]
    omega

/-- The mode is that of the innermost rule around the visit. -/
theorem skipping (h : x.Visits env n s rules k y t) :
    t.skipping = s.grammar.modeInside s.skipping rules := by
  induction h with
  | here => rfl
  | part _ hp ih => rw [((Carried.restores env _).part hp).skipping, ih]
  | @body rules k r y t u h hk hl hb ih =>
    rw [(body_scope hb).1, h.moves.grows.skipsBlanks r]
    rfl

end Expr.Visits

/-- When a rule is left, it is still counted. -/
theorem produce_depth {r : RuleId} {o : Outcome Value}
    (h : produce env n (.rule r) (s.opened (.rule r)) = .ok o t) : t.depth = s.depth + 1 :=
  (produce_restores env n (.rule r) _ o t h).depth

/-! ## Sessions -/

theorem Logged.of_eq (h : Logged env s) (hd : t.depth = s.depth)
    (ho : t.overflowed = s.overflowed) (he : t.events = s.events) : Logged env t where
  depth := by rw [hd, he]; exact h.depth
  refused := by rw [ho, he]; exact h.refused
  bounded := by rw [he]; exact h.bounded

theorem Logged.depth_le (h : Logged env s) {limit : Nat} (hlim : env.limit = some limit) :
    s.depth ≤ limit := by
  rw [h.depth]
  exact Nat.le_trans (Event.openRules_le_deepest _) (h.bounded limit hlim)

/-- A step of a session leaves the events right about the depth. -/
theorem Command.logged (c : Command RuleId Expr) (h : Logged env s) :
    Logged env (Result.state (c.run env s)) := by
  have hworks : ∀ {t}, s.Works env t → Logged env t := fun hw => (Moves.of_works hw).logged h
  cases c with
  | evaluate x =>
    have hm := (Expr.evaluate_moves env x s).logged h
    rw [Command.run_evaluate]
    cases hr : x.evaluate env s with
    | ok o t => rw [hr] at hm; exact hm
    | error e t => rw [hr] at hm; exact hm
  | define r x =>
    rw [Command.run_define]
    cases s.grammar.define r x <;> exact h.of_eq rfl rfl rfl
  | advance k => exact hworks (.moveTo env s _)
  | moveTo p => exact hworks (.moveTo env s p)
  | record message => exact hworks (.record env s _)
  | clearFailures => exact hworks (.cutBack env s 0)
  | cutBack height => exact hworks (.cutBack env s height)
  | setSkipping on => exact h.of_eq rfl rfl rfl
  | skipBlanks => exact hworks (.skipBlanks env s)
  | query => exact h

theorem Session.env_after (s : Session) (cs : List (Command RuleId Expr)) :
    (s.after cs).env = s.env := by
  induction cs generalizing s with
  | nil => rfl
  | cons c cs ih =>
    change ((s.step c).2.after cs).env = s.env
    rw [ih, Session.step_eq]

theorem Session.logged_after (cs : List (Command RuleId Expr)) (h : Logged env s) :
    Logged env (Session.after ⟨env, s⟩ cs).state := by
  induction cs generalizing s with
  | nil => exact h
  | cons c cs ih =>
    change Logged env (Session.after ((Session.mk env s).step c).2 cs).state
    rw [Session.step_eq]
    exact ih (c.logged h)

end

/-- From every state of a session, an evaluation that returns leaves the mode, the depth, the text,
the blanks and the limit as it found them. The same holds of every evaluation inside of it. Each of
these happens in the mode of the innermost rule around it, and its depth is the number of rules
that were entered and not left: those around it and those that were open before, which is also what
the events tell. It is never above the limit, and where a rule is left it is not zero. -/
theorem Session.scopes_restored (text : String) (config : Config) (g : Grammar)
    (cs : List (Command RuleId Expr)) (x : Expr) :
    let session := (Session.start text config g).after cs
    let env := Env.ofText text config
    let s := session.state
    (session.env = env ∧ (session.step (.evaluate x)).2.env = env) ∧
    (∀ o t, x.evaluate env s = .ok o t → t.skipping = s.skipping ∧ t.depth = s.depth) ∧
    ∀ rules k y u, x.Visits env (headroom env s.grammar) s rules k y u →
      (∀ o t, y.matcher env (callRule env k) u = .ok o t →
        t.skipping = u.skipping ∧ t.depth = u.depth) ∧
      u.skipping = s.grammar.modeInside s.skipping rules ∧
      u.depth = s.depth + rules.length ∧
      u.depth = Event.openRules u.events.toList ∧
      (∀ limit, config.limit = some limit → u.depth ≤ limit) ∧
      ∀ r o t, produce env k (.rule r) (u.opened (.rule r)) = .ok o t → t.depth = u.depth + 1 := by
  intro session env s
  have henv : session.env = env := Session.env_after _ cs
  have hlog : Logged env s := Session.logged_after cs (logged_start env g)
  refine ⟨⟨henv, ?_⟩, fun o t h => ?_, fun rules k y u hv => ?_⟩
  · rw [Session.step_eq]
    exact henv
  · have hrest := Expr.evaluate_restores h
    exact ⟨hrest.skipping, hrest.depth⟩
  · have hlogu := hv.moves.logged hlog
    refine ⟨fun o t h => ?_, hv.skipping, hv.depth, hlogu.depth, fun limit hlim => ?_,
      fun r o t h => produce_depth h⟩
    · have hrest := (Carried.restores env k).matcher y h
      exact ⟨hrest.skipping, hrest.depth⟩
    · exact hlogu.depth_le hlim

/-- Inside a rule that begins with itself, at the limit and after a refusal: the digit is read in
the mode of its own rule, with both rules open, though around them blanks are not skipped. -/
theorem Session.scopes_restored_digit :
    let env := Env.ofText "7" { limit := some 2 }
    let s := State.start env .digits
    ∃ u, (Expr.rule ⟨1, "loop"⟩).Visits env (headroom env s.grammar) s
        [⟨0, "digit"⟩, ⟨1, "loop"⟩] 0 (.builtin .digit) u ∧
      u.overflowed = true ∧ s.skipping = false ∧ u.skipping = true ∧ u.depth = 2 := by
  intro env s
  obtain ⟨t, ht⟩ : ∃ t, Matcher.body? ⟨1, "loop"⟩ ((s.opened (.rule ⟨1, "loop"⟩)).entering env
      ⟨1, "loop"⟩) = .ok (some (.choice [.rule ⟨1, "loop"⟩, .rule ⟨0, "digit"⟩])) t := ⟨_, rfl⟩
  obtain ⟨u, hu⟩ : ∃ u, Matcher.firstOf env t.cursor (Expr.matchers env (callRule env 1)
      [.rule ⟨1, "loop"⟩]) t = .ok .failed u := by
    cases ht
    exact ⟨_, rfl⟩
  have hloop : (Expr.rule ⟨1, "loop"⟩).Visits env 2 s [⟨1, "loop"⟩] 1 (.rule ⟨0, "digit"⟩) u :=
    (Expr.Visits.here.body rfl rfl ht).part (.alternative _ _ [] hu)
  obtain ⟨w, hw⟩ : ∃ w, Matcher.body? ⟨0, "digit"⟩ ((u.opened (.rule ⟨0, "digit"⟩)).entering env
      ⟨0, "digit"⟩) = .ok (some (.builtin .digit)) w := by
    cases ht
    cases hu
    exact ⟨_, rfl⟩
  have hdigit := hloop.body (by cases ht; cases hu; rfl) (by cases ht; cases hu; rfl) hw
  obtain ⟨-, hskip, hdepth, -⟩ :=
    (Session.scopes_restored "7" { limit := some 2 } .digits [] (.rule ⟨1, "loop"⟩)).2.2
      _ _ _ _ hdigit
  refine ⟨w, hdigit, ?_, rfl, hskip, hdepth⟩
  cases ht
  cases hu
  cases hw
  rfl

end Packrat
