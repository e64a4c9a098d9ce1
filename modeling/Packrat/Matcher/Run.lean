import Packrat.Matcher.Composite
import Packrat.Matcher.Rule
import Packrat.Matcher.Terminal

/-!
# Running matchers

What the actions of `ParseM` and the matchers do when they are run on a state. A matcher is unfolded
here once; later statements about runs cite these equations.
-/

namespace Packrat

namespace ParseM

variable {α β : Type}

@[simp] theorem run_pure (a : α) (s : State) : (pure a : ParseM α) s = .ok a s := rfl

/-- Of two actions in a row, the second one is run only if the first one is not halted. -/
@[simp] theorem run_bind (m : ParseM α) (f : α → ParseM β) (s : State) :
    (m >>= f) s = match m s with
      | .ok a t => f a t
      | .error h t => .error h t := by
  change EStateM.bind m f s = _
  unfold EStateM.bind
  cases m s <;> rfl

@[simp] theorem run_get (s : State) : (get : ParseM State) s = .ok s s := rfl

@[simp] theorem run_modify (f : State → State) (s : State) :
    (modify f : ParseM Unit) s = .ok () (f s) := rfl

@[simp] theorem run_modifyGet (f : State → α × State) (s : State) :
    (modifyGet f : ParseM α) s = .ok (f s).1 (f s).2 := rfl

@[simp] theorem run_throw (h : Halt) (s : State) : (throw h : ParseM α) s = .error h s := rfl

end ParseM

namespace Matcher

/-! ## Basic actions -/

@[simp] theorem run_fail (cause : Cause) (s : State) :
    fail cause s = .ok .failed (s.record cause) := rfl

@[simp] theorem run_succeed (v : Value) (s : State) :
    succeed v s = .ok (.matched s.cursor v) s := rfl

@[simp] theorem run_call {α β : Type} (f : Hook α β) (text : α → String) (a : α) (s : State) :
    call f text a s = .ok (f.apply a) (s.note f.journal text a) := rfl

@[simp] theorem run_skippingBlanks_matched (env : Env) (stop : Nat) (v : Value) (s : State) :
    skippingBlanks env (.matched stop v) s =
      .ok (.matched (s.skipBlanks env).cursor v) (s.skipBlanks env) := rfl

@[simp] theorem run_skippingBlanks_failed (env : Env) (s : State) :
    skippingBlanks env .failed s = .ok .failed s := rfl

@[simp] theorem run_replay_success (stop : Nat) (v : Value) (s : State) :
    replay (.success stop v) s = .ok (.matched stop v) { s with cursor := stop } := rfl

@[simp] theorem run_replay_failure (failures : Array Failure) (s : State) :
    replay (.failure failures) s =
      .ok .failed { s with failures := s.failures ++ failures } := rfl

/-- What is remembered is evaluated on an empty stack of failures. Settling its outcome puts the
failures from before back under those of the evaluation. -/
theorem run_remembering (env : Env) (key : Key) (m : Matcher) (s : State) :
    remembering env key m s = match m { s with failures := #[] } with
      | .ok outcome t => .ok outcome (t.settle env key s.cursor s.failures outcome)
      | .error h t => .error h t := by
  simp only [remembering, ParseM.run_bind, ParseM.run_get, ParseM.run_modifyGet]
  cases m { s with failures := #[] } <;> rfl

/-! ## Terminals -/

/-- Where there is a character, the test is called on it once and decides. -/
theorem run_scan (env : Env) (label : String) (test : Hook Char Bool) (s : State) :
    scan env label test s = match env.text[s.cursor]? with
      | none => .ok .failed (s.record (.tooShort label))
      | some c =>
        let t := s.note test.journal Char.toString c
        if test.apply c then .ok (.matched (t.advance env 1).cursor (.char c)) (t.advance env 1)
        else .ok .failed (t.record (.wrong label)) := by
  simp only [scan, ParseM.run_bind, ParseM.run_get]
  cases env.text[s.cursor]? with
  | none => rfl
  | some c => simp only [ParseM.run_bind, run_call]; split <;> rfl

/-- A built-in class that is remembered is not read again; only the blanks behind it are skipped
anew. -/
theorem run_builtin_known (env : Env) (c : CharClass) (s : State) {entry : Entry}
    (h : s.known? env (.builtin c) = some entry) :
    builtin env c s = match replay entry s with
      | .ok outcome t => skippingBlanks env outcome t
      | .error h t => .error h t := by
  simp only [builtin, ParseM.run_bind, ParseM.run_get, h]
  cases replay entry s <;> rfl

/-- A built-in class is remembered without the blanks behind it, which depend on the caller. -/
theorem run_builtin_unknown (env : Env) (c : CharClass) (s : State)
    (h : s.known? env (.builtin c) = none) :
    builtin env c s =
      match remembering env (.builtin c) (scan env c.label { apply := c.holds }) s with
      | .ok outcome t => skippingBlanks env outcome t
      | .error h t => .error h t := by
  simp only [builtin, ParseM.run_bind, ParseM.run_get, h]
  cases remembering env (.builtin c) (scan env c.label { apply := c.holds }) s <;> rfl

/-- Where there are enough characters, the test is called on them once and decides. -/
theorem run_literal (env : Env) (length : Nat) (test : Hook String Bool) (s : State) :
    literal env length test s = match env.slice? s.cursor length with
      | none => .ok .failed (s.record (.tooShort "Literal"))
      | some text =>
        let t := s.note test.journal id text
        if test.apply text then
          let u := (t.advance env length).skipBlanks env
          .ok (.matched u.cursor (.str text)) u
        else .ok .failed (t.record (.wrong "Literal")) := by
  simp only [literal, ParseM.run_bind, ParseM.run_get]
  cases env.slice? s.cursor length with
  | none => rfl
  | some text => simp only [ParseM.run_bind, run_call]; split <;> rfl

@[simp] theorem run_position (s : State) :
    position s = .ok (.matched s.cursor (.int s.cursor)) s := rfl

/-! ## Composites -/

/-- An option drops the failures of its part, which fails where it began. -/
theorem run_optional (m : Matcher) (s : State) :
    optional m s = match m s with
      | .ok (.matched _ v) t => .ok (.matched t.cursor (.some v)) (t.cutBack s.failures.size)
      | .ok .failed t => .ok (.matched t.cursor .none) (t.cutBack s.failures.size)
      | .error h t => .error h t := by
  simp only [optional, ParseM.run_bind, ParseM.run_get]
  cases m s with
  | ok outcome t => cases outcome <;> rfl
  | error h t => rfl

/-- One round of the loop of a repetition. It ends where the count is full, where an attempt fails,
and where an attempt consumes nothing although there are enough items. -/
theorem run_collect_succ (count : Count) (m : Matcher) (budget : Nat) (items : Array Value)
    (s : State) :
    collect count m (budget + 1) items s =
      if count.isFull items.size then .ok items s
      else match m s with
        | .ok .failed t => .ok items t
        | .ok (.matched stop v) t =>
          if stop = s.cursor ∧ count.least ≤ (items.push v).size then .ok (items.push v) t
          else collect count m budget (items.push v) t
        | .error h t => .error h t := by
  rw [collect]
  split
  · rfl
  · simp only [ParseM.run_bind, ParseM.run_get]
    cases m s with
    | error h t => rfl
    | ok outcome t =>
      cases outcome with
      | failed => rfl
      | matched stop v => dsimp only; split <;> rfl

/-- A repetition fails if its loop has collected too few items. The loop has more attempts than it
can use: behind the least number of items each of them consumes a character. -/
theorem run_repeated (env : Env) (label : String) (count : Count) (m : Matcher) (s : State) :
    repeated env label count m s =
      match collect count m (count.least + (env.length - s.cursor) + 1) #[] s with
      | .ok items t =>
        if count.least ≤ items.size then
          .ok (.matched t.cursor (.list items.toList)) (t.cutBack s.failures.size)
        else .ok .failed ((t.moveTo env s.cursor).record (.tooFew label items.size))
      | .error h t => .error h t := by
  simp only [repeated, ParseM.run_bind, ParseM.run_get]
  cases collect count m (count.least + (env.length - s.cursor) + 1) #[] s with
  | error h t => rfl
  | ok items t => dsimp only; split <;> rfl

/-- A lookahead goes back to where it began, whatever its part came to. -/
theorem run_lookahead (env : Env) (label : String) (negated : Bool) (m : Matcher) (s : State) :
    lookahead env label negated m s = match m s with
      | .ok outcome t =>
        if outcome.isMatched = negated then
          .ok .failed ((t.moveTo env s.cursor).record (.wrong label))
        else .ok (.matched s.cursor .unit) ((t.moveTo env s.cursor).cutBack s.failures.size)
      | .error h t => .error h t := by
  simp only [lookahead, ParseM.run_bind, ParseM.run_get]
  cases m s with
  | error h t => rfl
  | ok outcome t => dsimp only [ParseM.run_modify]; split <;> rfl

@[simp] theorem run_runSteps_nil (s : State) : runSteps [] s = .ok (some []) s := rfl

/-- The other steps are evaluated from where the first one has left off, and only if it has matched.
-/
theorem run_runSteps_cons (step : Step Matcher) (rest : List (Step Matcher)) (s : State) :
    runSteps (step :: rest) s = match step.body s with
      | .ok .failed t => .ok none t
      | .ok (.matched _ v) t =>
        match runSteps rest t with
        | .ok none u => .ok none u
        | .ok (some slots) u => .ok (some (step.store.map (⟨·, v⟩) :: slots)) u
        | .error h u => .error h u
      | .error h t => .error h t := by
  rw [runSteps, ParseM.run_bind]
  cases step.body s with
  | error h t => rfl
  | ok outcome t =>
    cases outcome with
    | failed => rfl
    | matched stop v =>
      simp only [ParseM.run_bind]
      cases runSteps rest t with
      | error h u => rfl
      | ok slots u => cases slots <;> rfl

/-- The build function is called once, on the slots of all steps and after the failures of the steps
were dropped. -/
theorem run_sequence (env : Env) (label : String) (steps : List (Step Matcher))
    (build : Hook Slots (Except Fault Value)) (s : State) :
    sequence env label steps build s = match runSteps steps s with
      | .ok none t => .ok .failed ((t.moveTo env s.cursor).record (.wrong label))
      | .ok (some slots) t =>
        let u := (t.cutBack s.failures.size).note build.journal (fun _ => "run") slots
        match build.apply slots with
        | .ok v => .ok (.matched u.cursor v) u
        | .error f => .error (.fault f) u
      | .error h t => .error h t := by
  simp only [sequence, ParseM.run_bind, ParseM.run_get]
  cases runSteps steps s with
  | error h t => rfl
  | ok slots t =>
    cases slots with
    | none => rfl
    | some slots =>
      simp only [ParseM.run_bind, ParseM.run_modify, run_call]
      cases build.apply slots <;> rfl

@[simp] theorem run_firstOf_nil (env : Env) (start : Nat) (s : State) :
    firstOf env start [] s = .ok .failed s := rfl

/-- An alternative that fails leaves its failures; the others begin where it began. -/
theorem run_firstOf_cons (env : Env) (start : Nat) (m : Matcher) (rest : List Matcher)
    (s : State) :
    firstOf env start (m :: rest) s = match m s with
      | .ok (.matched stop v) t => .ok (.matched stop v) t
      | .ok .failed t => firstOf env start rest (t.moveTo env start)
      | .error h t => .error h t := by
  rw [firstOf, ParseM.run_bind]
  cases m s with
  | error h t => rfl
  | ok outcome t => cases outcome <;> rfl

/-- A choice drops the failures of the alternatives in front of the one that has matched. -/
theorem run_choice (env : Env) (label : String) (alternatives : List Matcher) (s : State) :
    choice env label alternatives s = match firstOf env s.cursor alternatives s with
      | .ok (.matched stop v) t => .ok (.matched stop v) (t.cutBack s.failures.size)
      | .ok .failed t => .ok .failed (t.record (.wrong label))
      | .error h t => .error h t := by
  simp only [choice, ParseM.run_bind, ParseM.run_get]
  cases firstOf env s.cursor alternatives s with
  | error h t => rfl
  | ok outcome t => cases outcome <;> rfl

/-- A transformation is called once, on the value of a match, and changes nothing else. -/
theorem run_map (f : Hook Value Value) (m : Matcher) (s : State) :
    map f m s = match m s with
      | .ok (.matched stop v) t =>
        .ok (.matched stop (f.apply v)) (t.note f.journal Value.display v)
      | .ok .failed t => .ok .failed t
      | .error h t => .error h t := by
  rw [map, ParseM.run_bind]
  cases m s with
  | error h t => rfl
  | ok outcome t =>
    cases outcome with
    | failed => rfl
    | matched stop v => simp only [ParseM.run_bind, run_call, ParseM.run_pure]

/-! ## Rules -/

/-- A body is evaluated in the mode of its rule, behind the blanks there; afterwards the mode of the
caller is back. A rule that fails goes back to the start. -/
theorem run_enterBody (env : Env) (eval : Expr → Matcher) (r : RuleId) (s : State) :
    enterBody env eval r s =
      match body? r ({ s with skipping := s.grammar.skipsBlanks r }.skipBlanks env) with
      | .error h t => .error h t
      | .ok x t =>
        match (match x with
          | some x => eval x
          | none => fail (.undefined r.label)) t with
        | .ok (.matched stop v) u => .ok (.matched stop v) { u with skipping := s.skipping }
        | .ok .failed u =>
          .ok .failed (({ u with skipping := s.skipping }.moveTo env s.cursor).record
            (.wrong r.label))
        | .error h u => .error h u := by
  simp only [enterBody, ParseM.run_bind, ParseM.run_get, ParseM.run_modifyGet]
  cases body? r ({ s with skipping := s.grammar.skipsBlanks r }.skipBlanks env) with
  | error h t => rfl
  | ok x t =>
    cases x with
    | none => rfl
    | some x =>
      dsimp only
      rw [ParseM.run_bind]
      cases eval x t with
      | error h u => rfl
      | ok outcome u => cases outcome <;> rfl

/-- A rule that is remembered is not opened again; only the blanks behind it are skipped anew. -/
theorem run_rule_known (env : Env) (body : Matcher) (r : RuleId) (s : State) {entry : Entry}
    (h : s.known? env (.rule r) = some entry) :
    rule env body r s = match replay entry s with
      | .ok outcome t =>
        skippingBlanks env outcome (t.emit
          (if outcome.isMatched then .cachedMatch r s.cursor else .cachedFail r s.cursor))
      | .error h t => .error h t := by
  simp only [rule, ParseM.run_bind, ParseM.run_get, h]
  cases replay entry s <;> rfl

/-- A rule that would be one too many fails where it stands, and nothing is remembered of it. -/
theorem run_rule_atLimit (env : Env) (body : Matcher) (r : RuleId) (s : State)
    (h : s.known? env (.rule r) = none) (hl : s.atLimit env = true) :
    rule env body r s = .ok .failed
      (({ s with overflowed := true }.emit (.limitReached r s.cursor)).record
        (.tooDeep r.label)) := by
  simp only [rule, ParseM.run_bind, ParseM.run_get, h, hl, if_true]
  rfl

/-- A rule that is neither remembered nor refused counts as open while its body is evaluated. What
it comes to is remembered before the blanks behind it are skipped. -/
theorem run_rule_enter (env : Env) (body : Matcher) (r : RuleId) (s : State)
    (h : s.known? env (.rule r) = none) (hl : s.atLimit env = false) :
    rule env body r s =
      match remembering env (.rule r) body
        ({ s with depth := s.depth + 1 }.emit (.attempt r s.cursor)) with
      | .ok outcome t =>
        skippingBlanks env outcome ({ t with depth := t.depth - 1 }.emit <|
          match outcome with
          | .matched stop _ => .matched r s.cursor stop
          | .failed => .failed r s.cursor)
      | .error h t => .error h t := by
  simp only [rule, ParseM.run_bind, ParseM.run_get, h, hl, Bool.false_eq_true, if_false,
    ParseM.run_modify]
  cases remembering env (.rule r) body
    ({ s with depth := s.depth + 1 }.emit (.attempt r s.cursor)) <;> rfl

end Matcher

end Packrat
