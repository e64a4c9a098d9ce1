import Packrat.Eval
import Packrat.Matcher.Run

/-!
# Evaluations as dialogues

An expression works on the cursor and the failures by itself. For everything else it asks: what does
this rule, or this built-in class, do here? A `Dialogue` is the tree of these questions, one branch
for every answer, and `Expr.dialogue` is the dialogue of an expression. Running it with the answers
of `callRule` gives back the matcher (`Expr.matcher_eq_run`).

The grammar, the memo, the mode, the depth and the overflow flag change inside the answers only, so
a statement about how runs treat them is an induction over dialogues, with one case for a question.
-/

namespace Packrat

/-- What a run of `ParseM` comes to. -/
abbrev Result (α : Type) := EStateM.Result Halt State α

namespace Result

variable {α : Type}

/-- The state in which a run ends, also where it is halted. -/
def state : Result α → State
  | .ok _ s => s
  | .error _ s => s

@[simp] theorem state_ok (a : α) (s : State) : state (.ok a s) = s := rfl

@[simp] theorem state_error (h : Halt) (s : State) : state (.error h s : Result α) = s := rfl

/-- The run was halted because too many rules were open. -/
def Exhausted : Result α → Prop
  | .error .exhausted _ => True
  | _ => False

instance : DecidablePred (@Exhausted α)
  | .error .exhausted _ => isTrue trivial
  | .error (.fault _) _ => isFalse id
  | .ok _ _ => isFalse id

@[simp] theorem exhausted_ok (a : α) (s : State) : ¬ Exhausted (.ok a s) := id

@[simp] theorem exhausted_error (h : Halt) (s : State) :
    Exhausted (.error h s : Result α) ↔ h = .exhausted := by
  cases h <;> simp [Exhausted]

theorem Exhausted.eq {r : Result α} (h : Exhausted r) : ∃ s, r = .error .exhausted s := by
  cases r with
  | ok a s => exact absurd h (exhausted_ok a s)
  | error e s => exact ⟨s, by rw [(exhausted_error e s).mp h]⟩

/-- The run was not halted, and what it came to passes a test. -/
def meets (test : α → State → Bool) : Result α → Bool
  | .ok a s => test a s
  | .error _ _ => false

/-- A run that meets a test has an outcome, which passes it. -/
theorem exists_of_meets {test : α → State → Bool} {r : Result α} (h : meets test r = true) :
    ∃ a s, r = .ok a s ∧ test a s = true := by
  cases r with
  | ok a s => exact ⟨a, s, rfl, h⟩
  | error e s => cases h

end Result

/-- An evaluation as a tree of questions. -/
inductive Dialogue (α : Type) where
  /-- The evaluation ends. -/
  | done (a : α) (s : State)
  /-- The evaluation is halted. -/
  | halt (h : Halt) (s : State)
  /-- The evaluation asks for the outcome of a key at the cursor of `s`, and goes on with it. -/
  | ask (key : Key) (s : State) (next : Outcome Value → State → Dialogue α)

namespace Dialogue

variable {α β : Type}

/-- A dialogue without questions. -/
def ofResult : Result α → Dialogue α
  | .ok a s => .done a s
  | .error h s => .halt h s

/-- Two dialogues one after the other. -/
def bind : Dialogue α → (α → State → Dialogue β) → Dialogue β
  | .done a s, f => f a s
  | .halt h s, _ => .halt h s
  | .ask key s next, f => .ask key s fun o t => (next o t).bind f

/-- Carries out a dialogue with the given answers. -/
def run (answer : Key → Matcher) : Dialogue α → Result α
  | .done a s => .ok a s
  | .halt h s => .error h s
  | .ask key s next =>
    match answer key s with
    | .ok o t => (next o t).run answer
    | .error h t => .error h t

@[simp] theorem run_ofResult (answer : Key → Matcher) (r : Result α) :
    (ofResult r).run answer = r := by
  cases r <;> rfl

theorem run_ask (answer : Key → Matcher) (key : Key) (s : State)
    (next : Outcome Value → State → Dialogue α) :
    (ask key s next).run answer = match answer key s with
      | .ok o t => (next o t).run answer
      | .error h t => .error h t := by
  rw [run]

/-- Two dialogues in a row are run one after the other, with the same answers. -/
theorem run_bind (answer : Key → Matcher) (d : Dialogue α) (f : α → State → Dialogue β) :
    (d.bind f).run answer = match d.run answer with
      | .ok a s => (f a s).run answer
      | .error h s => .error h s := by
  induction d with
  | done a s => rfl
  | halt h s => rfl
  | ask key s next ih =>
    simp only [bind, run]
    cases answer key s with
    | ok o t => exact ih o t
    | error h t => rfl

/-- The dialogue of a loop that collects matches behind `items`. -/
def collect (count : Count) (d : State → Dialogue (Outcome Value)) :
    (budget : Nat) → (items : Array Value) → State → Dialogue (Array Value)
  | 0, _, s => .halt .exhausted s
  | budget + 1, items, s =>
    if count.isFull items.size then .done items s
    else (d s).bind fun
      | .failed, t => .done items t
      | .matched stop v, t =>
        if stop = s.cursor ∧ count.least ≤ (items.push v).size then .done (items.push v) t
        else collect count d budget (items.push v) t

/-- The loop of a repetition is the dialogue of its part, over and over again. -/
theorem run_collect (answer : Key → Matcher) {count : Count} {m : Matcher}
    {d : State → Dialogue (Outcome Value)} (hd : ∀ s, m s = (d s).run answer) (budget : Nat)
    (items : Array Value) (s : State) :
    Matcher.collect count m budget items s = (collect count d budget items s).run answer := by
  induction budget generalizing items s with
  | zero => rfl
  | succ budget ih =>
    rw [Matcher.run_collect_succ, collect]
    split
    · rfl
    · rw [run_bind, ← hd s]
      cases m s with
      | error h t => rfl
      | ok o t =>
        cases o with
        | failed => rfl
        | matched stop v =>
          dsimp only
          split
          · rfl
          · exact ih (items.push v) t

end Dialogue

namespace Expr

open Dialogue (ofResult)

mutual

/-- The dialogue of an expression. -/
def dialogue (env : Env) : Expr → State → Dialogue (Outcome Value)
  | .builtin c, s => .ask (.builtin c) s .done
  | .char test, s => ofResult (Matcher.char env test s)
  | .literal length test, s => ofResult (Matcher.literal env length test s)
  | .empty, s => .done (.matched s.cursor .unit) s
  | .fail message, s => .done .failed (s.record (.custom message))
  | .position, s => .done (.matched s.cursor (.int s.cursor)) s
  | .rule r, s => .ask (.rule r) s .done
  | .optionalAs _ x, s => (x.dialogue env s).bind fun
    | .matched _ v, t => .done (.matched t.cursor (.some v)) (t.cutBack s.failures.size)
    | .failed, t => .done (.matched t.cursor .none) (t.cutBack s.failures.size)
  | .repeatedAs label x count, s =>
    (Dialogue.collect count (x.dialogue env) (count.least + (env.length - s.cursor) + 1) #[] s).bind
      fun items t =>
        if count.least ≤ items.size then
          .done (.matched t.cursor (.list items.toList)) (t.cutBack s.failures.size)
        else .done .failed ((t.moveTo env s.cursor).record (.tooFew label items.size))
  | .lookaheadAs label negated x, s => (x.dialogue env s).bind fun o t =>
    if o.isMatched = negated then .done .failed ((t.moveTo env s.cursor).record (.wrong label))
    else .done (.matched s.cursor .unit) ((t.moveTo env s.cursor).cutBack s.failures.size)
  | .sequenceAs label _ steps build, s => (stepsDialogue env steps s).bind fun
    | none, t => .done .failed ((t.moveTo env s.cursor).record (.wrong label))
    | some slots, t =>
      let u := (t.cutBack s.failures.size).note build.journal (fun _ => "run") slots
      match build.apply slots with
      | .ok v => .done (.matched u.cursor v) u
      | .error f => .halt (.fault f) u
  | .choiceAs label xs, s => (firstDialogue env s.cursor xs s).bind fun
    | .matched stop v, t => .done (.matched stop v) (t.cutBack s.failures.size)
    | .failed, t => .done .failed (t.record (.wrong label))
  | .map _ f x, s => (x.dialogue env s).bind fun
    | .matched stop v, t => .done (.matched stop (f.apply v)) (t.note f.journal Value.display v)
    | .failed, t => .done .failed t

/-- The dialogue of the steps of a sequence. -/
def stepsDialogue (env : Env) : List (Step Expr) → State → Dialogue (Option Slots)
  | [], s => .done (some []) s
  | ⟨x, store⟩ :: rest, s => (x.dialogue env s).bind fun
    | .failed, t => .done none t
    | .matched _ v, t => (stepsDialogue env rest t).bind fun
      | none, u => .done none u
      | some slots, u => .done (some (store.map (⟨·, v⟩) :: slots)) u

/-- The dialogue of the alternatives of a choice that begins at `start`. -/
def firstDialogue (env : Env) (start : Nat) : List Expr → State → Dialogue (Outcome Value)
  | [], s => .done .failed s
  | x :: rest, s => (x.dialogue env s).bind fun
    | .matched stop v, t => .done (.matched stop v) t
    | .failed, t => firstDialogue env start rest (t.moveTo env start)

end

end Expr

/-- The answers to the questions of a dialogue, where `call` evaluates rules. -/
def answers (env : Env) (call : RuleId → Matcher) : Key → Matcher
  | .builtin c => .builtin env c
  | .rule r => call r

namespace Expr

variable (env : Env) (call : RuleId → Matcher)

mutual

/-- The matcher of an expression is its dialogue, carried out. -/
theorem matcher_eq_run (x : Expr) (s : State) :
    x.matcher env call s = (x.dialogue env s).run (answers env call) := by
  cases x with
  | builtin c =>
    simp only [matcher, dialogue, Dialogue.run_ask, answers]
    cases Matcher.builtin env c s <;> rfl
  | char test => simp only [matcher, dialogue, Dialogue.run_ofResult]
  | literal length test => simp only [matcher, dialogue, Dialogue.run_ofResult]
  | empty => simp only [matcher, dialogue, Matcher.run_succeed, Dialogue.run]
  | fail message => simp only [matcher, dialogue, Matcher.run_fail, Dialogue.run]
  | position => simp only [matcher, dialogue, Matcher.run_position, Dialogue.run]
  | rule r =>
    simp only [matcher, dialogue, Dialogue.run_ask, answers]
    cases call r s <;> rfl
  | optionalAs label x =>
    rw [matcher, dialogue, Matcher.run_optional, Dialogue.run_bind, matcher_eq_run x s]
    cases (x.dialogue env s).run (answers env call) with
    | error h t => rfl
    | ok o t => cases o <;> rfl
  | repeatedAs label x count =>
    rw [matcher, dialogue, Matcher.run_repeated, Dialogue.run_bind,
      Dialogue.run_collect (answers env call) (matcher_eq_run x)]
    cases (Dialogue.collect count (x.dialogue env) (count.least + (env.length - s.cursor) + 1) #[]
      s).run (answers env call) with
    | error h t => rfl
    | ok items t => dsimp only; split <;> rfl
  | lookaheadAs label negated x =>
    rw [matcher, dialogue, Matcher.run_lookahead, Dialogue.run_bind, matcher_eq_run x s]
    cases (x.dialogue env s).run (answers env call) with
    | error h t => rfl
    | ok o t => dsimp only; split <;> rfl
  | sequenceAs label type steps build =>
    rw [matcher, dialogue, Matcher.run_sequence, Dialogue.run_bind, runSteps_eq_run steps s]
    cases (stepsDialogue env steps s).run (answers env call) with
    | error h t => rfl
    | ok slots t =>
      cases slots with
      | none => rfl
      | some slots => dsimp only; cases build.apply slots <;> rfl
  | choiceAs label xs =>
    rw [matcher, dialogue, Matcher.run_choice, Dialogue.run_bind, firstOf_eq_run xs s.cursor s]
    cases (firstDialogue env s.cursor xs s).run (answers env call) with
    | error h t => rfl
    | ok o t => cases o <;> rfl
  | map type f x =>
    rw [matcher, dialogue, Matcher.run_map, Dialogue.run_bind, matcher_eq_run x s]
    cases (x.dialogue env s).run (answers env call) with
    | error h t => rfl
    | ok o t => cases o <;> rfl

/-- The steps of a sequence do what their dialogue does with the answers of `call`. -/
theorem runSteps_eq_run (steps : List (Step Expr)) (s : State) :
    Matcher.runSteps (stepMatchers env call steps) s =
      (stepsDialogue env steps s).run (answers env call) := by
  cases steps with
  | nil => rfl
  | cons step rest =>
    obtain ⟨x, store⟩ := step
    rw [stepMatchers, stepsDialogue, Matcher.run_runSteps_cons, Dialogue.run_bind]
    dsimp only
    rw [matcher_eq_run x s]
    cases (x.dialogue env s).run (answers env call) with
    | error h t => rfl
    | ok o t =>
      cases o with
      | failed => rfl
      | matched stop v =>
        dsimp only
        rw [runSteps_eq_run rest t, Dialogue.run_bind]
        cases (stepsDialogue env rest t).run (answers env call) with
        | error h u => rfl
        | ok slots u => cases slots <;> rfl

/-- The alternatives of a choice do what their dialogue does with the answers of `call`. -/
theorem firstOf_eq_run (xs : List Expr) (start : Nat) (s : State) :
    Matcher.firstOf env start (matchers env call xs) s =
      (firstDialogue env start xs s).run (answers env call) := by
  cases xs with
  | nil => rfl
  | cons x rest =>
    rw [matchers, firstDialogue, Matcher.run_firstOf_cons, Dialogue.run_bind, matcher_eq_run x s]
    cases (x.dialogue env s).run (answers env call) with
    | error h t => rfl
    | ok o t =>
      cases o with
      | failed => exact firstOf_eq_run rest start (t.moveTo env start)
      | matched stop v => rfl

end

end Expr

end Packrat
