import Packrat.Matcher.Basic

/-!
# Rules

A rule has its own mode for blanks, which holds inside its body only. Its outcome does not depend on
who refers to it, so it is remembered before the blanks of the caller are skipped.
-/

namespace Packrat.Matcher

/-- The body of a rule, if it has one. A body that is built on first use is built now and kept; if
that stops with a fault, the next use tries again. -/
def body? (r : RuleId) : ParseM (Option Expr) := do
  match (← get).grammar.body r with
  | .undefined => return none
  | .defined x => return some x
  | .delayed build =>
    let (result, handles) ← call build (fun _ => "build") (← get).grammar.handles
    modify fun s => { s with grammar := { s.grammar with handles } }
    match result with
    | .ok x =>
      modify fun s => { s with grammar := s.grammar.setBody r x }
      return some x
    | .error f => throw (.fault f)

/-- Evaluates the body of a rule by `eval`, in the rule's own mode for blanks. -/
def enterBody (env : Env) (eval : Expr → Matcher) (r : RuleId) : Matcher := do
  let start := (← get).cursor
  let outer ← modifyGet fun s =>
    (s.skipping, { s with skipping := s.grammar.skipsBlanks r }.skipBlanks env)
  let outcome ← match ← body? r with
    | some x => eval x
    | none => fail (.undefined r.label)
  modify fun s => { s with skipping := outer }
  match outcome with
  | .matched stop v => return .matched stop v
  | .failed =>
    modify (·.moveTo env start)
    fail (.wrong r.label)

/-- Evaluates a rule whose body is run by `body`, unless its outcome at the cursor is remembered or
too many rules are open. -/
def rule (env : Env) (body : Matcher) (r : RuleId) : Matcher := do
  let start := (← get).cursor
  match (← get).known? env (.rule r) with
  | some entry =>
    let outcome ← replay entry
    modify (·.emit (if outcome.isMatched then .cachedMatch r start else .cachedFail r start))
    skippingBlanks env outcome
  | none =>
    if (← get).atLimit env then
      modify fun s => { s with overflowed := true }.emit (.limitReached r start)
      fail (.tooDeep r.label)
    else
      modify fun s => { s with depth := s.depth + 1 }.emit (.attempt r start)
      let outcome ← remembering env (.rule r) body
      modify fun s => { s with depth := s.depth - 1 }.emit <|
        match outcome with
        | .matched stop _ => .matched r start stop
        | .failed => .failed r start
      skippingBlanks env outcome

end Packrat.Matcher
