import Packrat.Eval

/-!
# Driving a run step by step

A session is a run whose steps are given from outside: expressions are evaluated at the cursor, and
cursor, failures and the mode for blanks can be changed between evaluations. What is remembered
stays for the whole session.
-/

namespace Packrat

/-- A run that is driven step by step. -/
structure Session where
  /-- What stays fixed. -/
  env : Env
  /-- What changes. -/
  state : State

/-- One step of a session, over expressions of type `α` and rules named by `ρ`. -/
inductive Command (ρ α : Type) where
  /-- Evaluates an expression at the cursor. -/
  | evaluate (x : α)
  /-- Gives a rule its body. -/
  | define (r : ρ) (x : α)
  /-- Moves the cursor forward. -/
  | advance (n : Nat)
  /-- Moves the cursor to a position. -/
  | moveTo (position : Nat)
  /-- Adds a failure at the cursor. -/
  | record (message : String)
  /-- Drops all failures. -/
  | clearFailures
  /-- Drops all but the oldest failures. -/
  | cutBack (height : Nat)
  /-- Switches the skipping of blanks on or off. -/
  | setSkipping (on : Bool)
  /-- Moves the cursor behind the blanks, if blanks are skipped. -/
  | skipBlanks
  /-- Asks for the text. -/
  | query

/-- The answer to a step. -/
inductive Reply where
  /-- The step has nothing to report. -/
  | done
  /-- The outcome of an evaluation. -/
  | outcome (o : Outcome Value)
  /-- The mode for blanks before it was changed. -/
  | skipping (before : Bool)
  /-- The text of the run. -/
  | text (text : String)
  /-- The step was refused. -/
  | refused (d : Defect)

/-- Carries out a step. -/
def Command.run (env : Env) : Command RuleId Expr → ParseM Reply
  | .evaluate x => do
    return .outcome (← x.evaluate env)
  | .define r x => do
    match (← get).grammar.define r x with
    | .ok grammar =>
      modify fun s => { s with grammar }
      return .done
    | .error d => return .refused d
  | .advance n => do
    modify (·.advance env n)
    return .done
  | .moveTo position => do
    modify (·.moveTo env position)
    return .done
  | .record message => do
    modify (·.record (.custom message))
    return .done
  | .clearFailures => do
    modify (·.cutBack 0)
    return .done
  | .cutBack height => do
    modify (·.cutBack height)
    return .done
  | .setSkipping on =>
    modifyGet fun s => (.skipping s.skipping, { s with skipping := on })
  | .skipBlanks => do
    modify (·.skipBlanks env)
    return .done
  | .query => return .text (String.ofList env.text.toList)

namespace Session

/-- A session at the start of a text. -/
def start (text : String) (config : Config) (grammar : Grammar) : Session :=
  let env := Env.ofText text config
  { env, state := .start env grammar }

/-- Carries out a step. A step that is halted leaves the changes it made. -/
def step (s : Session) (c : Command RuleId Expr) : Except Halt Reply × Session :=
  match c.run s.env s.state with
  | .ok reply state => (.ok reply, { s with state })
  | .error halt state => (.error halt, { s with state })

end Session

end Packrat
