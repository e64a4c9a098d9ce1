import Packrat.Form.Grammar
import Packrat.Session

/-!
# Sessions as data

A script is a list of steps over described expressions. Each step is answered with the events it
caused and a view of the state after it; a step that is halted ends the script.
-/

namespace Packrat

/-- What can be seen of a session between two steps. -/
structure View where
  /-- The current position. -/
  cursor : Nat
  /-- Whether the whole text is behind the cursor. -/
  atEnd : Bool
  /-- Whether blanks are skipped. -/
  skipping : Bool
  /-- The number of remembered outcomes. -/
  remembered : Nat
  /-- The failures so far. -/
  failures : List Failure
  /-- What happened during the step. -/
  events : List Event

/-- The view of a session. -/
def Session.view (s : Session) : View where
  cursor := s.state.cursor
  atEnd := s.state.atEnd s.env
  skipping := s.state.skipping
  remembered := s.state.memo.size
  failures := s.state.failures.toList
  events := s.state.events.toList

/-- A step of a script. -/
abbrev ScriptStep := Command String Form

namespace Session

/-- Makes an expression over the rules of the session. -/
def build (s : Session) (x : Form) : Except BuildError Expr × Session :=
  let (result, grammar) := s.state.grammar.build x
  (result, { s with state := { s.state with grammar } })

/-- Makes the expression of a step and carries out the step with it. A defect that the making
reports is the answer to the step. -/
def stepWith (s : Session) (x : Form) (command : Expr → Command RuleId Expr) :
    Except Halt Reply × Session :=
  match s.build x with
  | (.ok x, s) => s.step (command x)
  | (.error (.defect d), s) => (.ok (.refused d), s)
  | (.error (.fault f), s) => (.error (.fault f), s)

/-- Carries out a step of a script. -/
def scriptStep (s : Session) : ScriptStep → Except Halt Reply × Session
  | .evaluate x => s.stepWith x .evaluate
  | .define name x =>
    match s.state.grammar.find? name with
    | some r => s.stepWith x (.define r)
    | none => (.error (.fault (.unknownName name)), s)
  | .advance n => s.step (.advance n)
  | .moveTo position => s.step (.moveTo position)
  | .record message => s.step (.record message)
  | .clearFailures => s.step .clearFailures
  | .cutBack height => s.step (.cutBack height)
  | .setSkipping on => s.step (.setSkipping on)
  | .skipBlanks => s.step .skipBlanks
  | .query => s.step .query

/-- The session with no events noted. -/
def forgetEvents (s : Session) : Session := { s with state := { s.state with events := #[] } }

/-- Carries out a script. -/
def runScript (s : Session) : List ScriptStep → List (Except Halt (Reply × View))
  | [] => []
  | step :: rest =>
    match s.forgetEvents.scriptStep step with
    | (.ok reply, s) => .ok (reply, s.view) :: s.runScript rest
    | (.error halt, _) => [.error halt]

end Session

end Packrat
