import Packrat.Eval

/-!
# Parsing a whole text

A rule parses a text if it matches at the start and nothing is left. A match that stops early is
rejected at the place where it stopped.
-/

namespace Packrat

/-- Matches a rule at the start of the text and requires that the text ends there. -/
def parseText (env : Env) (r : RuleId) : ParseM (Except Rejection Value) := do
  match ← (Expr.rule r).evaluate env with
  | .matched _ v =>
    if (← get).atEnd env then
      modify (·.emit (.parsed r env.length))
      return .ok v
    else
      modify fun s => (s.record .tooLong).emit (.stopped r s.cursor env.length)
      return .error ⟨(← get).failures.toList⟩
  | .failed =>
    modify fun s => s.emit (.rejected r s.failures.size)
    return .error ⟨(← get).failures.toList⟩

/-- What comes of parsing a text. -/
structure Report where
  /-- The value of the text, why it was rejected, or what stopped the run. -/
  answer : Except Halt (Except Rejection Value)
  /-- What happened during the run, in order. -/
  events : List Event
  /-- The grammar with the bodies that were built during the run. -/
  grammar : Grammar

/-- Parses a text with a rule of a grammar. -/
def Grammar.parse (g : Grammar) (r : RuleId) (config : Config) (text : String) : Report :=
  let env := Env.ofText text config
  match parseText env r (.start env g) with
  | .ok answer s => ⟨.ok answer, s.events.toList, s.grammar⟩
  | .error halt s => ⟨.error halt, s.events.toList, s.grammar⟩

/-- Parses texts one after the other; each finds the bodies that were built for the earlier ones. -/
def Grammar.parseAll (g : Grammar) (r : RuleId) (config : Config) : List String → List Report
  | [] => []
  | text :: rest =>
    let report := g.parse r config text
    report :: report.grammar.parseAll r config rest

end Packrat
