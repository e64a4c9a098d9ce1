import Packrat.Matcher.Basic

/-!
# Terminals

Matchers that look at the text themselves. One that matches moves the cursor behind what it read and
behind the blanks there; one that fails leaves the cursor and adds one failure.
-/

namespace Packrat.Matcher

/-- Reads one character that passes a test. -/
def scan (env : Env) (label : String) (test : Hook Char Bool) : Matcher := do
  match env.text[(← get).cursor]? with
  | none => fail (.tooShort label)
  | some c =>
    if ← call test Char.toString c then
      modify (·.advance env 1)
      succeed (.char c)
    else
      fail (.wrong label)

/-- One character that passes a test, and the blanks behind it. -/
def char (env : Env) (test : Hook Char Bool) : Matcher := do
  skippingBlanks env (← scan env "Character" test)

/-- One character of a built-in class, and the blanks behind it. -/
def builtin (env : Env) (c : CharClass) : Matcher := do
  match (← get).known? env (.builtin c) with
  | some entry => skippingBlanks env (← replay entry)
  | none =>
    skippingBlanks env (← remembering env (.builtin c) (scan env c.label { apply := c.holds }))

/-- The next `length` characters, if they pass a test, and the blanks behind them. -/
def literal (env : Env) (length : Nat) (test : Hook String Bool) : Matcher := do
  match env.slice? (← get).cursor length with
  | none => fail (.tooShort "Literal")
  | some text =>
    if ← call test id text then
      modify (·.advance env length)
      skippingBlanks env (← succeed (.str text))
    else
      fail (.wrong "Literal")

/-- The current position. -/
def position : Matcher := do
  succeed (.int (← get).cursor)

end Packrat.Matcher
