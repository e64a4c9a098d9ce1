import Packrat.State

/-!
# Matchers

The actions that all matchers share: failing with a cause, noting a call, skipping the blanks behind
a token, and remembering an outcome.
-/

namespace Packrat.Matcher

/-- Fails at the cursor for the given cause. -/
def fail (cause : Cause) : Matcher := do
  modify (·.record cause)
  return .failed

/-- Matches at the cursor without moving it. -/
def succeed (v : Value) : Matcher := do
  return .matched (← get).cursor v

/-- Calls a function, noting the call in its journal with the text of the argument. -/
def call {α β : Type} (f : Hook α β) (text : α → String) (a : α) : ParseM β := do
  modify (·.note f.journal text a)
  return f.apply a

/-- Extends a match by the blanks behind it, in the mode of the caller. -/
def skippingBlanks (env : Env) : Outcome Value → Matcher
  | .matched _ v => do
    modify (·.skipBlanks env)
    succeed v
  | .failed => return .failed

/-- Repeats the effect of a remembered outcome: a match moves the cursor to its end, a failure adds
its failures. -/
def replay : Entry → Matcher
  | .success stop v => do
    modify fun s => { s with cursor := stop }
    return .matched stop v
  | .failure failures => do
    modify fun s => { s with failures := s.failures ++ failures }
    return .failed

/-- Runs a matcher and remembers its outcome under `key`.

The matcher starts with an empty stack of failures, so that what it leaves there is exactly its own.
These are added to the caller's if it fails and dropped if it matches. -/
def remembering (env : Env) (key : Key) (m : Matcher) : Matcher := do
  let start := (← get).cursor
  let outer ← modifyGet fun s => (s.failures, { s with failures := #[] })
  let outcome ← m
  modify (·.settle env key start outer outcome)
  return outcome

end Packrat.Matcher
