import Packrat.Expr.Basic

/-!
# Events of a run

What a run reports while it works: the course of its rules, how a whole parse ended, and the calls
of the functions that carry a journal.
-/

namespace Packrat

/-- Something that happened during a run. Positions of rules are those where they were entered. -/
inductive Event where
  /-- A remembered match of a rule was used. -/
  | cachedMatch (r : RuleId) (start : Nat)
  /-- A remembered failure of a rule was used. -/
  | cachedFail (r : RuleId) (start : Nat)
  /-- The body of a rule is about to be evaluated. -/
  | attempt (r : RuleId) (start : Nat)
  /-- The body of a rule matched up to `stop`. -/
  | matched (r : RuleId) (start stop : Nat)
  /-- The body of a rule failed. -/
  | failed (r : RuleId) (start : Nat)
  /-- A rule was not entered because too many rules are open. -/
  | limitReached (r : RuleId) (start : Nat)
  /-- A rule matched the whole text. -/
  | parsed (r : RuleId) (length : Nat)
  /-- A rule matched, but not the whole text. -/
  | stopped (r : RuleId) (stop length : Nat)
  /-- A rule did not match the text. -/
  | rejected (r : RuleId) (failures : Nat)
  /-- A function with a journal was called. -/
  | called (journal argument : String)
deriving DecidableEq

namespace Event

/-- The wording of an event in the trace of a run. Calls are no part of it. -/
def trace? : Event → Option String
  | .cachedMatch r p => some ("Cached match of rule " ++ quote r ++ " at " ++ toString p)
  | .cachedFail r p => some ("Cached fail of rule " ++ quote r ++ " at " ++ toString p)
  | .attempt r p => some ("Attempting to match rule " ++ quote r ++ " at " ++ toString p)
  | .matched r p stop =>
    some ("Matched rule " ++ quote r ++ " at " ++ toString p ++ " to " ++ toString stop)
  | .failed r p => some ("Failed to match rule " ++ quote r ++ " at " ++ toString p)
  | .limitReached r p => some ("Stack limit reached in rule " ++ quote r ++ " at " ++ toString p)
  | .parsed r n => some ("Parsed " ++ quote r ++ ": " ++ toString n ++ " chars")
  | .stopped r p n =>
    some ("Rule " ++ quote r ++ " stopped at " ++ toString p ++ " of " ++ toString n)
  | .rejected r n => some ("Rule " ++ quote r ++ " failed with " ++ toString n ++ " errors")
  | .called _ _ => none
where
  /-- The name of a rule between backquotes. -/
  quote (r : RuleId) : String := "\x60" ++ r.name ++ "\x60"

/-- The trace of a run. -/
def trace (events : List Event) : List String := events.filterMap trace?

/-- The arguments noted in a journal, in order. -/
def journal (events : List Event) (name : String) : List String :=
  events.filterMap fun
    | .called journal argument => if journal = name then some argument else none
    | _ => none

/-- The names of the journals with entries, each once, in the order of their first entry. -/
def journals (events : List Event) : List String :=
  (events.filterMap fun
    | .called journal _ => some journal
    | _ => none).eraseDups

end Event

end Packrat
