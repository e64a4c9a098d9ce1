import Packrat.Matcher.Basic

/-!
# Composite matchers

Matchers made of others. A composite that fails returns to where it started and adds one failure to
those of its parts; one that matches drops the failures that its parts left.
-/

namespace Packrat.Matcher

/-- Matches `m` if possible; never fails. -/
def optional (m : Matcher) : Matcher := do
  let height := (← get).failures.size
  let outcome ← m
  modify (·.cutBack height)
  match outcome with
  | .matched _ v => succeed (.some v)
  | .failed => succeed .none

/-- Collects matches of `m` behind `items`, in at most `budget` attempts.

It stops when the count is full, when `m` fails, and when a match that consumed nothing leaves
enough items: another attempt would match the same again. -/
def collect (count : Count) (m : Matcher) : (budget : Nat) → (items : Array Value) →
    ParseM (Array Value)
  | 0, _ => throw .exhausted
  | budget + 1, items => do
    if count.isFull items.size then
      return items
    let start := (← get).cursor
    match ← m with
    | .failed => return items
    | .matched stop v =>
      let items := items.push v
      if stop = start ∧ count.least ≤ items.size then
        return items
      collect count m budget items

/-- Matches `m` greedily a number of times. Every attempt but the last moves the cursor or fills the
count up to its least number, which bounds the attempts. -/
def repeated (env : Env) (label : String) (count : Count) (m : Matcher) : Matcher := do
  let start := (← get).cursor
  let height := (← get).failures.size
  let items ← collect count m (count.least + (env.length - start) + 1) #[]
  if count.least ≤ items.size then
    modify (·.cutBack height)
    succeed (.list items.toList)
  else
    modify (·.moveTo env start)
    fail (.tooFew label items.size)

/-- Whether `m` matches, or with `negated` whether it does not; consumes nothing. -/
def lookahead (env : Env) (label : String) (negated : Bool) (m : Matcher) : Matcher := do
  let start := (← get).cursor
  let height := (← get).failures.size
  let outcome ← m
  modify (·.moveTo env start)
  if outcome.isMatched = negated then
    fail (.wrong label)
  else
    modify (·.cutBack height)
    return .matched start .unit

/-- Runs the steps of a sequence up to the first that fails, collecting the slots. -/
def runSteps : List (Step Matcher) → ParseM (Option Slots)
  | [] => return some []
  | step :: rest => do
    match ← step.body with
    | .failed => return none
    | .matched _ v =>
      match ← runSteps rest with
      | none => return none
      | some slots => return some (step.store.map (⟨·, v⟩) :: slots)

/-- Matches the steps one after the other and builds a value from their slots. -/
def sequence (env : Env) (label : String) (steps : List (Step Matcher))
    (build : Hook Slots (Except Fault Value)) : Matcher := do
  let start := (← get).cursor
  let height := (← get).failures.size
  match ← runSteps steps with
  | none =>
    modify (·.moveTo env start)
    fail (.wrong label)
  | some slots =>
    modify (·.cutBack height)
    match ← call build (fun _ => "run") slots with
    | .ok v => succeed v
    | .error f => throw (.fault f)

/-- Runs the alternatives of a choice from `start` up to the first that matches. -/
def firstOf (env : Env) (start : Nat) : List Matcher → Matcher
  | [] => return .failed
  | m :: rest => do
    match ← m with
    | .matched stop v => return .matched stop v
    | .failed =>
      modify (·.moveTo env start)
      firstOf env start rest

/-- Matches the first alternative that does. -/
def choice (env : Env) (label : String) (alternatives : List Matcher) : Matcher := do
  let start := (← get).cursor
  let height := (← get).failures.size
  match ← firstOf env start alternatives with
  | .matched stop v =>
    modify (·.cutBack height)
    return .matched stop v
  | .failed => fail (.wrong label)

/-- Transforms the value of a match. -/
def map (f : Hook Value Value) (m : Matcher) : Matcher := do
  match ← m with
  | .matched stop v => return .matched stop (← call f Value.display v)
  | .failed => return .failed

end Packrat.Matcher
