import Packrat.Config
import Packrat.Event
import Packrat.Grammar
import Packrat.Memo

/-!
# The state of a run

`Env` is what stays fixed during a run: the text and the configuration. `State` is what changes. The
failures of a state are a stack in the order of their arising; expressions that match cut it back to
the height it had when they began.

Operations that move the cursor never leave the text: they stop at its end.
-/

namespace Packrat

/-- What stays fixed during a run. -/
structure Env extends Config where
  /-- The characters of the text. -/
  text : Array Char

namespace Env

/-- A run over `text` under a configuration. -/
def ofText (text : String) (config : Config) : Env := { config with text := text.toList.toArray }

/-- The number of characters of the text. -/
def length (env : Env) : Nat := env.text.size

/-- The position behind the blanks at `position`, looking at `n` characters at most. -/
def skipBlanksFrom (env : Env) (position : Nat) : Nat → Nat
  | 0 => position
  | n + 1 =>
    match env.text[position]? with
    | some c => if env.blanks.contains c then env.skipBlanksFrom (position + 1) n else position
    | none => position

/-- The position behind the blanks at `position`. -/
def skipBlanks (env : Env) (position : Nat) : Nat :=
  env.skipBlanksFrom position (env.length - position)

/-- The `length` characters at `position`, if the text has so many. -/
def slice? (env : Env) (position length : Nat) : Option String :=
  if position + length ≤ env.length then
    some (String.ofList (env.text.extract position (position + length)).toList)
  else none

end Env

/-- What changes during a run. -/
structure State where
  /-- The grammar; bodies built on first use are kept in it. -/
  grammar : Grammar
  /-- The remembered outcomes. -/
  memo : Memo
  /-- The current position. -/
  cursor : Nat := 0
  /-- Whether blanks are skipped, as the innermost open rule wants it. -/
  skipping : Bool := false
  /-- The failures so far, the oldest first. -/
  failures : Array Failure := #[]
  /-- The number of open rules. -/
  depth : Nat := 0
  /-- Whether the limit of open rules was ever hit. From then on outcomes depend on how deeply they
  were nested, so they are no longer remembered. -/
  overflowed : Bool := false
  /-- What happened so far, in order. -/
  events : Array Event := #[]

namespace State

/-- The state at the start of a run. -/
def start (env : Env) (grammar : Grammar) : State :=
  { grammar, memo := .empty env.length }

/-- Whether the whole text is behind the cursor. -/
def atEnd (s : State) (env : Env) : Bool := env.length ≤ s.cursor

/-- Moves the cursor to `position`, or to the end of the text if it lies behind it. -/
def moveTo (s : State) (env : Env) (position : Nat) : State :=
  { s with cursor := min position env.length }

/-- Moves the cursor forward by `n` characters, or to the end of the text. -/
def advance (s : State) (env : Env) (n : Nat) : State := s.moveTo env (s.cursor + n)

/-- Moves the cursor behind the blanks, if blanks are skipped. -/
def skipBlanks (s : State) (env : Env) : State :=
  if s.skipping then { s with cursor := env.skipBlanks s.cursor } else s

/-- Adds a failure at the cursor. -/
def record (s : State) (cause : Cause) : State :=
  { s with failures := s.failures.push ⟨s.cursor, cause⟩ }

/-- Keeps only the oldest `height` failures. -/
def cutBack (s : State) (height : Nat) : State :=
  { s with failures := s.failures.shrink height }

/-- Notes an event. -/
def emit (s : State) (e : Event) : State := { s with events := s.events.push e }

/-- Notes a call in a journal, if there is one, with the text of its argument. -/
def note {α : Type} (s : State) (journal : Option String) (text : α → String) (a : α) : State :=
  match journal with
  | some journal => s.emit (.called journal (text a))
  | none => s

/-- The entry for a key at the cursor. -/
def known? (s : State) (env : Env) (key : Key) : Option Entry :=
  if env.memoizing then s.memo.find? s.cursor key else none

/-- Remembers an entry for a key at a position, unless the limit of open rules was hit. -/
def remember (s : State) (env : Env) (position : Nat) (key : Key) (entry : Entry) : State :=
  if env.memoizing && !s.overflowed then { s with memo := s.memo.insert position key entry } else s

/-- Remembers the outcome of an evaluation that began at `start` with an empty stack of failures,
and puts its failures on the stack `outer` if it failed. -/
def settle (s : State) (env : Env) (key : Key) (start : Nat) (outer : Array Failure)
    (outcome : Outcome Value) : State :=
  { s with failures := if outcome.isMatched then outer else outer ++ s.failures }.remember env start
    key (.ofOutcome s.failures outcome)

/-- Whether another rule would be one too many. -/
def atLimit (s : State) (env : Env) : Bool :=
  match env.limit with
  | some limit => limit ≤ s.depth
  | none => false

end State

/-- Why an evaluation ended without an outcome. -/
inductive Halt where
  /-- A fault of the grammar. -/
  | fault (f : Fault)
  /-- The recursion goes deeper than the evaluation was prepared to follow. -/
  | exhausted
deriving DecidableEq

/-- The wording of a halt. -/
def Halt.message : Halt → String
  | .fault f => f.message
  | .exhausted => "recursion without end"

/-- Evaluations: they change the state and may be halted, in which case the changes made so far
stay. -/
abbrev ParseM := EStateM Halt State

/-- An evaluation at the cursor. -/
abbrev Matcher := ParseM (Outcome Value)

end Packrat
