import Packrat.Expr.Delimited
import Packrat.Form.Test
import Packrat.Form.Transform

/-!
# Expressions as data

A `Form` describes an expression by data only: rules and handles are given by name, tests and
transformations by description. `Form.toExpr` makes the expression. Parts are made before the whole
and in the order in which they are written, so the first mistake is the one that is reported.

A form that can be built wrongly says how it wants its mistakes to be treated: a checked one reports
a defect, any other stops with a fault.
-/

namespace Packrat

/-- One step of a described sequence. -/
structure StepForm (α : Type) where
  /-- What has to match. -/
  body : α
  /-- Whether the value is kept. -/
  kept : Bool
  /-- The name of the handle to the kept value, if it has one. -/
  name : Option String

/-- The description of an expression. -/
inductive Form where
  /-- One character of a built-in class. -/
  | builtin (c : CharClass)
  /-- One character that passes a test. -/
  | char (test : CharTest) (journal : Option String)
  /-- Exactly this text. -/
  | text (s : String)
  /-- The next `length` characters, if they pass a test. -/
  | literal (length : Nat) (test : TextTest) (journal : Option String)
  /-- Always matches. -/
  | empty
  /-- Always fails. -/
  | fail (message : String)
  /-- The current position. -/
  | position
  /-- A rule. -/
  | rule (name : String)
  /-- Matches if possible. -/
  | optional (x : Form)
  /-- Matches a number of times. -/
  | repeated (x : Form) (low high : Bound) (checked : Bool)
  /-- Matches exactly `n` times. -/
  | exactly (x : Form) (n : Nat)
  /-- Matches any number of times. -/
  | zeroOrMore (x : Form)
  /-- Matches once or more often. -/
  | oneOrMore (x : Form)
  /-- Whether a form matches, or does not. -/
  | lookahead (negated : Bool) (x : Form)
  /-- The first form, or the second where it fails. -/
  | orElse (x y : Form)
  /-- The first alternative that matches. -/
  | choice (alternatives : List Form) (checked : Bool)
  /-- Transforms the value. -/
  | map (x : Form) (f : Transform) (journal : Option String)
  /-- A value in place of a failure. -/
  | orDefault (x : Form) (fallback : Value)
  /-- The texts of the items of a list, joined. -/
  | join (x : Form) (separator : String)
  /-- The joined items between two texts. -/
  | joinWith (x : Form) (separator opening closing : String)
  /-- A delimited list. -/
  | list (x : Form) (separator opening closing : Option Form) (least most : Option Nat)
      (checked : Bool)
  /-- A sequence; without a recipe its value is the list of the kept values. -/
  | sequence (steps : List (StepForm Form)) (recipe : Option (Recipe String)) (checked : Bool)
      (journal : Option String)

/-- Why no expression could be made. -/
inductive BuildError where
  /-- A checked form reported a defect. -/
  | defect (d : Defect)
  /-- The building stopped with a fault. -/
  | fault (f : Fault)
deriving DecidableEq

/-- The fault that an error becomes in the body of a rule that is built on first use. -/
def BuildError.toFault : BuildError → Fault
  | .defect d => .defectiveBody d
  | .fault f => f

/-- The building of expressions: it extends the named handles and may stop, in which case the names
given so far stay. -/
abbrev BuildM := EStateM BuildError Handles

namespace BuildM

/-- The result of a check; a defect is reported if the form is checked and is a fault otherwise. -/
def check (checked : Bool) : Except Defect Expr → BuildM Expr
  | .ok x => return x
  | .error d => throw (if checked then .defect d else .fault (.invalidGrammar d))

/-- The result of a computation that may stop with a fault. -/
def ofExcept {α : Type} : Except Fault α → BuildM α
  | .ok a => return a
  | .error f => throw (.fault f)

/-- Gives names to the handles of the kept steps, counting steps from `index`. -/
def nameSteps (index : Nat) : List (StepForm Expr) → BuildM Unit
  | [] => return ()
  | ⟨x, kept, name⟩ :: rest => do
    match kept, name with
    | true, some name => modify (·.insert name ⟨index, x.type⟩)
    | _, _ => pure ()
    nameSteps (index + 1) rest

end BuildM

/-- The step of an expression that a described step stands for. -/
def StepForm.toStep (step : StepForm Expr) : Step Expr :=
  if step.kept then step.body.kept else step.body.skipped

namespace Form

/-- The sequence of steps whose expressions are made: names its handles, then looks up the names in
its recipe, and then requires a step. -/
def buildSequence (steps : List (StepForm Expr)) (recipe : Option (Recipe String)) (checked : Bool)
    (journal : Option String) : BuildM Expr := do
  BuildM.nameSteps 0 steps
  let steps := steps.map StepForm.toStep
  let recipe ← match recipe with
    | some recipe => .ofExcept (recipe.resolve (← get))
    | none => pure (Expr.listKept steps)
  .check checked (Expr.sequence? steps { apply := recipe.build, journal })

mutual

/-- Makes the expression that a form describes, where `find` gives the rules by name. -/
def toExpr (find : String → Option RuleId) : Form → BuildM Expr
  | .builtin c => return .builtin c
  | .char test journal => return .char { apply := (test.holds ·), journal }
  | .text s => return .text s
  | .literal length test journal => return .literal length { apply := (test.holds ·), journal }
  | .empty => return .empty
  | .fail message => return .fail message
  | .position => return .position
  | .rule name =>
    match find name with
    | some r => return .rule r
    | none => throw (.fault (.unknownName name))
  | .optional x => return .optional (← x.toExpr find)
  | .repeated x low high checked => do
    let x ← x.toExpr find
    .check checked (x.repeated? low high)
  | .exactly x n => return (← x.toExpr find).exactly n
  | .zeroOrMore x => return (← x.toExpr find).zeroOrMore
  | .oneOrMore x => return (← x.toExpr find).oneOrMore
  | .lookahead negated x => return .lookahead negated (← x.toExpr find)
  | .orElse x y => do
    let x ← x.toExpr find
    let y ← y.toExpr find
    return x.orElse y
  | .choice xs checked => do
    let xs ← toExprs find xs
    .check checked (Expr.choice? xs)
  | .map x f journal => return .map .val { apply := f.apply, journal } (← x.toExpr find)
  | .orDefault x fallback => return .orDefault .val (← x.toExpr find) fallback
  | .join x separator => return (← x.toExpr find).join separator
  | .joinWith x separator opening closing =>
    return (← x.toExpr find).joinWith separator opening closing
  | .list x separator opening closing least most checked => do
    let element ← x.toExpr find
    let separator ← toExpr? find separator
    let opening ← toExpr? find opening
    let closing ← toExpr? find closing
    let least := least.getD 0
    .check checked { element, separator, opening, closing, least, most : Delimited }.toExpr?
  | .sequence steps recipe checked journal => do
    let steps ← stepsToExprs find steps
    buildSequence steps recipe checked journal

/-- Makes the expressions that a list of forms describes, in order. -/
def toExprs (find : String → Option RuleId) : List Form → BuildM (List Expr)
  | [] => return []
  | x :: rest => do
    let x ← x.toExpr find
    let rest ← toExprs find rest
    return x :: rest

/-- Makes the expression of a form that may be absent. -/
def toExpr? (find : String → Option RuleId) : Option Form → BuildM (Option Expr)
  | none => return none
  | some x => return some (← x.toExpr find)

/-- Makes the expressions of the steps of a sequence, in order. -/
def stepsToExprs (find : String → Option RuleId) : List (StepForm Form) →
    BuildM (List (StepForm Expr))
  | [] => return []
  | ⟨x, kept, name⟩ :: rest => do
    let x ← x.toExpr find
    let rest ← stepsToExprs find rest
    return ⟨x, kept, name⟩ :: rest

end

end Form

end Packrat
