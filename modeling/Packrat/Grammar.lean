import Packrat.Expr.Basic

/-!
# Grammars

A grammar is a list of rules. The body of a rule is given with `define` after all rules exist, or is
built when the rule is first evaluated; in both cases bodies may refer to any rule, and once there a
body stays. Bodies may also name steps of their sequences for one another, so the grammar holds the
table of those names.

A name stands for the latest rule that has it, as it does for steps: a rule hides the earlier ones
of its name.
-/

namespace Packrat

/-- The reference to the last rule with this name in a list of names, counted from `index`. -/
def RuleId.findFrom (name : String) (index : Nat) : List String → Option RuleId
  | [] => none
  | n :: rest =>
    match findFrom name (index + 1) rest with
    | some r => some r
    | none => if n = name then some { index, name } else none

/-- The body of a rule. -/
inductive Body where
  /-- Not given yet. -/
  | undefined
  /-- Given. -/
  | defined (x : Expr)
  /-- Built on first use. Building reads and extends the named handles, also where it stops with a
  fault. -/
  | delayed (build : Hook Handles (Except Fault Expr × Handles))

/-- A rule of a grammar. -/
structure Rule where
  /-- The name of the rule. -/
  name : String
  /-- Whether blanks around the tokens of the rule are skipped. -/
  skipsBlanks : Bool
  /-- What the rule matches. -/
  body : Body

/-- A list of rules and the handles named by their bodies. -/
structure Grammar where
  /-- The rules. -/
  rules : Array Rule := #[]
  /-- The named handles. -/
  handles : Handles := []

namespace Grammar

/-- The body of a rule. A reference to no rule has none. -/
def body (g : Grammar) (r : RuleId) : Body :=
  match g.rules[r.index]? with
  | some rule => rule.body
  | none => .undefined

/-- Whether blanks around the tokens of a rule are skipped. -/
def skipsBlanks (g : Grammar) (r : RuleId) : Bool :=
  match g.rules[r.index]? with
  | some rule => rule.skipsBlanks
  | none => false

/-- Sets the body of a rule. -/
def setBody (g : Grammar) (r : RuleId) (x : Expr) : Grammar :=
  { g with rules := g.rules.modify r.index fun rule => { rule with body := .defined x } }

/-- Gives a rule its body. A rule whose body was given, or is built on first use, is refused. -/
def define (g : Grammar) (r : RuleId) (x : Expr) : Except Defect Grammar :=
  match g.body r with
  | .undefined => .ok (g.setBody r x)
  | .defined _ | .delayed _ => .error (.alreadyDefined r.name)

/-- The reference to the rule that a name stands for. -/
def find? (g : Grammar) (name : String) : Option RuleId :=
  RuleId.findFrom name 0 (g.rules.toList.map Rule.name)

/-- For each rule of the grammar, in order, the rule that its name stands for. -/
def denoted (g : Grammar) : List (RuleId × Rule) :=
  g.rules.toList.filterMap fun rule => do
    let r ← g.find? rule.name
    let rule ← g.rules[r.index]?
    return (r, rule)

end Grammar

end Packrat
