import Packrat.Form.Basic
import Packrat.Grammar

/-!
# Grammars as data

A grammar is described by its rules. All rules exist before any body is made, so bodies may refer to
any of them. The body of a lazy rule is made on first use; those of the others at once, in order.
-/

namespace Packrat

/-- The description of a rule. -/
structure RuleForm where
  /-- The name of the rule. -/
  name : String
  /-- Whether blanks around its tokens are skipped. -/
  skipsBlanks : Bool
  /-- Whether the body is made on first use. -/
  lazy : Bool
  /-- The body; a rule that is not lazy may get it later. -/
  body : Option Form
  /-- The journal in which the making of a lazy body is noted. -/
  journal : Option String

namespace RuleForm

/-- The body of the rule before any body is made. -/
def initialBody (find : String → Option RuleId) (rule : RuleForm) : Body :=
  match rule.lazy, rule.body with
  | true, some x =>
    .delayed {
      apply := fun handles =>
        match x.toExpr find handles with
        | .ok x handles => (.ok x, handles)
        | .error e handles => (.error e.toFault, handles)
      journal := rule.journal }
  | _, _ => .undefined

end RuleForm

namespace Grammar

/-- Makes an expression over the rules of the grammar; the handles that it names are kept, also
where it is refused. -/
def build (g : Grammar) (x : Form) : Except BuildError Expr × Grammar :=
  match x.toExpr g.find? g.handles with
  | .ok x handles => (.ok x, { g with handles })
  | .error e handles => (.error e, { g with handles })

/-- Makes expressions one after the other; each may use the handles that the earlier ones named. -/
def buildAll (g : Grammar) : List Form → List (Except BuildError Expr)
  | [] => []
  | x :: rest =>
    let (result, g) := g.build x
    result :: g.buildAll rest

/-- Gives the rule that a name stands for the body that a form describes. The body is made first. -/
def defineAs (g : Grammar) (name : String) (x : Form) : Except BuildError Grammar :=
  match g.build x with
  | (.error e, _) => .error e
  | (.ok x, g) =>
    match g.find? name with
    | none => .error (.fault (.unknownName name))
    | some r => (g.define r x).mapError .defect

/-- Makes the bodies of the rules that are not lazy, in order, and gives them to the rules that the
names stand for. -/
def defineAll (g : Grammar) : List RuleForm → Except BuildError Grammar
  | [] => .ok g
  | rule :: rest =>
    match rule.lazy, rule.body with
    | false, some x => do (← g.defineAs rule.name x).defineAll rest
    | _, _ => g.defineAll rest

/-- The grammar that a list of rules describes. -/
def ofForms (rules : List RuleForm) : Except BuildError Grammar :=
  let find name := RuleId.findFrom name 0 (rules.map RuleForm.name)
  let initial := rules.map fun rule =>
    { name := rule.name, skipsBlanks := rule.skipsBlanks, body := rule.initialBody find : Rule }
  defineAll { rules := initial.toArray } rules

end Grammar

end Packrat
