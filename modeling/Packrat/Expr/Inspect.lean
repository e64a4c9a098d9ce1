import Packrat.Memo
import Packrat.Grammar
import Packrat.Text.Quoted

/-!
# Looking at expressions

Kind, written form and identity of expressions, and the written form of rules. Built-in classes and
rules are the same wherever they occur; every other expression is only the same as itself.
-/

namespace Packrat

/-- The kind of an expression. -/
inductive ExprKind where
  /-- One character. -/
  | character
  /-- A text of fixed length. -/
  | literal
  /-- The expression that always matches. -/
  | empty
  /-- The expression that always fails. -/
  | fail
  /-- The current position. -/
  | position
  /-- An optional expression. -/
  | optional
  /-- A repetition. -/
  | repeated
  /-- A positive lookahead. -/
  | and
  /-- A negative lookahead. -/
  | not
  /-- A sequence. -/
  | sequence
  /-- A choice. -/
  | choice
  /-- A transformation. -/
  | map
  /-- A rule. -/
  | rule
deriving DecidableEq

namespace ExprKind

/-- The name of a kind. -/
def name : ExprKind → String
  | .character => "Character"
  | .literal => "Literal"
  | .empty => "Empty"
  | .fail => "Fail"
  | .position => "Position"
  | .optional => "Optional"
  | .repeated => "Repeated"
  | .and => "And"
  | .not => "Not"
  | .sequence => "Sequence"
  | .choice => "PrioritizedChoice"
  | .map => "Map"
  | .rule => "Symbol"

/-- Whether expressions of the kind have no parts. Rules count as having one, their body. -/
def isTerminal : ExprKind → Bool
  | .character | .literal | .empty | .fail | .position => true
  | _ => false

end ExprKind

namespace Expr

/-- The kind of an expression. -/
def kind : Expr → ExprKind
  | .builtin _ | .char _ => .character
  | .literal _ _ => .literal
  | .empty => .empty
  | .fail _ => .fail
  | .position => .position
  | .rule _ => .rule
  | .optionalAs _ _ => .optional
  | .repeatedAs _ _ _ => .repeated
  | .lookaheadAs _ negated _ => if negated then .not else .and
  | .sequenceAs _ _ _ _ => .sequence
  | .choiceAs _ _ => .choice
  | .map _ _ _ => .map

/-- What an expression is known by everywhere, if it is. Outcomes are remembered for just these. -/
def key? : Expr → Option Key
  | .builtin c => some (.builtin c)
  | .rule r => some (.rule r)
  | _ => none

/-- The written form of an expression. -/
def debug (x : Expr) : String :=
  "Expr \x7b id: ExprId(_), kind: " ++ x.kind.name ++ ", label: " ++ Text.quoted x.label ++ " \x7d"

/-- The index of the first expression of the list that is the same as the one at `index`. -/
def firstSame (xs : List (Option Key)) (index : Nat) : Nat :=
  match xs[index]? with
  | some (some key) => (xs.findIdx? fun k => k = some key).getD index
  | _ => index

end Expr

/-- The written form of a rule. -/
def Rule.debug (rule : Rule) : String :=
  "Symbol \x7b name: " ++ Text.quoted rule.name ++ ", skip_whitespace: " ++
    toString rule.skipsBlanks ++ " \x7d"

end Packrat
