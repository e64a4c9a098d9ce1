import Packrat.CharClass
import Packrat.Expr.Count
import Packrat.Slots

/-!
# Parsing expressions

The closed set of expression forms. Tests, transformations and build functions are arbitrary; each
may carry a journal, in which its calls are noted. A test or a transformation has a result for every
argument. Only build functions can stop with a fault, and the functions that build the body of a
rule on its first use. Rules are referred to by `RuleId`, so an expression is a finite tree even
when the grammar is recursive, and every function on expressions is a structural recursion.

Every expression has a label, which names it in failures, and a declared result type. The label of a
composite is made of the labels of its parts. A part can occur more than once, so labels may be much
longer than the expression is large; a composite therefore holds its label, put together once. The
forms ending in `As` take the label as given, and the functions below them supply it.
-/

namespace Packrat

/-- A reference to a rule of a grammar. -/
structure RuleId where
  /-- The index of the rule in its grammar. -/
  index : Nat
  /-- The name of the rule. -/
  name : String
deriving DecidableEq

/-- The label of a rule. -/
def RuleId.label (r : RuleId) : String := "Symbol(" ++ r.name ++ ")"

/-- A function whose calls can be noted. -/
structure Hook (α β : Type) where
  /-- What the function computes. -/
  apply : α → β
  /-- The journal in which calls are noted, if any. -/
  journal : Option String := none

/-- One step of a sequence. -/
structure Step (α : Type) where
  /-- What has to match. -/
  body : α
  /-- The type under which the value is stored; the value of a step without one is dropped. -/
  store : Option ValueType

/-- A parsing expression. -/
inductive Expr where
  /-- One character of a built-in class. -/
  | builtin (c : CharClass)
  /-- One character that passes a test. -/
  | char (test : Hook Char Bool)
  /-- The next `length` characters, if they pass a test. -/
  | literal (length : Nat) (test : Hook String Bool)
  /-- Always matches and consumes nothing. -/
  | empty
  /-- Always fails for the given reason. -/
  | fail (message : String)
  /-- Always matches and consumes nothing; the value is the current position. -/
  | position
  /-- The body of a rule. -/
  | rule (r : RuleId)
  /-- Matches `x` if possible; never fails. -/
  | optionalAs (label : String) (x : Expr)
  /-- Matches `x` greedily a number of times. -/
  | repeatedAs (label : String) (x : Expr) (count : Count)
  /-- Whether `x` matches, or with `negated` whether it does not; consumes nothing. -/
  | lookaheadAs (label : String) (negated : Bool) (x : Expr)
  /-- Matches the steps one after the other and builds a value of the given type from what they
  stored. -/
  | sequenceAs (label : String) (type : ValueType) (steps : List (Step Expr))
      (build : Hook Slots (Except Fault Value))
  /-- Matches the first alternative that does. -/
  | choiceAs (label : String) (alternatives : List Expr)
  /-- Matches `x` and transforms its value to one of the given type. -/
  | map (type : ValueType) (f : Hook Value Value) (x : Expr)

namespace Expr

/-- The name of an expression in failures. A transformation has the label of what it transforms. -/
def label : Expr → String
  | .builtin c => c.label
  | .char _ => "Character"
  | .literal _ _ => "Literal"
  | .empty => "Empty"
  | .fail _ => "Fail"
  | .position => "Position"
  | .rule r => r.label
  | .optionalAs label _ | .repeatedAs label _ _ | .lookaheadAs label _ _
  | .sequenceAs label _ _ _ | .choiceAs label _ => label
  | .map _ _ x => x.label

/-- The declared type of the results. Every repetition is a list and every option an option,
whatever its part is; a rule, a choice and what always fails may have any value. -/
def type : Expr → ValueType
  | .builtin _ | .char _ => .char
  | .literal _ _ => .str
  | .empty | .lookaheadAs _ _ _ => .unit
  | .position => .pos
  | .fail _ | .rule _ | .choiceAs _ _ => .val
  | .optionalAs _ _ => .opt
  | .repeatedAs _ _ _ => .list
  | .sequenceAs _ type _ _ | .map type _ _ => type

/-- Matches `x` if possible; never fails. -/
def optional (x : Expr) : Expr := .optionalAs ("Optional(" ++ x.label ++ ")") x

/-- Matches `x` greedily a number of times. -/
def repeated (x : Expr) (count : Count) : Expr :=
  .repeatedAs ("Repeated(" ++ x.label ++ ") " ++ count.label ++ " times") x count

/-- Whether `x` matches, or with `negated` whether it does not; consumes nothing. -/
def lookahead (negated : Bool) (x : Expr) : Expr :=
  .lookaheadAs ((if negated then "Not(" else "And(") ++ x.label ++ ")") negated x

/-- Matches the steps one after the other and builds a value of the given type from what they
stored. -/
def sequence (type : ValueType) (steps : List (Step Expr))
    (build : Hook Slots (Except Fault Value)) : Expr :=
  .sequenceAs ("Sequence(" ++ ", ".intercalate (steps.map (·.body.label)) ++ ")") type steps build

/-- Matches the first alternative that does. -/
def choice (alternatives : List Expr) : Expr :=
  .choiceAs ("PrioritizedChoice(" ++ " / ".intercalate (alternatives.map label) ++ ")") alternatives

/-- A step whose value is kept. -/
def kept (x : Expr) : Step Expr := ⟨x, some x.type⟩

/-- A step that has to match but whose value is dropped. -/
def skipped (x : Expr) : Step Expr := ⟨x, none⟩

end Expr

end Packrat
