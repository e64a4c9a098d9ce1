import Packrat.Expr.Basic

/-!
# Building expressions

Checked construction of the forms that can be built wrongly, and the shorthands that are made of the
basic forms: literals, defaults and joined lists.
-/

namespace Packrat.Expr

/-- A repetition within a range of counts; the range must not be empty. -/
def repeated? (x : Expr) (low high : Bound) : Except Defect Expr :=
  (Count.ofBounds low high).map x.repeated

/-- Exactly `n` matches of `x`. -/
def exactly (x : Expr) (n : Nat) : Expr := x.repeated (.exactly n)

/-- Any number of matches of `x`. -/
def zeroOrMore (x : Expr) : Expr := x.repeated .zeroOrMore

/-- One or more matches of `x`. -/
def oneOrMore (x : Expr) : Expr := x.repeated .oneOrMore

/-- A choice; there must be an alternative. -/
def choice? (alternatives : List Expr) : Except Defect Expr :=
  if alternatives.isEmpty then .error .emptyChoice else .ok (.choice alternatives)

/-- `x`, or `y` where `x` fails. -/
def orElse (x y : Expr) : Expr := .choice [x, y]

/-- A sequence of any value; there must be a step. -/
def sequence? (steps : List (Step Expr)) (build : Hook Slots (Except Fault Value)) :
    Except Defect Expr :=
  if steps.isEmpty then .error .emptySequence else .ok (.sequence .val steps build)

/-- The handles of the steps whose values are kept, counting steps from `index`. -/
def handlesFrom (index : Nat) : List (Step Expr) → List Handle
  | [] => []
  | ⟨_, some type⟩ :: rest => ⟨index, type⟩ :: handlesFrom (index + 1) rest
  | ⟨_, none⟩ :: rest => handlesFrom (index + 1) rest

/-- The recipe that lists all kept values in order. -/
def listKept (steps : List (Step Expr)) : Recipe Handle :=
  .list ((handlesFrom 0 steps).map .take)

/-- One character that passes a test. -/
def charWhere (test : Char → Bool) : Expr := .char { apply := test }

/-- Exactly the text `s`. -/
def text (s : String) : Expr := .literal s.length { apply := fun t => t == s }

/-- Transforms the value of `x` by `f`. -/
def mapTo (type : ValueType) (x : Expr) (f : Value → Value) : Expr := x.map type { apply := f }

/-- `x` if it matches, and `fallback` otherwise, as a value of the given type. -/
def orDefault (type : ValueType) (x : Expr) (fallback : Value) : Expr :=
  mapTo type x.optional (Value.getD fallback)

/-- The texts of the items of a list, with `separator` between them. -/
def join (x : Expr) (separator : String) : Expr :=
  mapTo .str x fun v => .str (v.join separator)

/-- The joined items of a list between `opening` and `closing`. -/
def joinWith (x : Expr) (separator opening closing : String) : Expr :=
  mapTo .str (x.join separator) fun v => .str (opening ++ v.display ++ closing)

end Packrat.Expr
