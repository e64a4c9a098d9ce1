/-!
# Defects of a grammar and faults of a run

A `Defect` is a mistake in the grammar that is found while an expression is put together. A `Fault`
stops a run for good: a sequence asked for a step value that is not there, or the body of a rule
turned out to be defective when it was needed.
-/

namespace Packrat

/-- A mistake in a grammar, found while it is built. -/
inductive Defect where
  /-- A number of repetitions that no count satisfies. -/
  | emptyRange (least most : Nat)
  /-- A sequence without steps. -/
  | emptySequence
  /-- A choice without alternatives. -/
  | emptyChoice
  /-- A body for a rule that has one. -/
  | alreadyDefined (rule : String)
deriving DecidableEq

/-- The wording of a defect. -/
def Defect.message : Defect → String
  | .emptyRange least most => "Range is empty: " ++ toString least ++ ".." ++ toString most
  | .emptySequence => "The sequence must contain 1 or more subexpressions"
  | .emptyChoice => "The prioritized choice must contain 1 or more alternatives"
  | .alreadyDefined rule => "Symbol(" ++ rule ++ ") is already defined"

/-- What stops a run or the building of an expression for good. -/
inductive Fault where
  /-- A sequence has no value of the wanted type for this step. -/
  | missingValue (step : Nat)
  /-- An expression that had to be well-formed is not. -/
  | invalidGrammar (d : Defect)
  /-- The body of a rule, built when it was first needed, reported a defect. -/
  | defectiveBody (d : Defect)
  /-- A name that stands for no rule or no step. -/
  | unknownName (name : String)
deriving DecidableEq

/-- The wording of a fault. -/
def Fault.message : Fault → String
  | .missingValue step => "no stored value for step " ++ toString step
  | .invalidGrammar d => "invalid grammar: " ++ d.message
  | .defectiveBody d => d.message
  | .unknownName name => "unknown name: " ++ name

end Packrat
