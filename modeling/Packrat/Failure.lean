import Packrat.Text.Location

/-!
# Failed attempts

A failing expression leaves one `Failure`: where it was attempted and why it did not match. A
`Rejection` is the answer for a text that is not in the language; it lists the failures in the order
in which they arose, the innermost attempt first and the enclosing ones after it.
-/

namespace Packrat

/-- Why an attempt failed. Expressions are named by their labels. -/
inductive Cause where
  /-- The text ended before the expression could be matched. -/
  | tooShort (label : String)
  /-- The expression does not match here. -/
  | wrong (label : String)
  /-- A repetition stopped after too few matches. -/
  | tooFew (label : String) (times : Nat)
  /-- A rule without a body. -/
  | undefined (label : String)
  /-- A rule that would have been nested too deeply. -/
  | tooDeep (label : String)
  /-- A match that left a part of the text unread. -/
  | tooLong
  /-- A reason in the grammar author's words. -/
  | custom (message : String)
deriving DecidableEq

/-- The wording of a cause. -/
def Cause.message : Cause → String
  | .tooShort label => "Can't parse " ++ label ++ " - text is too short"
  | .wrong label => "Wrong " ++ label
  | .tooFew label times => "Wrong " ++ label ++ ", but was repeated " ++ toString times ++ " times"
  | .undefined label => label ++ " is not defined"
  | .tooDeep label => "Stack overflow in " ++ label
  | .tooLong => "Text is too long"
  | .custom message => message

/-- One failed attempt. -/
structure Failure where
  /-- The character offset of the attempt. -/
  position : Nat
  /-- Why it failed. -/
  cause : Cause
deriving DecidableEq

namespace Failure

/-- The wording of a failure without its position. -/
def message (f : Failure) : String := f.cause.message

/-- The wording of a failure. -/
def display (f : Failure) : String :=
  "error at " ++ toString f.position ++ ": " ++ f.message

/-- The order of failures: by position, then by wording. -/
def le (f g : Failure) : Bool :=
  f.position < g.position || (f.position == g.position && decide (f.message ≤ g.message))

/-- A list of failures in their order. -/
def sort (failures : List Failure) : List Failure := failures.mergeSort le

end Failure

/-- The failures that led to a text being rejected. -/
structure Rejection where
  /-- The failures in the order in which they arose. -/
  failures : List Failure
deriving DecidableEq

namespace Rejection

/-- The failure that arose first. Another attempt may have got further: of the alternatives of a
choice, the first one leaves its failures in front of those of the others. -/
def first? (r : Rejection) : Option Failure := r.failures.head?

/-- The location in `text` of every failure. -/
def locate (r : Rejection) (text : List Char) : List Location :=
  r.failures.map fun f => .ofOffset text f.position

/-- The wording of a rejection. -/
def display (r : Rejection) : String :=
  if r.failures.isEmpty then "parse failed" else "; ".intercalate (r.failures.map Failure.display)

end Rejection

end Packrat
