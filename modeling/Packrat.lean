import Packrat.Expr.Inspect
import Packrat.Form.Script
import Packrat.Matcher.Run
import Packrat.Parse
import Packrat.Proofs.Answer
import Packrat.Proofs.Base
import Packrat.Proofs.Cursor
import Packrat.Proofs.Lockstep
import Packrat.Proofs.Course
import Packrat.Proofs.Recall
import Packrat.Proofs.Room
import Packrat.Proofs.Transparency
import Packrat.Proofs.Moves
import Packrat.Proofs.Termination
import Packrat.Proofs.Driver
import Packrat.Proofs.Limit
import Packrat.Proofs.Permanence
import Packrat.Proofs.Again
import Packrat.Proofs.Verdict
import Packrat.Proofs.Reporting
import Packrat.Proofs.Representation
import Packrat.Proofs.Reuse
import Packrat.Proofs.Edge
import Packrat.Proofs.LeftRecursion
import Packrat.Proofs.References
import Packrat.Proofs.Work
import Packrat.Proofs.Visits
import Packrat.Proofs.Scope
import Packrat.Proofs.Blanks
import Packrat.Proofs.Recovery
import Packrat.Proofs.Mirror
import Packrat.Proofs.Extraction
import Packrat.Proofs.Shift
import Packrat.Proofs.Coupling
import Packrat.Proofs.Suffix
import Packrat.Proofs.Modes
import Packrat.Proofs.Laziness
import Packrat.Proofs.Sequence
import Packrat.Proofs.Trace
import Packrat.Proofs.Repetition
import Packrat.Proofs.Delimited
import Packrat.Proofs.Frame
import Packrat.Proofs.Pairs
import Packrat.Proofs.Choices
import Packrat.Proofs.Location
import Packrat.Proofs.Range
import Packrat.Proofs.Literals
