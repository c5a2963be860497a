import Primer.Main
import Primer.Session
import Primer.Proofs.Machine.Outcome
import Primer.Proofs.Typing.Rules
import Primer.Proofs.Typing.Inspection
import Primer.Proofs.Typing.Walk
import Primer.Proofs.Typing.Expression
import Primer.Proofs.Tree.Shape
import Primer.Proofs.Typing.Statement
import Primer.Proofs.Typing.Program
import Primer.Proofs.Machine.Environment
import Primer.Proofs.Soundness.Environment
import Primer.Proofs.Soundness.Execution
import Primer.Proofs.Soundness.Call
import Primer.Proofs.Soundness.Program
import Primer.Proofs.Machine.Fuel
import Primer.Proofs.Typing.Complete
import Primer.Proofs.Machine.Call
import Primer.Proofs.Soundness.Point
import Primer.Proofs.Soundness.Reach
import Primer.Proofs.Grammar.Reader
import Primer.Proofs.Grammar.Rules
import Primer.Proofs.Grammar.Sound
import Primer.Proofs.Soundness.Checked
import Primer.Proofs.Soundness.Missing
import Primer.Proofs.Grammar.Complete.Expression
import Primer.Proofs.Grammar.Complete.Program
import Primer.Proofs.Grammar.Layout
import Primer.Proofs.Grammar.Canonical
import Primer.Proofs.Token.Lexable
import Primer.Proofs.Tree.Spelling
import Primer.Proofs.Tree.RoundTrip
import Primer.Proofs.Grammar.Exact
import Primer.Proofs.Typing.Exact
import Primer.Proofs.Machine.Steady
import Primer.Proofs.Machine.Depth
import Primer.Proofs.Layout.Checking
import Primer.Proofs.Layout.Running
import Primer.Proofs.Layout.Meaning
import Primer.Proofs.Naming.Renaming
import Primer.Proofs.Naming.Numbering
import Primer.Proofs.Naming.Accepted
import Primer.Proofs.Naming.Environment
import Primer.Proofs.Naming.Simulation
import Primer.Proofs.Naming.Program
import Primer.Proofs.Naming.Distinct
import Primer.Proofs.Machine.Shape
import Primer.Proofs.Machine.Interference
import Primer.Proofs.Typing.Weakening
import Primer.Proofs.Layout.FunctionOrder
import Primer.Proofs.Output.Printing
import Primer.Proofs.Output.Bounded
import Primer.Proofs.Machine.Termination
import Primer.Proofs.Machine.Values
import Primer.Proofs.Soundness.Slots
import Primer.Proofs.Token.RoundTrip
import Primer.Proofs.Token.Munch
import Primer.Proofs.Machine.Results
import Primer.Proofs.Flow.Walk
import Primer.Proofs.Flow.Exit
import Primer.Proofs.Flow.Unreachable
import Primer.Proofs.Flow.DefiniteReturn
import Primer.Proofs.Machine.Scopes
import Primer.Proofs.Machine.ForLoop
import Primer.Proofs.Flow.Switch
import Primer.Proofs.Output.Format
import Primer.Proofs.Token.Positions
import Primer.Proofs.CrossReference.Occurrence
import Primer.Proofs.CrossReference.Follows
import Primer.Proofs.CrossReference.Walk
import Primer.Proofs.CrossReference.Table
import Primer.Proofs.Tree.Parentheses
import Primer.Proofs.Grammar.Prompt
import Primer.Proofs.Grammar.Failure
import Primer.Proofs.Machine.Arithmetic
import Primer.Proofs.Typing.Uniform
import Primer.Proofs.Typing.Isolation
import Primer.Proofs.Machine.Remainder
import Primer.Proofs.Token.Comment
import Primer.Proofs.CrossReference.Lookup
import Primer.Proofs.Grammar.Sites
import Primer.Proofs.Typing.Reports
import Primer.Proofs.Typing.ExpressionOrder
import Primer.Proofs.Typing.SourceOrder
import Primer.Proofs.Grammar.Progress
import Primer.Proofs.Machine.Assignment
import Primer.Proofs.Typing.Recorded
