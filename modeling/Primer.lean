import Primer.Main
import Primer.Proofs.Grammar.ReadProgram
import Primer.Proofs.Typing.Soundness
import Primer.Proofs.Decimal
import Primer.Proofs.Lexing.Munch
import Primer.Proofs.Lexing.Front
import Primer.Proofs.Lexing.Scan
import Primer.Proofs.Lexing.Cut
import Primer.Proofs.Lexing.Closed
import Primer.Proofs.Cap
import Primer.Proofs.Loops
import Primer.Proofs.StoreHistory
import Primer.Proofs.RoundTrip.Writer
import Primer.Proofs.RoundTrip.Cutting
import Primer.Proofs.RoundTrip.Rereading
import Primer.Proofs.Coupling
import Primer.Proofs.Locality
import Primer.Proofs.Retention
import Primer.Proofs.Diagnostics
import Primer.Proofs.Prompt.Expression
import Primer.Proofs.Prompt.Statement
import Primer.Proofs.Prompt.Program
import Primer.Proofs.Step
import Primer.Proofs.Limit
import Primer.Proofs.Frame
import Primer.Proofs.History
import Primer.Proofs.InputLines
import Primer.Proofs.Redeclaration
import Primer.Proofs.Layout.Insertion
import Primer.Proofs.Layout.Padding
import Primer.Proofs.Layout.Source
import Primer.Proofs.Grammar.Openings
import Primer.Proofs.Grammar.Execution
import Primer.Proofs.LineFeeds
import Primer.Proofs.OneLine
import Primer.Proofs.Evaluation.FirstFault
import Primer.Proofs.Evaluation.Kinds
import Primer.Proofs.Evaluation.Integers
import Primer.Proofs.Input.Commit
import Primer.Proofs.Input.Pieces
import Primer.Proofs.Input.ReadBack
import Primer.Proofs.Input.Joining
import Primer.Proofs.Laws.Choice
import Primer.Proofs.Laws.Unrolling
import Primer.Proofs.Laws.Concatenation
import Primer.Proofs.UpToFault
import Primer.Proofs.Laws.Commutation
import Primer.Proofs.Laws.Parentheses
import Primer.Proofs.Progress.Advance
import Primer.Proofs.Progress.Rules
import Primer.Proofs.Progress.Termination
