import MiniLisp.Document.Store
import MiniLisp.Main
import MiniLisp.Node.Names
import MiniLisp.Node.Source
import MiniLisp.Proofs.Source.LongestMatch
import MiniLisp.Proofs.Source.Tiling
import MiniLisp.Proofs.Source.Grammar
import MiniLisp.Proofs.Source.Reading
import MiniLisp.Proofs.Source.Placement
import MiniLisp.Proofs.Source.Written
import MiniLisp.Proofs.Source.Layout
import MiniLisp.Proofs.Source.Locality
import MiniLisp.Proofs.Source.Concatenation
import MiniLisp.Proofs.Decimal.Rounding
import MiniLisp.Proofs.Decimal.Packing
import MiniLisp.Proofs.Decimal.ReadFloat
import MiniLisp.Proofs.Decimal.FloatRoundTrip
import MiniLisp.Proofs.RoundTrip
import MiniLisp.Proofs.Evaluation.Congruence
import MiniLisp.Proofs.Evaluation.Frame
import MiniLisp.Proofs.Evaluation.Ending
import MiniLisp.Proofs.Evaluation.Agreement
import MiniLisp.Proofs.Evaluation.Unrolling
import MiniLisp.Proofs.Document.Definitions
import MiniLisp.Proofs.Evaluation.Contract
import MiniLisp.Proofs.Document.Coverage
import MiniLisp.Proofs.Evaluation.Outputs
import MiniLisp.Proofs.Value.Faults
import MiniLisp.Proofs.Evaluation.Outcome
import MiniLisp.Proofs.Evaluation.Elsewhere
import MiniLisp.Proofs.Evaluation.Commutation
import MiniLisp.Proofs.Value.NumericTower
import MiniLisp.Proofs.Value.ExactOrder
import MiniLisp.Proofs.Value.Equality
import MiniLisp.Proofs.Value.Comparison
import MiniLisp.Proofs.Value.IntegerFolds
import MiniLisp.Proofs.Session.Dialogue
import MiniLisp.Proofs.Session.Scripts
import MiniLisp.Proofs.Session.Steps
import MiniLisp.Proofs.Session.TypedScripts
import MiniLisp.Proofs.Document.Synchrony
import MiniLisp.Proofs.Document.WordRuns
import MiniLisp.Proofs.Document.Words
import MiniLisp.Proofs.Rereading
import MiniLisp.Proofs.Evaluation.Sequencing
import MiniLisp.Proofs.Evaluation.Binding
import MiniLisp.Proofs.Decimal.FloatNotation
import MiniLisp.Proofs.Value.Repetition
import MiniLisp.Proofs.Value.Inspection
import MiniLisp.Proofs.Document.Growth
import MiniLisp.Proofs.Source.Progress
