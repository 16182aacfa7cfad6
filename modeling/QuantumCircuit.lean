import QuantumCircuit.CommandLine.Directory
import QuantumCircuit.Main
import QuantumCircuit.Proofs.Expansion.Safety
import QuantumCircuit.Proofs.Library.Layers
import QuantumCircuit.Proofs.Session.Formatting
import QuantumCircuit.Proofs.Token.LongestMatch
import QuantumCircuit.Proofs.Library.InFront
import QuantumCircuit.Proofs.Grammar.Lookahead
import QuantumCircuit.Proofs.Grammar.Guidance
import QuantumCircuit.Proofs.Grammar.Viable
import QuantumCircuit.Proofs.Grammar.FirstError
import QuantumCircuit.Proofs.Position
import QuantumCircuit.Proofs.Token.Coverage
import QuantumCircuit.Proofs.Token.Spacing
import QuantumCircuit.Proofs.CommandLine.Arguments
import QuantumCircuit.Proofs.CommandLine.Run
import QuantumCircuit.Proofs.Grammar.Alike
import QuantumCircuit.Proofs.Grammar.Anchors
import QuantumCircuit.Proofs.Session.Diagnostics
import QuantumCircuit.Proofs.Session.Layout
import QuantumCircuit.Proofs.Grammar.Derivation
import QuantumCircuit.Proofs.Printing.Signs
import QuantumCircuit.Proofs.Validity.CallOrder
import QuantumCircuit.Proofs.Validity.Broadcast
import QuantumCircuit.Proofs.Grammar.SourceOrder
import QuantumCircuit.Proofs.Cursor.Context
import QuantumCircuit.Proofs.Printing.Parentheses
import QuantumCircuit.Proofs.Evaluation
import QuantumCircuit.Proofs.Grammar.Modes
import QuantumCircuit.Proofs.Grammar.Omission
import QuantumCircuit.Proofs.Grammar.Stuck
import QuantumCircuit.Proofs.Text.ByteOrder
import QuantumCircuit.Proofs.Validity.Reports
import QuantumCircuit.Proofs.Grammar.StuckExpression
import QuantumCircuit.Proofs.Grammar.StuckStatement
import QuantumCircuit.Proofs.Grammar.Alternatives
