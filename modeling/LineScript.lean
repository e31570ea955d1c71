import LineScript.Main
import LineScript.Proofs.Evaluation.Iteration
import LineScript.Proofs.Evaluation.Lengths
import LineScript.Proofs.Evaluation.Location
import LineScript.Proofs.Evaluation.Orderliness
import LineScript.Proofs.Evaluation.Wording
import LineScript.Proofs.Heap.Marking
import LineScript.Proofs.Operation.Indexing
import LineScript.Proofs.Operation.Proportion
import LineScript.Proofs.Operation.Range
import LineScript.Proofs.Operation.Slicing
import LineScript.Proofs.Program.Expansion
import LineScript.Proofs.Scope.Forest
import LineScript.Proofs.Session.Isolation
import LineScript.Proofs.Session.Release
import LineScript.Proofs.Session.Rereading
import LineScript.Proofs.Token.Printing
import LineScript.Proofs.Operation.Comparison
import LineScript.Proofs.Operation.Conversion
import LineScript.Proofs.Operation.Extent
import LineScript.Proofs.Scope.Arena
import LineScript.Proofs.Operation.Freshness
import LineScript.Proofs.RingBuffer.Queue
