import ScopedLisp.Text.Blank
import ScopedLisp.Text.DecimalDigit
import ScopedLisp.Text.Uppercase
import ScopedLisp.Text.Quoted
import ScopedLisp.Text.Newline
import ScopedLisp.Token.Stream
import ScopedLisp.Literal
import ScopedLisp.Value.Host
import ScopedLisp.Primitive.Apply
import ScopedLisp.Session
import ScopedLisp.Heap.Binding
import ScopedLisp.CommandLine.Program
import ScopedLisp.Main
import ScopedLisp.Proofs.Reading.Balance
import ScopedLisp.Proofs.Reading.RoundTrip
import ScopedLisp.Proofs.Reading.Completion
import ScopedLisp.Proofs.Reading.Insertion
import ScopedLisp.Proofs.Evaluation.Locality
import ScopedLisp.Proofs.Session.Growth
import ScopedLisp.Proofs.Session.Values
import ScopedLisp.Proofs.Session.Errors
import ScopedLisp.Proofs.CommandLine.Outcome
import ScopedLisp.Proofs.Evaluation.Depth
import ScopedLisp.Proofs.Session.Independence
import ScopedLisp.Proofs.CommandLine.Agreement
import ScopedLisp.Proofs.Evaluation.Unmentioned
import ScopedLisp.Proofs.Evaluation.Respelling
import ScopedLisp.Proofs.Evaluation.Purity
import ScopedLisp.Proofs.Session.Streaming
import ScopedLisp.Proofs.Reading.Queue
import ScopedLisp.Proofs.Heap.History
import ScopedLisp.Proofs.Evaluation.Unbounded
import ScopedLisp.Proofs.Form.Code
import ScopedLisp.Proofs.Evaluation.InternalDefinitions
import ScopedLisp.Proofs.Heap.Insertion
import ScopedLisp.Proofs.Evaluation.AppliedLambda
import ScopedLisp.Proofs.Evaluation.ProcedureDefinition
import ScopedLisp.Proofs.Evaluation.Clauses
import ScopedLisp.Proofs.Evaluation.MalformedForms
import ScopedLisp.Proofs.Heap.Naming
import ScopedLisp.Proofs.Evaluation.Naming
import ScopedLisp.Proofs.Primitive.IntegerDivision
import ScopedLisp.Proofs.Primitive.Division
import ScopedLisp.Proofs.Heap.Lookup
import ScopedLisp.Proofs.Value.Hash
import ScopedLisp.Proofs.Literal.Grammar
import ScopedLisp.Proofs.Evaluation.Literals
import ScopedLisp.Proofs.FirstOrder.Code
import ScopedLisp.Proofs.FirstOrder.Operation
import ScopedLisp.Proofs.FirstOrder.Scope
import ScopedLisp.Proofs.FirstOrder.Evaluation
import ScopedLisp.Proofs.Heap.StandardFrame
import ScopedLisp.Proofs.FirstOrder.Program
import ScopedLisp.Proofs.Session.DepthLimit
import ScopedLisp.Proofs.Session.Printing
