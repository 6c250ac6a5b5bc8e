import ScopeLisp.Eval.Host
import ScopeLisp.Expr.Dump
import ScopeLisp.Expr.Equality
import ScopeLisp.Main
import ScopeLisp.Proofs.Agreement
import ScopeLisp.Proofs.AppendOnly
import ScopeLisp.Proofs.Primitives
import ScopeLisp.Proofs.ClosedStores
import ScopeLisp.Proofs.DepthLimit
import ScopeLisp.Proofs.Isolation
import ScopeLisp.Proofs.Termination
import ScopeLisp.Proofs.WrittenCode
import ScopeLisp.Proofs.Lexing
import ScopeLisp.Proofs.Grammar
import ScopeLisp.Proofs.RoundTrip
import ScopeLisp.Proofs.Concatenation
import ScopeLisp.Proofs.Sequencing
import ScopeLisp.Proofs.Dialogue
import ScopeLisp.Proofs.Normalization
import ScopeLisp.Proofs.Positions
import ScopeLisp.Proofs.ErrorSpans
import ScopeLisp.Proofs.Descent
import ScopeLisp.Proofs.Resumption
import ScopeLisp.Proofs.FunctionIdentity
import ScopeLisp.Proofs.Bindings
import ScopeLisp.Proofs.Enclosure
import ScopeLisp.Proofs.StraightLine
import ScopeLisp.Proofs.Shadowing
import ScopeLisp.Proofs.Independence
import ScopeLisp.Proofs.NumericOperators
import ScopeLisp.Proofs.ParallelBinding
import ScopeLisp.Proofs.TruthOperators
import ScopeLisp.Proofs.Templates
import ScopeLisp.Proofs.SingleExpressions
import ScopeLisp.Proofs.NumberText
import ScopeLisp.Proofs.LeafAgreement
import ScopeLisp.Proofs.LookupModes
