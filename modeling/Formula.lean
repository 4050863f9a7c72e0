import Formula.Main
import Formula.Proofs.Binding
import Formula.Proofs.Binding.Assignment
import Formula.Proofs.Built
import Formula.Proofs.Climbing.Accounting
import Formula.Proofs.Climbing.EarlyEnd
import Formula.Proofs.Climbing.LeastPower
import Formula.Proofs.Climbing.Pulls
import Formula.Proofs.Factorial
import Formula.Proofs.Folding.Rereading
import Formula.Proofs.Folding.Stepping
import Formula.Proofs.Number
import Formula.Proofs.Printing.RoundTrip
import Formula.Proofs.Pushdown
import Formula.Proofs.Rendering
import Formula.Proofs.Respacing
import Formula.Proofs.Spans.Errors
import Formula.Proofs.Spans.Placement
import Formula.Proofs.Stream
import Formula.Proofs.Substitution
import Formula.Proofs.Transcript
