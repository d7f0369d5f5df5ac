import BraceScript.Main
import BraceScript.Proofs.Branches
import BraceScript.Proofs.Calls
import BraceScript.Proofs.Comparisons
import BraceScript.Proofs.Constancy
import BraceScript.Proofs.Decimals
import BraceScript.Proofs.Declarations
import BraceScript.Proofs.Definedness
import BraceScript.Proofs.Discipline
import BraceScript.Proofs.ForHeaders
import BraceScript.Proofs.Giving
import BraceScript.Proofs.Lawfulness
import BraceScript.Proofs.LiteralNodes
import BraceScript.Proofs.LiteralValues
import BraceScript.Proofs.NameInvariance
import BraceScript.Proofs.OperatorForms
import BraceScript.Proofs.Origins
import BraceScript.Proofs.Positions
import BraceScript.Proofs.Recursion
import BraceScript.Proofs.Redeclaration
import BraceScript.Proofs.Resolution
import BraceScript.Proofs.RoundTrip
import BraceScript.Proofs.Safety
import BraceScript.Proofs.Speculation
import BraceScript.Proofs.Stretches
import BraceScript.Proofs.Tokenization
import BraceScript.Proofs.Truths
import BraceScript.Proofs.WrittenTrees
import BraceScript.Proofs.ZeroDivision
import BraceScript.Text.Span
import BraceScript.Workload.Finding
import BraceScript.Proofs.Attempts
