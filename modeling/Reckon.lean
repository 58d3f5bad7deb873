import Reckon.CommandLine.Report
import Reckon.CompiledFunction
import Reckon.Host.Trial
import Reckon.Main
import Reckon.Proofs.Evaluation.Balance
import Reckon.Proofs.Evaluation.Binding
import Reckon.Proofs.Evaluation.Composition
import Reckon.Proofs.Evaluation.Constants
import Reckon.Proofs.Evaluation.Determined
import Reckon.Proofs.Evaluation.FreeVariables
import Reckon.Proofs.Evaluation.Isolation
import Reckon.Proofs.Evaluation.NormalForm
import Reckon.Proofs.Evaluation.Parameters
import Reckon.Proofs.Evaluation.Readability
import Reckon.Proofs.Evaluation.Sizes
import Reckon.Proofs.Evaluation.Staging
import Reckon.Proofs.Evaluation.Substitution
import Reckon.Proofs.Lexing.Decimals
import Reckon.Proofs.Lexing.Layout
import Reckon.Proofs.Lexing.Locations
import Reckon.Proofs.Lexing.Switches
import Reckon.Proofs.Rendering.Parentheses
import Reckon.Session
