import Tapelang.Main
import Tapelang.Text.Template
import Tapelang.Brackets
import Tapelang.Interpreter
import Tapelang.Code.LoopTree
import Tapelang.Code.Expansion
import Tapelang.Proofs.BracketMatching
import Tapelang.Proofs.Meaning
import Tapelang.Proofs.SafeRuns
import Tapelang.Proofs.CodeRoundTrip
import Tapelang.Proofs.LoopGrammar
import Tapelang.Proofs.Folding
import Tapelang.Proofs.Recompiling
import Tapelang.Proofs.SourceMap
import Tapelang.Proofs.Output
import Tapelang.Proofs.Exits
import Tapelang.Proofs.UncheckedCode
import Tapelang.Proofs.ReadFailures
import Tapelang.Proofs.Transcript
import Tapelang.Proofs.Events
import Tapelang.Proofs.Observation
import Tapelang.Proofs.StepLimit
import Tapelang.Proofs.Cancellation
import Tapelang.Proofs.CodeRereading
import Tapelang.Proofs.InputBytes
import Tapelang.Proofs.Causality
import Tapelang.Proofs.WriteCalls
import Tapelang.Proofs.Statistics
import Tapelang.Proofs.Concatenation
import Tapelang.Proofs.Ink
import Tapelang.Proofs.TableLines
import Tapelang.Proofs.Colours
import Tapelang.Proofs.JsonIndented
import Tapelang.Proofs.Disassembling
import Tapelang.Proofs.PendingLoops
import Tapelang.Proofs.CompilerReuse
