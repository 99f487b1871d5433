import TraceProbe.Bytecode.Lowering
import TraceProbe.Bytecode.Verification
import TraceProbe.Compilation
import TraceProbe.Diagnostic
import TraceProbe.Emission.Tree
import TraceProbe.Expansion
import TraceProbe.Insn.Text
import TraceProbe.Json.Reader
import TraceProbe.Node.Json
import TraceProbe.Options
import TraceProbe.Proofs.Comparison.Execution
import TraceProbe.Proofs.Compilation.Acceptance
import TraceProbe.Proofs.Compilation.Actionable
import TraceProbe.Proofs.Compilation.Arrows
import TraceProbe.Proofs.Compilation.Casts
import TraceProbe.Proofs.Compilation.Independence
import TraceProbe.Proofs.Compilation.Limits
import TraceProbe.Proofs.Compilation.Literals
import TraceProbe.Proofs.Compilation.MapCalls
import TraceProbe.Proofs.Compilation.Undisturbed
import TraceProbe.Proofs.Emission.Conversions
import TraceProbe.Proofs.Emission.PointerElements
import TraceProbe.Proofs.Lowering.Preservation
import TraceProbe.Proofs.Lowering.RoundTrip
import TraceProbe.Proofs.Lowering.Verdicts
import TraceProbe.Proofs.Machine.Ranges
import TraceProbe.Proofs.MapLanguage.Shelf
import TraceProbe.Proofs.Stream.Reservations
import TraceProbe.Proofs.Symbols.Calls
import TraceProbe.Proofs.Ty.Alignment
import TraceProbe.Proofs.Ty.Calls
import TraceProbe.Proofs.Ty.Compatibility
import TraceProbe.Proofs.Ty.Namesakes
import TraceProbe.Proofs.Typing.Alternatives
import TraceProbe.Proofs.Typing.Arrows
import TraceProbe.Proofs.Typing.FixedPoint
import TraceProbe.Proofs.Typing.Rewriting
import TraceProbe.Proofs.Verification.SafeRuns
import TraceProbe.Stream.Moves
import TraceProbe.Symbols
import TraceProbe.Text.Quoted
import TraceProbe.Ty.Compatible
import TraceProbe.Ty.Layout
import TraceProbe.Ty.Registry
import TraceProbe.Typing.Inference
import TraceProbe.Validation
