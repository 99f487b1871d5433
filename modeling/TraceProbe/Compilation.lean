import TraceProbe.Bytecode.Lowering
import TraceProbe.Emission.Tree
import TraceProbe.Probe
import TraceProbe.Expansion
import TraceProbe.Typing.Inference

/-!
# Compilation

A probe is expanded and validated statement by statement, typed as a whole,
emitted into one stream, lowered and checked.  The probes of a unit share one
type registry, which keeps what it learned from a probe that fails.
-/

namespace TraceProbe

/-- Expands and validates one statement. -/
def Node.prepare (statement : Node) : Except Fault Node := do
  let expanded := statement.expand
  expanded.outcome
  expanded.tree.validate
  return expanded.tree

/-- Saves the context, which the kernel passes in `r1`. -/
def prologue : List Insn :=
  [.move .context .r1]

/-- Returns zero. -/
def epilogue : List Insn :=
  [.movImm .r0 0, .leave]

/-- Emits all statements of a probe between prologue and epilogue. -/
def emitStatements (options : Options) (symbols : Symbols) (statements : List Node) :
    Except Fault Stream := do
  let requests := statements.map fun _ => ({} : Request)
  let emitted := Node.emitAll symbols statements requests
    ((Stream.new options.maxStack).append prologue)
  emitted.outcome
  return emitted.stream.append epilogue

/-- Checks a program, and turns its violations into one diagnostic. -/
def checkProgram (options : Options) (program : List MachineInsn) : Except Diagnostic Report :=
  let report := Program.verify { maxStack := options.maxStack } program
  if report.valid then .ok report
  else .error (.rejectedProgram ("; ".intercalate (report.violations.map Violation.text)))

/-- Compiles typed statements. -/
def compileTyped (options : Options) (name : String) (symbols : Symbols)
    (statements : List Node) : Except Fault CompiledProbe := do
  let stream ← emitStatements options symbols statements
  let listing := stream.insns.toList
  let program ← Insn.lower listing
  let report ← checkProgram options program
  let maps ← MapSpec.ofSymbols options.mapEntries symbols
  return ⟨name, listing, program, maps, stream.used, report⟩

/-- Compiles a probe, and returns the registry as the probe leaves it. -/
def compile (options : Options) (types : Registry) (probe : Probe) :
    Except Fault CompiledProbe × Registry :=
  match probe.statements.mapM Node.prepare with
  | .error fault => (.error fault, types)
  | .ok statements =>
      let typed := Node.inferTypes options statements ⟨probe.symbols, types⟩
      let compiled := do
        typed.outcome
        compileTyped options probe.name typed.scope.symbols typed.tree
      (compiled, typed.scope.types)

/-- Compiles probes one after the other, with the registry after each. -/
def compileEach (options : Options) (types : Registry) :
    List Probe → List (Except Fault CompiledProbe × Registry)
  | [] => []
  | probe :: probes =>
      let result := compile options types probe
      result :: compileEach options result.2 probes

/-- Compiles all probes of a unit, and returns the registry they leave. -/
def compileAll (options : Options) (types : Registry) (probes : List Probe) :
    List (Except Fault CompiledProbe) × Registry :=
  let results := compileEach options types probes
  (results.map (·.1), (results.getLast?.map (·.2)).getD types)

end TraceProbe
