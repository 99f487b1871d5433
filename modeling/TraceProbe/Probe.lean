import TraceProbe.Bytecode.Verification
import TraceProbe.Node.Basic
import TraceProbe.Options
import TraceProbe.Symbols
import TraceProbe.Ty.Layout

/-!
# Probes

A probe is a list of statements with the symbols they refer to.  Compiled, it
is a program together with the maps that a loader has to create for it.
-/

namespace TraceProbe

/-- Statements in order of execution and their symbols. -/
structure Probe where
  name : String
  statements : List Node := []
  symbols : Symbols := {}
deriving Inhabited

/-- A map that must exist before a probe is attached. -/
structure MapSpec where
  /-- The number by which the program refers to the map. -/
  number : Nat
  name : String
  /-- The kernel's number for the kind of map. -/
  kind : Nat
  keySize : Nat
  valueSize : Nat
  /-- The number of entries it can hold. -/
  entries : Nat
deriving DecidableEq, Inhabited

namespace MapSpec

/-- What the loader needs to know about a map whose type is known. -/
def ofSymbol (entries : Nat) (symbol : Symbol) : Except Diagnostic MapSpec :=
  match symbol.kind, symbol.type with
  | .map number, some (.map key value kind) =>
      .ok ⟨number, symbol.name, kind.number, key.size, value.size, entries⟩
  | .map _, _ => .error (.unresolvedType symbol.name {})
  | .context _, _ => .error (.internal s!"`{symbol.name}` is not a map")

/-- All maps of a probe, in order of their numbers. -/
def ofSymbols (entries : Nat) (symbols : Symbols) : Except Diagnostic (List MapSpec) :=
  symbols.maps.mapM (ofSymbol entries)

/-- The form in which a loader takes a map. -/
def toJson (spec : MapSpec) : Json :=
  .record [("id", .nat spec.number), ("name", .text spec.name), ("map_type", .nat spec.kind),
    ("key_size", .nat spec.keySize), ("value_size", .nat spec.valueSize),
    ("max_entries", .nat spec.entries)]

end MapSpec

/-- A probe ready to be loaded. -/
structure CompiledProbe where
  name : String
  /-- The symbolic instructions before lowering. -/
  listing : List Insn
  program : List MachineInsn
  maps : List MapSpec
  /-- Bytes of the frame in use. -/
  stackSize : Nat
  report : Report
deriving Inhabited

namespace CompiledProbe

/-- The bytes of the program. -/
def bytecode (probe : CompiledProbe) : List UInt8 :=
  encodeProgram probe.program

/-- One line of a listing: labels stand out, instructions are indented. -/
def listingLine : Insn → String
  | .label name => (Insn.label name).text
  | insn => "    " ++ insn.text

/-- The lines of the listing. -/
def listingLines (probe : CompiledProbe) : List String :=
  probe.listing.map listingLine

end CompiledProbe

end TraceProbe
