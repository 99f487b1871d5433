import TraceProbe.Emission.Basic

/-!
# Emission of string operators

A comparison walks over both strings byte by byte and leaves at the first
difference or at the end of a string.  Reads are helper calls; a string read
clears its buffer first, since the helper writes no more than the string.
-/

namespace TraceProbe

/-- What a string in the frame is compared with. -/
inductive Comparand where
  /-- Another string in the frame. -/
  | slot (offset : Int16)
  /-- The bytes of a literal with the zero byte that ends it. -/
  | literal (bytes : List UInt8)

namespace Comparand

/-- The byte of a literal at a position; behind its end are zeros. -/
def byte? (comparand : Comparand) (position : Nat) : Option UInt8 :=
  match comparand with
  | slot _ => none
  | literal bytes => some (bytes[position]?.getD 0)

/-- Subtracts the byte at a position from a register. -/
def subtract (comparand : Comparand) (dst : Reg) (position : Nat) :
    Except Fault (List Insn) :=
  match comparand with
  | slot offset => do
      let place ← movedOffset offset position
      return [.load Width.byte.bits .r1 .frame place, .alu64Reg Opcode.sub dst .r1]
  | literal bytes =>
      return [.alu64Imm Opcode.sub dst (Int32.ofNat (bytes[position]?.getD 0).toNat)]

/-- Jumps that leave the comparison behind a position: at the end of the second
string, and at a difference. -/
def leave (comparand : Comparand) (dst : Reg) (done : Label) : List Insn :=
  match comparand with
  | slot _ => [.jumpImm Opcode.jeq .r1 0 done, .jumpImm Opcode.jne dst 0 done]
  | literal _ => [.jumpImm Opcode.jne dst 0 done]

/-- Compares from a position on, with so many bytes left.  Behind the end of a
literal nothing is left to compare. -/
def compareFrom (comparand : Comparand) (dst : Reg) (base : Int16) (done : Label)
    (position : Nat) : Nat → Except Fault (List Insn)
  | 0 => return []
  | left + 1 => do
      let place ← movedOffset base position
      let difference ← comparand.subtract dst position
      let compared := .load Width.byte.bits dst .frame place :: difference
      if left = 0 || comparand.byte? position = some 0 then return compared
      else
        let rest ← compareFrom comparand dst base done (position + 1) left
        return compared ++ comparand.leave dst done ++ rest

end Comparand

namespace AtSite

/-- Both operands of a comparison, a literal second, and whether they changed
places. -/
def comparisonOperands (node : Node) : AtSite (Node × Node × Bool) :=
  match node.args with
  | [left, right] =>
      if left.str?.isSome then return (right, left, true) else return (left, right, false)
  | _ => throw (.internal "strcmp without two operands")

/-- What the second operand of a comparison is. -/
def comparandOf (node : Node) : AtSite Comparand := do
  match node.str? with
  | some value => return .literal (value.toUTF8.toList ++ [0])
  | none => return .slot (← slotOfNode node)

/-- Emits a string comparison: the difference of the first bytes that differ,
or zero.  Operands that changed places turn the sign of the result. -/
def emitStrcmp (node : Node) (request : Request) : AtSite Unit := do
  let own ← allocateFor node request
  let (left, right, swapped) ← comparisonOperands node
  let base ← slotOfNode left
  let comparand ← comparandOf right
  let length := min (← left.knownType).size (← right.knownType).size
  let dst := own.register?.getD .r0
  let done ← Emit.freshLabel
  Emit.code (← comparand.compareFrom dst base done 0 length)
  Emit.bind done
  if swapped then Emit.insn (.alu64Imm Opcode.neg dst 0)
  Emit.storeReg own dst

/-- Emits a read of raw bytes. -/
def emitMem (node : Node) (request : Request) : AtSite Unit := do
  let own ← allocateFor node request
  let pointer ← node.argument 0
  Emit.loadReg .r3 pointer.storage
  Emit.readFrom own .r3

/-- Emits a read of a string. -/
def emitStr (node : Node) (request : Request) : AtSite Unit := do
  let own ← allocateFor node request
  let offset ← slotOf own "string buffer not on the stack"
  Emit.clear offset own.size
  let pointer ← node.argument 0
  Emit.loadReg .r3 pointer.storage
  Emit.code (Block.address .r1 offset)
  Emit.insn (.movImm .r2 (Int32.ofNat own.size))
  Emit.insn (.callOf .probeReadStr)

end AtSite

end TraceProbe
