import TraceProbe.Stream.Basic
import TraceProbe.Stream.Blocks

/-!
# Moving values

Code that moves a value between registers, slots of the frame, and memory that
only a helper can read.
-/

namespace TraceProbe.Emit

/-- The width of an access to a whole value, or an inconsistency. -/
def accessWidth (size : Nat) (otherwise : String) : Emit Width :=
  match Width.ofBytes? size with
  | some width => return width
  | none => inconsistent otherwise

/-- Moves a register into a storage. -/
def storeReg (dst : Storage) (src : Reg) : Emit Unit := do
  match dst.place with
  | .register reg => if reg ≠ src then insn (.move reg src)
  | .slot offset =>
      let width ← accessWidth dst.size s!"can't store a register into {dst.size} bytes"
      insn (.store width.bits .frame src offset)
  | .unassigned => inconsistent "store to a value with no storage"

/-- A value as a signed immediate of 32 bits, if it fits. -/
def smallImmediate? (value : UInt64) : Option Int32 :=
  let signed := value.toInt64.toInt
  if -0x80000000 ≤ signed ∧ signed < 0x80000000 then some (Int32.ofInt signed) else none

/-- Puts a constant into a storage. -/
def constant (dst : Storage) (value : UInt64) : Emit Unit := do
  match dst.place, smallImmediate? value with
  | .register reg, some imm => insn (.movImm reg imm)
  | .register reg, none => insn (.wide reg value)
  | .slot offset, some imm =>
      let width ← accessWidth dst.size s!"constant stored into {dst.size} bytes"
      insn (.storeImm width.bits .frame offset imm)
  | .slot _, none =>
      insn (.wide .r0 value)
      storeReg dst .r0
  | .unassigned, _ => inconsistent "constant without storage"

/-- Loads a stored value into a register. -/
def loadReg (dst : Reg) (src : Storage) : Emit Unit := do
  match src.place with
  | .register reg => if reg ≠ dst then insn (.move dst reg)
  | .slot offset =>
      let width ← accessWidth src.size s!"can't load {src.size} bytes into a register"
      insn (.load width.bits dst .frame offset)
  | .unassigned => inconsistent "load from a value with no storage"

/-- Shifts that repeat the sign of a narrow value through all 64 bits. -/
def signExtension (dst : Reg) (size : Nat) : List Insn :=
  let shift := Int32.ofInt (64 - 8 * size)
  [.alu64Imm Opcode.lsh dst shift, .alu64Imm Opcode.arsh dst shift]

/-- Loads a stored value into a register and widens it to 64 bits. -/
def loadWidened (dst : Reg) (src : Storage) (signed : Bool) : Emit Unit := do
  loadReg dst src
  if signed && src.size < 8 then code (signExtension dst src.size)

/-- Code that walks over the frame counts positions with 32 bits, up to the one
behind its last byte. -/
def reach (stop : Int) : Emit Unit :=
  if stop < 0x80000000 then return () else throw (.defect .framePosition)

/-- Clears bytes of the frame. -/
def clear (offset : Int16) (size : Nat) : Emit Unit := do
  reach (offset.toInt + size)
  code (Block.clear offset size)

/-- Fills a part of the frame with given bytes. -/
def fill (offset : Int16) (bytes : List UInt8) : Emit Unit := do
  reach (offset.toInt + bytes.length)
  if Block.sliced bytes (Block.cut 4 offset.toInt offset.toInt bytes.length) then
    code (Block.fill offset bytes)
  else throw (.defect .slice)

/-- Copies a stored value into the frame. -/
def copyToSlot (offset : Int16) (src : Storage) : Emit Unit := do
  match src.place with
  | .register reg =>
      let width ← accessWidth src.size s!"register value of {src.size} bytes"
      insn (.store width.bits .frame reg offset)
  | .slot start => code (Block.copy offset start src.size)
  | .unassigned => inconsistent "copy from a value with no storage"

/-- Copies a stored value into another storage. -/
def copyTo (dst src : Storage) : Emit Unit := do
  match dst.place with
  | .register reg => loadReg reg src
  | .slot offset => copyToSlot offset src
  | .unassigned => inconsistent "copy to a value with no storage"

/-- The last position that a copy of a stored value counts: nothing is counted
outside the frame, or where the value is already. -/
def copyEnd (dst src : Storage) : Int :=
  match dst.place, src.place with
  | .slot target, .slot start =>
      if target = start then 0 else max target.toInt start.toInt + src.size
  | _, _ => 0

/-- Reads memory at the address in a register into a slot.  The helper call
leaves nothing in `r1` to `r5`. -/
def readFrom (dst : Storage) (src : Reg) : Emit Unit := do
  match dst.slot? with
  | none => inconsistent "helper read into a value not on the stack"
  | some offset =>
      if src ≠ .r3 then insn (.move .r3 src)
      insn (.movImm .r2 (Int32.ofNat dst.size))
      code (Block.address .r1 offset)
      insn (.callOf .probeRead)

/-- Jumps to a label if a register holds a value. -/
def jumpIfEqual (reg : Reg) (imm : Int32) (target : Label) : Emit Unit :=
  insn (.jumpImm Opcode.jeq reg imm target)

/-- Jumps to a label unless a register holds a value. -/
def jumpIfDifferent (reg : Reg) (imm : Int32) (target : Label) : Emit Unit :=
  insn (.jumpImm Opcode.jne reg imm target)

end TraceProbe.Emit
