import TraceProbe.Insn.Opcode

/-!
# Machine instructions

An instruction as the kernel takes it, and its bytes.  An instruction takes
one slot of eight bytes; one with an upper immediate takes two.  All fields are
little-endian, and both register numbers share one byte.
-/

namespace TraceProbe

/-- An instruction with machine registers and distances instead of labels. -/
structure MachineInsn where
  opcode : UInt8
  dst : UInt8
  src : UInt8
  /-- Memory offset, or distance of a jump in slots from the next slot. -/
  offset : Int16
  imm : Int32
  /-- The upper half of a 64-bit immediate. -/
  upper : Option UInt32 := none
deriving DecidableEq, Inhabited

/-- The low bytes of a number, lowest first. -/
def littleEndian : Nat → Nat → List UInt8
  | 0, _ => []
  | count + 1, value => UInt8.ofNat value :: littleEndian count (value / 256)

@[simp] theorem length_littleEndian (count value : Nat) :
    (littleEndian count value).length = count := by
  induction count generalizing value with
  | zero => rfl
  | succ count ih => simp [littleEndian, ih]

namespace MachineInsn

/-- A load of a 64-bit immediate, with its halves apart. -/
def wide (dst src : UInt8) (value : UInt64) : MachineInsn where
  opcode := Opcode.lddw
  dst := dst
  src := src
  offset := 0
  imm := value.toUInt32.toInt32
  upper := some (value >>> 32).toUInt32

/-- The number of slots an instruction takes. -/
def slots (insn : MachineInsn) : Nat :=
  if insn.upper.isSome then 2 else 1

/-- The number of bytes an instruction takes. -/
def size (insn : MachineInsn) : Nat :=
  8 * insn.slots

/-- The byte that holds the low four bits of both register numbers. -/
def registerByte (insn : MachineInsn) : UInt8 :=
  (insn.dst &&& (0xf : UInt8)) ||| ((insn.src &&& (0xf : UInt8)) <<< (4 : UInt8))

/-- The bytes of an instruction. -/
def encode (insn : MachineInsn) : List UInt8 :=
  [insn.opcode, insn.registerByte] ++
    littleEndian 2 insn.offset.toUInt16.toNat ++
    littleEndian 4 insn.imm.toUInt32.toNat ++
    match insn.upper with
    | none => []
    | some upper => [0, 0, 0, 0] ++ littleEndian 4 upper.toNat

@[simp] theorem length_encode (insn : MachineInsn) : insn.encode.length = insn.size := by
  cases found : insn.upper <;> simp [encode, size, slots, found]

end MachineInsn

/-- The bytes of a program. -/
def encodeProgram (program : List MachineInsn) : List UInt8 :=
  program.flatMap MachineInsn.encode

end TraceProbe
