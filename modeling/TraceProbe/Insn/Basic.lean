import TraceProbe.Insn.Opcode

/-!
# Symbolic instructions

Until lowering, registers may be virtual and jumps name a label instead of a
distance.

Register `r0` holds helper results and scratch values, `r1` to `r5` helper
arguments, `r6` to `r8` the virtual registers, `r9` the saved probe context,
and `r10` the frame pointer.
-/

namespace TraceProbe

/-- A register operand. -/
inductive Reg where
  | machine (number : UInt8)
  /-- A register that lowering maps to a machine register. -/
  | virtual (number : Nat)
deriving DecidableEq, Inhabited

namespace Reg

/-- Helper result and scratch. -/
def r0 : Reg := machine 0

def r1 : Reg := machine 1
def r2 : Reg := machine 2
def r3 : Reg := machine 3
def r4 : Reg := machine 4

/-- The saved probe context. -/
def context : Reg := machine 9

/-- The read-only frame pointer. -/
def frame : Reg := machine 10

/-- The number of a virtual register. -/
def virtual? : Reg → Option Nat
  | virtual number => some number
  | machine _ => none

end Reg

/-- Kernel functions that a program may call. -/
inductive Helper where
  | mapLookupElem
  | mapUpdateElem
  | mapDeleteElem
  | probeRead
  | probeReadStr
deriving DecidableEq, Inhabited

namespace Helper

/-- The number by which the kernel knows a helper. -/
def id : Helper → Int32
  | mapLookupElem => 1
  | mapUpdateElem => 2
  | mapDeleteElem => 3
  | probeRead => 4
  | probeReadStr => 45

/-- The helper of a given number. -/
def ofId? (id : Int32) : Option Helper :=
  [mapLookupElem, mapUpdateElem, mapDeleteElem, probeRead, probeReadStr].find? (·.id = id)

theorem ofId?_id (helper : Helper) : ofId? helper.id = some helper := by
  cases helper <;> decide

/-- The name of a helper in listings. -/
def name : Helper → String
  | mapLookupElem => "MapLookupElem"
  | mapUpdateElem => "MapUpdateElem"
  | mapDeleteElem => "MapDeleteElem"
  | probeRead => "ProbeRead"
  | probeReadStr => "ProbeReadStr"

end Helper

/-- A place in the stream that jumps may name before it is reached. -/
structure Label where
  index : Nat
deriving DecidableEq, Inhabited

/-- A symbolic instruction. -/
inductive Insn where
  /-- An instruction of eight bytes. -/
  | plain (code : UInt8) (dst src : Reg) (off : Int16) (imm : Int32)
  /-- Load of a 64-bit immediate, in two slots. -/
  | wide (dst : Reg) (value : UInt64)
  /-- Load of a reference to a map, in two slots. -/
  | mapRef (dst : Reg) (map : Nat)
  /-- Jump to a label. -/
  | jump (code : UInt8) (dst src : Reg) (imm : Int32) (target : Label)
  /-- The place where a label is bound. -/
  | label (name : Label)
deriving DecidableEq, Inhabited

namespace Insn

open Opcode

/-- Arithmetic on 64 bits with an immediate. -/
def alu64Imm (operation : UInt8) (dst : Reg) (imm : Int32) : Insn :=
  plain (alu64 ||| operation ||| immediateOperand) dst .r0 0 imm

/-- Arithmetic on 64 bits with a register. -/
def alu64Reg (operation : UInt8) (dst src : Reg) : Insn :=
  plain (alu64 ||| operation ||| registerOperand) dst src 0 0

/-- Arithmetic on 32 bits with an immediate. -/
def alu32Imm (operation : UInt8) (dst : Reg) (imm : Int32) : Insn :=
  plain (alu32 ||| operation ||| immediateOperand) dst .r0 0 imm

/-- Arithmetic on 32 bits with a register. -/
def alu32Reg (operation : UInt8) (dst src : Reg) : Insn :=
  plain (alu32 ||| operation ||| registerOperand) dst src 0 0

/-- Sets a register to an immediate. -/
def movImm (dst : Reg) (imm : Int32) : Insn :=
  alu64Imm mov dst imm

/-- Copies a register. -/
def move (dst src : Reg) : Insn :=
  alu64Reg mov dst src

/-- Loads a register from memory; the width is given by its opcode bits. -/
def load (width : UInt8) (dst base : Reg) (off : Int16) : Insn :=
  plain (ldx ||| width ||| memoryMode) dst base off 0

/-- Stores a register to memory; the width is given by its opcode bits. -/
def store (width : UInt8) (base src : Reg) (off : Int16) : Insn :=
  plain (stx ||| width ||| memoryMode) base src off 0

/-- Stores an immediate to memory; the width is given by its opcode bits. -/
def storeImm (width : UInt8) (base : Reg) (off : Int16) (imm : Int32) : Insn :=
  plain (st ||| width ||| memoryMode) base .r0 off imm

/-- Calls a helper. -/
def callOf (helper : Helper) : Insn :=
  plain callHelper .r0 .r0 0 helper.id

/-- Returns from the program. -/
def leave : Insn :=
  plain exitProgram .r0 .r0 0 0

/-- Jumps when a comparison with an immediate holds. -/
def jumpImm (operation : UInt8) (dst : Reg) (imm : Int32) (target : Label) : Insn :=
  jump (jmp ||| operation ||| immediateOperand) dst .r0 imm target

/-- Jumps always. -/
def goto (target : Label) : Insn :=
  jump (jmp ||| ja) .r0 .r0 0 target

/-- The number of eight-byte slots an instruction takes. -/
def slots : Insn → Nat
  | wide _ _ | mapRef _ _ => 2
  | label _ => 0
  | plain _ _ _ _ _ | jump _ _ _ _ _ => 1

/-- The registers an instruction mentions. -/
def regs : Insn → List Reg
  | plain _ dst src _ _ | jump _ dst src _ _ => [dst, src]
  | wide dst _ | mapRef dst _ => [dst]
  | label _ => []

/-- The helper an instruction calls. -/
def helper? : Insn → Option Helper
  | plain code _ _ _ imm => if code = callHelper then Helper.ofId? imm else none
  | _ => none

end Insn

end TraceProbe
