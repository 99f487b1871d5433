import TraceProbe.Insn.Basic
import TraceProbe.Proofs.Machine.Memory

/-!
# Meaning of instructions

What an instruction does to registers, memory and the world behind the helpers.
Symbolic streams and machine programs share this meaning; they differ only in
how control moves from one instruction to the next.

There is one cell for every register name.  Code without virtual registers
leaves the cells of virtual registers alone.
-/

namespace TraceProbe

namespace Opcode

/-- What an opcode byte asks for. -/
inductive Role where
  | arithmetic
  | load
  | storeImm
  | storeReg
  /-- A 64-bit immediate, in two slots. -/
  | wide
  | jump
  | call
  | leave
  /-- Nothing that the machine knows. -/
  | unknown
deriving DecidableEq, Inhabited

/-- The role of an opcode, by its class and, for jumps, by its operation.  Of
the first class only the wide load is known. -/
def role (code : UInt8) : Role :=
  if classOf code = alu64 ∨ classOf code = alu32 then .arithmetic
  else if classOf code = ldx then .load
  else if classOf code = st then .storeImm
  else if classOf code = stx then .storeReg
  else if code = lddw then .wide
  else if classOf code = jmp then
    if operationOf code = Opcode.call then .call
    else if operationOf code = exit then .leave
    else .jump
  else .unknown

end Opcode

/-- What a helper call leaves behind. -/
structure Answer (World : Type) where
  /-- The new value of `r0`. -/
  result : UInt64
  /-- The values that `r1` to `r5` happen to hold afterwards. -/
  scratch : UInt8 → UInt64
  memory : Memory
  world : World

/-- Everything around a program: map handles, helpers, and the meaning of the
operations that the opcode tables do not name. -/
structure Environment (World : Type) where
  /-- The value that a reference to a map loads. -/
  handle : UInt64 → UInt64
  /-- Arithmetic beyond the named operations. -/
  otherArithmetic : UInt8 → UInt64 → UInt64 → UInt64
  /-- Comparisons beyond the named ones. -/
  otherComparison : UInt8 → UInt64 → UInt64 → Bool
  /-- A helper, by its number, with the values of `r1` to `r5`. -/
  call : Int32 → List UInt64 → Memory → World → Answer World

/-- What the world outside a program can see of one instruction. -/
inductive Event where
  | load (width : Width) (address : UInt64)
  | store (width : Width) (address value : UInt64)
  | call (helper : Int32) (arguments : List UInt64)
deriving DecidableEq

namespace Opcode

/-- An immediate as a second operand. -/
def immediate (imm : Int32) : UInt64 :=
  UInt64.ofInt imm.toInt

/-- The named operations on 64 bits. -/
def arithmetic64? (code : UInt8) (left right : UInt64) : Option UInt64 :=
  let operation := operationOf code
  if operation = add then some (left + right)
  else if operation = sub then some (left - right)
  else if operation = mul then some (left * right)
  else if operation = lsh then some (left <<< right)
  else if operation = neg then some (-left)
  else if operation = mov then some right
  else if operation = arsh then
    some (UInt64.ofInt (left.toInt64.toInt / 2 ^ (right.toNat % 64)))
  else none

/-- The named operations on 32 bits. -/
def arithmetic32? (code : UInt8) (left right : UInt32) : Option UInt32 :=
  let operation := operationOf code
  if operation = add then some (left + right)
  else if operation = sub then some (left - right)
  else if operation = mul then some (left * right)
  else if operation = lsh then some (left <<< right)
  else if operation = neg then some (-left)
  else if operation = mov then some right
  else if operation = arsh then
    some (UInt32.ofInt (left.toInt32.toInt / 2 ^ (right.toNat % 32)))
  else none

end Opcode

namespace Environment

open Opcode

variable {World : Type} (env : Environment World)

/-- No maps, and helpers that do nothing. -/
def idle : Environment Unit where
  handle value := value
  otherArithmetic _ left _ := left
  otherComparison _ _ _ := false
  call _ _ memory world := { result := 0, scratch := fun _ => 0, memory := memory, world := world }

/-- The result of an arithmetic opcode; 32-bit results are widened by zeros. -/
def arithmetic (code : UInt8) (left right : UInt64) : UInt64 :=
  let named :=
    if classOf code = alu64 then arithmetic64? code left right
    else (arithmetic32? code left.toUInt32 right.toUInt32).map UInt32.toUInt64
  named.getD (env.otherArithmetic code left right)

/-- Whether a jump is taken. -/
def takes (code : UInt8) (left right : UInt64) : Bool :=
  let operation := operationOf code
  if operation = ja then true
  else if operation = jeq then left = right
  else if operation = jne then left ≠ right
  else env.otherComparison code left right

/-- The value of a wide load, by its source field. -/
def wideValue (source : UInt8) (value : UInt64) : UInt64 :=
  if source = 1 then env.handle value else value

end Environment

/-- Registers, memory and world of a running program, and what it has shown of
itself so far, oldest first. -/
structure Machine (World : Type) where
  regs : Reg → UInt64
  memory : Memory
  world : World
  trace : List Event := []

namespace Machine

/-- Registers and memory that hold zeros. -/
def zeros : Machine Unit where
  regs _ := 0
  memory := ⟨fun _ => 0⟩
  world := ()

variable {World : Type}

/-- Sets one register. -/
def set (machine : Machine World) (reg : Reg) (value : UInt64) : Machine World :=
  { machine with regs := fun other => if other = reg then value else machine.regs other }

/-- Adds an event at the end of the trace. -/
def record (machine : Machine World) (event : Event) : Machine World :=
  { machine with trace := machine.trace ++ [event] }

/-- The address at an offset from a register. -/
def address (machine : Machine World) (base : Reg) (off : Int16) : UInt64 :=
  machine.regs base + UInt64.ofInt off.toInt

/-- The second operand of arithmetic and jumps. -/
def operand (machine : Machine World) (code : UInt8) (src : Reg) (imm : Int32) : UInt64 :=
  if Opcode.hasRegisterOperand code then machine.regs src else Opcode.immediate imm

/-- Loads a register from memory. -/
def load (machine : Machine World) (width : Width) (dst : Reg) (address : UInt64) :
    Machine World :=
  (machine.set dst
      (UInt64.ofNat (fromLittleEndian (machine.memory.read address width.bytes)))).record
    (.load width address)

/-- Stores the low bytes of a value. -/
def store (machine : Machine World) (width : Width) (address value : UInt64) : Machine World :=
  { machine with
    memory := machine.memory.write address (littleEndian width.bytes value.toNat) }.record
      (.store width address value)

/-- The registers that pass arguments to helpers. -/
def argumentRegs : List UInt8 := [1, 2, 3, 4, 5]

/-- The values of the argument registers. -/
def arguments (machine : Machine World) : List UInt64 :=
  argumentRegs.map fun number => machine.regs (.machine number)

/-- The registers after a helper call: its result, nothing certain in the
argument registers, and all others as they were. -/
def answered (machine : Machine World) (answer : Answer World) : Reg → UInt64
  | .machine number =>
      if number = 0 then answer.result
      else if number ∈ argumentRegs then answer.scratch number
      else machine.regs (.machine number)
  | .virtual number => machine.regs (.virtual number)

/-- Calls a helper. -/
def call (env : Environment World) (machine : Machine World) (helper : Int32) :
    Machine World :=
  let answer := env.call helper machine.arguments machine.memory machine.world
  { regs := machine.answered answer
    memory := answer.memory
    world := answer.world
    trace := machine.trace ++ [.call helper machine.arguments] }

/-- Carries out an instruction of one slot that does not move control. -/
def perform (env : Environment World) (machine : Machine World) (code : UInt8) (dst src : Reg)
    (off : Int16) (imm : Int32) : Machine World :=
  match Opcode.role code with
  | .arithmetic =>
      machine.set dst (env.arithmetic code (machine.regs dst) (machine.operand code src imm))
  | .load => machine.load (Width.ofCode code) dst (machine.address src off)
  | .storeImm =>
      machine.store (Width.ofCode code) (machine.address dst off) (Opcode.immediate imm)
  | .storeReg => machine.store (Width.ofCode code) (machine.address dst off) (machine.regs src)
  | .call => machine.call env imm
  | .wide | .jump | .leave | .unknown => machine

end Machine

end TraceProbe
