import TraceProbe.Bytecode.Encoding
import TraceProbe.Bytecode.Slots
import TraceProbe.Insn.Text

/-!
# Verification

Checks that the kernel would make before it runs a program: jumps go forward
and stay inside, the frame pointer is not written, and accesses to the frame
stay inside it.  Every violation is reported, in the order of instructions.
-/

namespace TraceProbe

/-- What a program may not do. -/
inductive Violation where
  | emptyProgram
  | tooManyInstructions (count limit : Nat)
  | jumpOutOfBounds (slot : Nat) (target : Int)
  | backwardJump (slot : Nat) (target : Int)
  | invalidRegister (slot : Nat) (register : UInt8)
  | frameWrite (slot : Nat)
  | stackOutOfBounds (slot : Nat) (offset : Int16) (width : Nat)
  /-- A wide load without its second slot. -/
  | truncatedLoad (slot : Nat)
  | noExit
deriving DecidableEq, Inhabited

/-- The line shown for a violation. -/
def Violation.text : Violation → String
  | emptyProgram => "Program is empty"
  | tooManyInstructions count limit => s!"Too many instructions: {count} (limit: {limit})"
  | jumpOutOfBounds slot target =>
      s!"Jump at slot {slot} targets out of bounds: {Insn.decimal target}"
  | backwardJump slot target => s!"Jump at slot {slot} goes backwards to {Insn.decimal target}"
  | invalidRegister slot register => s!"Invalid register {register.toNat} at slot {slot}"
  | frameWrite slot => s!"Write to r10 at slot {slot}"
  | stackOutOfBounds slot offset width =>
      s!"Stack access of {width} bytes at r10{Insn.signedDecimal offset.toInt} " ++
        s!"out of frame (slot {slot})"
  | truncatedLoad slot => s!"lddw at slot {slot} is missing its second half"
  | noExit => "Program does not end with an exit instruction"

/-- The limits a program is checked against. -/
structure Limits where
  /-- The largest number of slots. -/
  maxSlots : Nat := 4096
  /-- Bytes of the frame. -/
  maxStack : Nat := 512
  /-- Whether a warning keeps a program from being valid. -/
  strict : Bool := false
deriving DecidableEq, Inhabited

/-- Counts taken while a program is checked. -/
structure Statistics where
  instructions : Nat
  bytes : Nat
  /-- The deepest access to the frame, in bytes below the frame pointer. -/
  stackDepth : Nat
  helperCalls : Nat
  jumps : Nat
deriving DecidableEq, Inhabited

/-- The result of checking a program. -/
structure Report where
  valid : Bool
  violations : List Violation
  warnings : List String
  statistics : Statistics
deriving DecidableEq, Inhabited

namespace MachineInsn

open Opcode

/-- The number of the frame pointer, which is also the largest register. -/
def framePointer : UInt8 := 10

/-- Whether an instruction writes its destination register. -/
def writesDst (insn : MachineInsn) : Bool :=
  classOf insn.opcode = alu32 || classOf insn.opcode = alu64 || classOf insn.opcode = ldx ||
    insn.opcode = lddw

/-- The register that a memory access is based on. -/
def base? (insn : MachineInsn) : Option UInt8 :=
  if classOf insn.opcode = ldx then some insn.src
  else if classOf insn.opcode = st ∨ classOf insn.opcode = stx then some insn.dst
  else none

/-- Whether an instruction accesses memory through the frame pointer. -/
def accessesFrame (insn : MachineInsn) : Bool :=
  insn.base? = some framePointer

/-- The number of bytes of a memory access. -/
def accessWidth (insn : MachineInsn) : Nat :=
  (Width.ofCode insn.opcode).bytes

/-- Whether an access through the frame pointer stays inside a frame. -/
def insideFrame (maxStack : Nat) (insn : MachineInsn) : Bool :=
  -(maxStack : Int) ≤ insn.offset.toInt && insn.offset.toInt + insn.accessWidth ≤ 0

/-- Whether an instruction calls a helper. -/
def isCall (insn : MachineInsn) : Bool :=
  classOf insn.opcode = jmp && operationOf insn.opcode = call

/-- Whether an instruction may continue elsewhere. -/
def isJump (insn : MachineInsn) : Bool :=
  classOf insn.opcode = jmp && operationOf insn.opcode ≠ call && operationOf insn.opcode ≠ exit

/-- The slot at which a taken jump continues. -/
def jumpTarget (slot : Nat) (insn : MachineInsn) : Int :=
  slot + 1 + insn.offset.toInt

/-- Register numbers that do not exist. -/
def registerViolations (slot : Nat) (insn : MachineInsn) : List Violation :=
  ([insn.dst, insn.src].filter (framePointer < ·)).map (.invalidRegister slot)

/-- A write to the frame pointer. -/
def writeViolations (slot : Nat) (insn : MachineInsn) : List Violation :=
  if insn.writesDst && insn.dst = framePointer then [.frameWrite slot] else []

/-- A wide load that is not wide. -/
def loadViolations (slot : Nat) (insn : MachineInsn) : List Violation :=
  if insn.opcode = lddw && insn.upper.isNone then [.truncatedLoad slot] else []

/-- An access that leaves the frame. -/
def stackViolations (maxStack slot : Nat) (insn : MachineInsn) : List Violation :=
  if insn.accessesFrame && !insn.insideFrame maxStack then
    [.stackOutOfBounds slot insn.offset insn.accessWidth]
  else []

/-- A jump backwards, to itself or past the end. -/
def jumpViolations (total slot : Nat) (insn : MachineInsn) : List Violation :=
  if insn.isJump then
    if insn.jumpTarget slot ≤ slot then [.backwardJump slot (insn.jumpTarget slot)]
    else if total ≤ insn.jumpTarget slot then [.jumpOutOfBounds slot (insn.jumpTarget slot)]
    else []
  else []

/-- All violations of an instruction at a slot of a program of so many slots. -/
def violations (maxStack total slot : Nat) (insn : MachineInsn) : List Violation :=
  insn.registerViolations slot ++ insn.writeViolations slot ++ insn.loadViolations slot ++
    insn.stackViolations maxStack slot ++ insn.jumpViolations total slot

/-- How deep an instruction reaches into the frame; accesses that leave the
frame do not count. -/
def depth (maxStack : Nat) (insn : MachineInsn) : Nat :=
  if insn.accessesFrame && insn.insideFrame maxStack then (-insn.offset.toInt).toNat else 0

end MachineInsn

namespace Program

/-- The number of slots of a program. -/
def slots (program : List MachineInsn) : Nat :=
  totalOf MachineInsn.slots program

/-- Whether a program ends with the exit. -/
def endsInExit (program : List MachineInsn) : Bool :=
  program.getLast?.any (·.opcode = Opcode.exitProgram)

/-- Counts of a program. -/
def statistics (maxStack : Nat) (program : List MachineInsn) : Statistics where
  instructions := program.length
  bytes := totalOf MachineInsn.size program
  stackDepth := (program.map (·.depth maxStack)).foldl max 0
  helperCalls := program.countP MachineInsn.isCall
  jumps := program.countP MachineInsn.isJump

/-- Everything that is wrong with a program. -/
def violations (limits : Limits) (program : List MachineInsn) : List Violation :=
  (if program.isEmpty then [.emptyProgram] else []) ++
    (if limits.maxSlots < slots program then
      [.tooManyInstructions (slots program) limits.maxSlots] else []) ++
    (placeFrom MachineInsn.slots 0 program).flatMap
      (fun (slot, insn) => insn.violations limits.maxStack (slots program) slot) ++
    (if !program.isEmpty && !endsInExit program then [.noExit] else [])

/-- Warns when more than three quarters of the frame are in use. -/
def warnings (limits : Limits) (program : List MachineInsn) : List String :=
  let depth := (statistics limits.maxStack program).stackDepth
  if limits.maxStack * 3 / 4 < depth then
    [s!"Stack usage {depth} bytes is close to the {limits.maxStack} byte frame"]
  else []

/-- Checks a program. -/
def verify (limits : Limits) (program : List MachineInsn) : Report :=
  let violations := violations limits program
  let warnings := warnings limits program
  { valid := violations.isEmpty && (!limits.strict || warnings.isEmpty)
    violations := violations
    warnings := warnings
    statistics := statistics limits.maxStack program }

end Program

end TraceProbe
