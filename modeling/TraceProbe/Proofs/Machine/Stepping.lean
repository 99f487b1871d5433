import TraceProbe.Proofs.Machine.Basic
import TraceProbe.Proofs.Machine.Decoding

/-!
# The slot-addressed machine

A machine program runs by slots of eight bytes: the wide load takes two, and a
taken jump continues at the next slot plus its offset.  Where instructions come
from is a parameter, so the machine runs a list of instructions as well as
bytes.
-/

namespace TraceProbe

/-- Where a run stands. -/
inductive Control where
  | running (slot : Nat)
  /-- The exit was carried out. -/
  | left
  /-- There is no instruction to carry out. -/
  | stuck
deriving DecidableEq

/-- A run of a machine program. -/
structure Execution (World : Type) where
  control : Control
  machine : Machine World

/-- The 64-bit immediate of a wide load, from its halves. -/
def wideImmediate (low : Int32) (high : UInt32) : UInt64 :=
  UInt64.ofNat (low.toUInt32.toNat + 2 ^ 32 * high.toNat)

/-- Control at a slot number that a jump computed. -/
def Control.ofTarget (target : Int) : Control :=
  if 0 ≤ target then .running target.toNat else .stuck

namespace MachineInsn

variable {World : Type}

/-- The operand registers, as cells of the machine. -/
def dstReg (insn : MachineInsn) : Reg := .machine insn.dst

def srcReg (insn : MachineInsn) : Reg := .machine insn.src

/-- Whether a jump is taken. -/
def taken (env : Environment World) (insn : MachineInsn) (machine : Machine World) : Bool :=
  env.takes insn.opcode (machine.regs insn.dstReg)
    (machine.operand insn.opcode insn.srcReg insn.imm)

/-- Carries out the instruction at a slot. -/
def advance (env : Environment World) (insn : MachineInsn) (slot : Nat)
    (machine : Machine World) : Execution World :=
  match Opcode.role insn.opcode with
  | .wide =>
      match insn.upper with
      | some upper =>
          ⟨.running (slot + 2),
            machine.set insn.dstReg (env.wideValue insn.src (wideImmediate insn.imm upper))⟩
      | none => ⟨.stuck, machine⟩
  | .jump =>
      if insn.taken env machine then ⟨.ofTarget (insn.jumpTarget slot), machine⟩
      else ⟨.running (slot + 1), machine⟩
  | .leave => ⟨.left, machine⟩
  | .unknown => ⟨.stuck, machine⟩
  | .arithmetic | .load | .storeImm | .storeReg | .call =>
      ⟨.running (slot + 1),
        machine.perform env insn.opcode insn.dstReg insn.srcReg insn.offset insn.imm⟩

end MachineInsn

namespace Execution

variable {World : Type} (env : Environment World) (fetch : Nat → Option MachineInsn)

/-- One step; a run that has ended stays as it is. -/
def step (execution : Execution World) : Execution World :=
  match execution.control with
  | .running slot =>
      match fetch slot with
      | some insn => insn.advance env slot execution.machine
      | none => ⟨.stuck, execution.machine⟩
  | .left | .stuck => execution

/-- So many steps. -/
def steps : Nat → Execution World → Execution World
  | 0, execution => execution
  | count + 1, execution => steps count (execution.step env fetch)

theorem steps_add (first second : Nat) (execution : Execution World) :
    steps env fetch (first + second) execution =
      steps env fetch second (steps env fetch first execution) := by
  induction first generalizing execution with
  | zero => simp [steps]
  | succ first ih => rw [Nat.succ_add, steps, steps, ih]

theorem steps_succ_last (count : Nat) (execution : Execution World) :
    steps env fetch (count + 1) execution = (steps env fetch count execution).step env fetch := by
  rw [steps_add]
  rfl

theorem steps_of_left {execution : Execution World} (left : execution.control = .left)
    (count : Nat) : steps env fetch count execution = execution := by
  induction count with
  | zero => rfl
  | succ count ih =>
      have still : execution.step env fetch = execution := by rw [step, left]
      rw [steps, still, ih]

theorem steps_of_stuck {execution : Execution World} (stuck : execution.control = .stuck)
    (count : Nat) : steps env fetch count execution = execution := by
  induction count with
  | zero => rfl
  | succ count ih =>
      have still : execution.step env fetch = execution := by rw [step, stuck]
      rw [steps, still, ih]

/-- A run that does not get stuck needs no more instructions than it finds. -/
theorem steps_of_extends {wider : Nat → Option MachineInsn}
    (more : ∀ slot insn, fetch slot = some insn → wider slot = some insn) {count : Nat}
    {execution : Execution World} (free : (steps env fetch count execution).control ≠ .stuck) :
    steps env wider count execution = steps env fetch count execution := by
  induction count generalizing execution with
  | zero => rfl
  | succ count ih =>
      rw [steps] at free ⊢
      have same : execution.step env wider = execution.step env fetch := by
        unfold step at free ⊢
        cases control : execution.control with
        | left => rfl
        | stuck => rfl
        | running slot =>
            cases found : fetch slot with
            | some insn => simp only [more slot insn found, found]
            | none =>
                simp only [control, found] at free
                exact absurd (congrArg Execution.control (steps_of_stuck env fetch rfl count)) free
      rw [same, steps, ih free]

theorem step_of_fetch (execution : Execution World) {slot : Nat} {insn : MachineInsn}
    (here : execution.control = .running slot) (found : fetch slot = some insn) :
    execution.step env fetch = insn.advance env slot execution.machine := by
  rw [step, here]
  simp only [found]

end Execution

/-- The start of a run at the first slot. -/
def Execution.start {World : Type} (machine : Machine World) : Execution World :=
  ⟨.running 0, machine⟩

end TraceProbe
