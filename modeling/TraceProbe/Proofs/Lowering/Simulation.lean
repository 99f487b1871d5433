import TraceProbe.Proofs.Lowering.Alike
import TraceProbe.Proofs.Stream.Built

/-!
# Lowering preserves runs

A run of a listing and a run of the program it is lowered to stay alike.  The
listing is followed instruction by instruction: the program makes at most one
step for each, and waits at the slot of a label while the listing looks for it.
-/

namespace TraceProbe

open Opcode in
/-- Moves ignore their first operand, and negations their second. -/
theorem Environment.arithmetic_congr {World : Type} (env : Environment World) {code : UInt8}
    {left left' right right' : UInt64} (first : operationOf code ≠ mov → left = left')
    (second : operationOf code ≠ neg → right = right') :
    env.arithmetic code left right = env.arithmetic code left' right' := by
  by_cases moves : operationOf code = mov
  · have same : right = right' := second (by rw [moves]; decide)
    subst same
    simp [Environment.arithmetic, arithmetic64?, arithmetic32?, moves, mov, add, sub, mul, lsh, neg]
    split <;> simp
  · have same : left = left' := first moves
    subst same
    by_cases negates : operationOf code = neg
    · simp [Environment.arithmetic, arithmetic64?, arithmetic32?, negates, add, sub, mul, lsh, neg]
      split <;> simp
    · rw [second negates]

namespace Alike

open Insn

variable {World : Type} {assignment : Assignment} {live next : Nat → Prop}
  {symbolic concrete : Machine World} (env : Environment World)

/-- Whether both machines have what an instruction reads. -/
def CanRead (assignment : Assignment) (live : Nat → Prop) (insn : Insn) : Prop :=
  ∀ reg ∈ insn.reads, Readable assignment live reg

/-- Whether an instruction writes where it may, and what stays live was live
before it or is written by it. -/
structure CanWrite (assignment : Assignment) (live next : Nat → Prop) (insn : Insn) : Prop where
  target : ∀ reg register, insn.writes? = some reg → machineReg assignment reg = .ok register →
    Writable assignment live next reg register
  keeps : ∀ number, next number → insn.writes? ≠ some (.virtual number) → live number

theorem operand (alike : Alike assignment live symbolic concrete) {code : UInt8} {src : Reg}
    {register : UInt8} (lowered : machineReg assignment src = .ok register)
    (readable : Opcode.hasRegisterOperand code = true → Readable assignment live src)
    (imm : Int32) :
    concrete.operand code (.machine register) imm = symbolic.operand code src imm := by
  unfold Machine.operand
  split
  · rename_i uses
    exact alike.value lowered (readable uses)
  · rfl

section Plain

variable {code : UInt8} {dst src : Reg} {off : Int16} {imm : Int32} {dstReg srcReg : UInt8}

theorem readable_of_arithmetic (canRead : CanRead assignment live (.plain code dst src off imm))
    (role : Opcode.role code = .arithmetic) :
    (Opcode.operationOf code ≠ Opcode.mov → Readable assignment live dst) ∧
      (Opcode.hasRegisterOperand code = true → Opcode.operationOf code ≠ Opcode.neg →
        Readable assignment live src) := by
  constructor
  · intro reads
    exact canRead dst (by simp [Insn.reads, role, reads])
  · intro uses reads
    exact canRead src (by simp [Insn.reads, role, uses, reads])

/-- An instruction of one slot that does not move control. -/
theorem perform (alike : Alike assignment live symbolic concrete)
    (lowersDst : machineReg assignment dst = .ok dstReg)
    (lowersSrc : machineReg assignment src = .ok srcReg)
    (canRead : CanRead assignment live (.plain code dst src off imm))
    (canWrite : CanWrite assignment live next (.plain code dst src off imm)) :
    Alike assignment next (symbolic.perform env code dst src off imm)
      (concrete.perform env code (.machine dstReg) (.machine srcReg) off imm) := by
  have stays (silent : (Insn.plain code dst src off imm).writes? = none) :
      ∀ number, next number → live number := fun number alive =>
    canWrite.keeps number alive (by rw [silent]; simp)
  have target (role : Opcode.role code = .arithmetic ∨ Opcode.role code = .load) :
      Writable assignment live next dst dstReg := by
    refine canWrite.target dst dstReg ?_ lowersDst
    rcases role with role | role <;> simp [writes?, role]
  unfold Machine.perform
  cases role : Opcode.role code with
  | arithmetic =>
      obtain ⟨first, second⟩ := readable_of_arithmetic canRead role
      have same : env.arithmetic code (concrete.regs (.machine dstReg))
            (concrete.operand code (.machine srcReg) imm) =
          env.arithmetic code (symbolic.regs dst) (symbolic.operand code src imm) := by
        apply env.arithmetic_congr
        · intro reads
          exact alike.value lowersDst (first reads)
        · intro reads
          exact alike.operand lowersSrc (fun uses => second uses reads) imm
      simp only [same]
      exact alike.set lowersDst (target (Or.inl role)) _
  | load =>
      have base : Readable assignment live src := canRead src (by simp [Insn.reads, role])
      simp only [Machine.address, alike.value lowersSrc base]
      exact alike.load lowersDst (target (Or.inr role)) _ _
  | storeImm =>
      have base : Readable assignment live dst := canRead dst (by simp [Insn.reads, role])
      simp only [Machine.address, alike.value lowersDst base]
      exact (alike.store _ _ _).mono (stays (by simp [writes?, role]))
  | storeReg =>
      have base : Readable assignment live dst := canRead dst (by simp [Insn.reads, role])
      have stored : Readable assignment live src := canRead src (by simp [Insn.reads, role])
      simp only [Machine.address, alike.value lowersDst base, alike.value lowersSrc stored]
      exact (alike.store _ _ _).mono (stays (by simp [writes?, role]))
  | call => exact (alike.call env imm).mono (stays (by simp [writes?, role]))
  | wide | jump | leave | unknown => exact alike.mono (stays (by simp [writes?, role]))

end Plain

/-- Where the program stands after an instruction of the listing, which ends
before a slot. -/
def Follows (labels : List (Label × Nat)) (slot : Nat) : Flow → Control → Prop
  | .running, control => control = .running slot
  | .seeking target, control =>
      ∃ stop, labels.lookup target = some stop ∧ slot ≤ stop ∧ control = .running stop
  | .left, control => control = .left
  | .stuck, _ => False

theorem wideImmediate_halves (value : UInt64) :
    wideImmediate value.toUInt32.toInt32 (value >>> 32).toUInt32 = value := by
  have bound := value.toNat_lt
  apply UInt64.toNat_inj.mp
  simp [wideImmediate, Nat.shiftRight_eq_div_pow]
  omega

theorem takes (alike : Alike assignment live symbolic concrete) {code : UInt8} {dst src : Reg}
    {imm : Int32} {target : Label} {dstReg srcReg : UInt8}
    (lowersDst : machineReg assignment dst = .ok dstReg)
    (lowersSrc : machineReg assignment src = .ok srcReg)
    (canRead : CanRead assignment live (.jump code dst src imm target)) :
    env.takes code (concrete.regs (.machine dstReg)) (concrete.operand code (.machine srcReg) imm) =
      env.takes code (symbolic.regs dst) (symbolic.operand code src imm) := by
  by_cases always : Opcode.operationOf code = Opcode.ja
  · simp [Environment.takes, always]
  · have first : Readable assignment live dst := by
      apply canRead
      simp only [Insn.reads, if_neg always]
      split <;> simp
    have second : Opcode.hasRegisterOperand code = true → Readable assignment live src := by
      intro uses
      exact canRead src (by simp [Insn.reads, always, uses])
    rw [alike.value lowersDst first, alike.operand lowersSrc second imm]

/-- One instruction with a meaning, in the listing and in its program. -/
theorem carryOut (alike : Alike assignment live symbolic concrete) {labels : List (Label × Nat)}
    {slot : Nat} {insn : Insn} {lowered : MachineInsn}
    (found : lowerAt assignment labels (slot, insn) = .ok (some lowered))
    (meaningful : insn.meaningful = true) (canRead : CanRead assignment live insn)
    (canWrite : CanWrite assignment live next insn) :
    Alike assignment next (Symbolic.carryOut env symbolic insn).machine
        (lowered.advance env slot concrete).machine ∧
      Follows labels (slot + insn.slots) (Symbolic.carryOut env symbolic insn).flow
        (lowered.advance env slot concrete).control := by
  have silent (none : insn.writes? = none) : ∀ number, next number → live number :=
    fun number alive => canWrite.keeps number alive (by rw [none]; simp)
  unfold Symbolic.carryOut
  rw [if_pos meaningful]
  cases insn with
  | label name => cases found
  | plain code dst src off imm =>
      obtain ⟨dstReg, srcReg, toDst, toSrc, same⟩ := lowerAt_plain found
      cases same
      have moves := alike.perform env toDst toSrc canRead canWrite
      cases role : Opcode.role code with
      | leave =>
          simp only [MachineInsn.advance, role, if_true]
          exact ⟨alike.mono (silent (by simp [writes?, role])), rfl⟩
      | wide => simp [Insn.meaningful, role] at meaningful
      | jump => simp [Insn.meaningful, role] at meaningful
      | unknown => simp [Insn.meaningful, role] at meaningful
      | arithmetic | load | storeImm | storeReg | call =>
          simp only [MachineInsn.advance, role]
          exact ⟨moves, rfl⟩
  | wide dst value =>
      obtain ⟨dstReg, toDst, same⟩ := lowerAt_wide found
      cases same
      have writable := canWrite.target dst dstReg rfl toDst
      have role : Opcode.role Opcode.lddw = .wide := by decide
      simp only [MachineInsn.advance, MachineInsn.wide, role, wideImmediate_halves]
      exact ⟨alike.set toDst writable value, rfl⟩
  | mapRef dst map =>
      obtain ⟨dstReg, toDst, same⟩ := lowerAt_mapRef found
      cases same
      have writable := canWrite.target dst dstReg rfl toDst
      have role : Opcode.role Opcode.lddw = .wide := by decide
      simp only [MachineInsn.advance, MachineInsn.wide, role, wideImmediate_halves]
      exact ⟨alike.set toDst writable _, rfl⟩
  | jump code dst src imm target =>
      obtain ⟨distance, dstReg, srcReg, far, toDst, toSrc, same⟩ := lowerAt_jump found
      cases same
      obtain ⟨stop, known, ahead, lands⟩ := jumpDistance_eq_ok far
      have role : Opcode.role code = .jump := by simpa [Insn.meaningful] using meaningful
      have stays := alike.mono (silent rfl)
      have decides : MachineInsn.taken env ⟨code, dstReg, srcReg, distance, imm, none⟩ concrete =
          env.takes code (symbolic.regs dst) (symbolic.operand code src imm) :=
        alike.takes env toDst toSrc canRead
      simp only [MachineInsn.advance, role, decides]
      split
      · refine ⟨stays, stop, known, ahead, ?_⟩
        have positive : 0 ≤ (stop : Int) := Int.natCast_nonneg stop
        simp only [Control.ofTarget, MachineInsn.jumpTarget, lands, positive, if_true,
          Int.toNat_natCast]
      · exact ⟨stays, rfl⟩

end Alike

end TraceProbe
