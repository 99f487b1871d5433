import TraceProbe.Proofs.Machine.Facts
import TraceProbe.Proofs.Machine.Runs

/-!
# The truth of what is known

What is known on a walk is true of the registers of every run that takes it.
-/

namespace TraceProbe

open Opcode Symbolic

variable {World : Type} {env : Environment World} {frame value : UInt64} {machine : Machine World}

/-- What is known of a value is true of it, with the frame at an address. -/
def Known.Describes (env : Environment World) (frame : UInt64) : Known → UInt64 → Prop
  | .nothing, _ => True
  | .place position, value => value = frame + UInt64.ofInt position
  | .number amount, value => value = UInt64.ofInt amount
  | .map index, value => value = env.handle (UInt64.ofNat index)

namespace Facts

/-- What is known of registers is true of those of a machine. -/
def TrueOf (env : Environment World) (frame : UInt64) (facts : Facts)
    (machine : Machine World) : Prop :=
  ∀ reg, (facts.known reg).Describes env frame (machine.regs reg)

variable {facts : Facts}

theorem trueOf_start (machine : Machine World) :
    start.TrueOf env (machine.regs .frame) machine := by
  intro reg
  by_cases same : reg = .frame
  · subst same
    exact (UInt64.add_zero _).symm
  · simp [start, same, Known.Describes]

theorem TrueOf.set {known : Known} (holds : facts.TrueOf env frame machine) (reg : Reg)
    (describes : known.Describes env frame value) :
    (facts.learn reg known).TrueOf env frame (machine.set reg value) := by
  intro other
  by_cases same : other = reg
  · simpa [learn, Machine.set, same] using describes
  · simpa [learn, Machine.set, same] using holds other

theorem TrueOf.clobber (holds : facts.TrueOf env frame machine) (reg : Reg) (value : UInt64) :
    (facts.learn reg .nothing).TrueOf env frame (machine.set reg value) := by
  have unknown : Known.Describes env frame .nothing value := trivial
  exact holds.set reg unknown

theorem TrueOf.store (holds : facts.TrueOf env frame machine) (address : Known)
    (off : Int) (width : Width)
    (place value : UInt64) :
    (facts.write address off width.bytes).TrueOf env frame (machine.store width place value) := by
  intro reg
  rw [known_write]
  exact holds reg

theorem TrueOf.result (holds : facts.TrueOf env frame machine) (code : UInt8)
    (dst src : Reg) (imm : Int32) :
    (facts.result code dst src imm).Describes env frame
      (env.arithmetic code (machine.regs dst) (machine.operand code src imm)) := by
  unfold Facts.result
  split
  · rename_i moves
    have moved : env.arithmetic code (machine.regs dst) (machine.operand code src imm) =
        machine.operand code src imm := by
      simp [Environment.arithmetic, arithmetic64?, moves.1, moves.2, mov, add, sub, mul, lsh, neg]
    rw [moved, Machine.operand]
    split
    · exact holds src
    · rfl
  · split
    · rename_i adds
      have added : env.arithmetic code (machine.regs dst) (machine.operand code src imm) =
          machine.regs dst + immediate imm := by
        simp [Environment.arithmetic, arithmetic64?, Machine.operand, adds.1, adds.2.1, adds.2.2]
      have before := holds dst
      split
      · rename_i position known
        rw [known] at before
        rw [added, before, immediate, Known.Describes, UInt64.ofInt_add, UInt64.add_assoc]
      · trivial
    · trivial

theorem TrueOf.answered (holds : facts.TrueOf env frame machine) (helper : Int32) :
    (facts.answered helper).forget.TrueOf env frame (machine.call env helper) := by
  intro reg
  have before := holds reg
  rw [← known_answered facts helper] at before
  cases reg with
  | virtual number => exact before
  | machine number =>
      simp only [forget]
      split
      · trivial
      · rename_i kept
        rw [not_or] at kept
        simpa [Machine.call, Machine.answered, kept.1, kept.2] using before

/-- What is known stays true past an instruction that is carried out. -/
theorem TrueOf.step (holds : facts.TrueOf env frame machine) (insn : Insn) :
    (facts.step insn).TrueOf env frame (carryOut env machine insn).machine := by
  cases insn with
  | plain code dst src off imm =>
      have carried : (carryOut env machine (.plain code dst src off imm)).machine =
          machine.perform env code dst src off imm := by
        cases role : Opcode.role code <;> simp [carryOut, Insn.meaningful, Machine.perform, role]
      rw [carried]
      cases role : Opcode.role code with
      | arithmetic =>
          simp only [Facts.step, Machine.perform, role]
          exact holds.set dst (holds.result code dst src imm)
      | load =>
          simp only [Facts.step, Machine.perform, role]
          exact holds.clobber dst _
      | storeImm | storeReg =>
          simp only [Facts.step, Machine.perform, role]
          exact holds.store _ _ _ _ _
      | call =>
          simp only [Facts.step, Machine.perform, role]
          exact holds.answered imm
      | wide | jump | leave | unknown =>
          simp only [Facts.step, Machine.perform, role]
          exact holds
  | wide dst value => exact holds.clobber dst value
  | mapRef dst map => exact holds.set dst (show Known.Describes env frame (.map map) _ from rfl)
  | jump code dst src imm target =>
      have same : (carryOut env machine (.jump code dst src imm target)).machine = machine := by
        simp only [carryOut]
        split
        · split <;> rfl
        · rfl
      rw [same]
      exact holds
  | label _ => exact holds

theorem TrueOf.after {good : Machine World → Insn → Prop} (holds : facts.TrueOf env frame machine)
    (visited : List Insn) :
    (facts.after visited).TrueOf env frame ((carrying env good).after machine visited) := by
  induction visited generalizing facts machine with
  | nil => exact holds
  | cons insn visited ih => exact ih (holds.step insn)

end Facts

/-- A run that comes to an instruction takes a walk there, and what is known on it is
true of the machine. -/
theorem exists_known {before : List Insn} (after : List Insn) (insn : Insn) {now : Machine World}
    (runs : run env before ⟨.running, machine⟩ = ⟨.running, now⟩) :
    ∃ earlier later last, Walk .running (before ++ insn :: after) (earlier ++ insn :: later) last ∧
      (Facts.start.after earlier).TrueOf env (machine.regs .frame) now := by
  obtain ⟨earlier, walk, same⟩ := exists_carrying env (fun _ _ => True) before ⟨.running, machine⟩
  rw [runs] at walk same
  obtain ⟨next, possible⟩ := List.exists_mem_of_ne_nil _ insn.exits_ne_nil
  obtain ⟨later, last, rest⟩ := Walk.exists_walk next after
  refine ⟨earlier, later, last, walk.append (.visit possible rest), ?_⟩
  have known : (Facts.start.after earlier).TrueOf env (machine.regs .frame)
      ((carrying env fun _ _ => True).after machine earlier) :=
        (Facts.trueOf_start machine).after earlier
  rwa [← same] at known

end TraceProbe
