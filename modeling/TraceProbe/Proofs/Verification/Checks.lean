import TraceProbe.Proofs.Machine.Basic
import TraceProbe.Proofs.Machine.Decoding

/-!
# What verification checks

A valid report means that no instruction has a violation.  This module turns
the absence of violations into facts about instructions and their slots, which
is all that later statements use of the verifier.
-/

namespace TraceProbe

namespace MachineInsn

theorem registers_of_noViolations {slot : Nat} {insn : MachineInsn}
    (none : insn.registerViolations slot = []) :
    insn.dst ≤ framePointer ∧ insn.src ≤ framePointer := by
  simpa [registerViolations] using none

theorem dst_ne_of_noViolations {slot : Nat} {insn : MachineInsn}
    (none : insn.writeViolations slot = []) (writes : insn.writesDst = true) :
    insn.dst ≠ framePointer := by
  simpa [writeViolations, writes] using none

theorem upper_of_noViolations {slot : Nat} {insn : MachineInsn}
    (none : insn.loadViolations slot = []) (wide : insn.opcode = Opcode.lddw) :
    insn.upper.isSome = true := by
  simpa [loadViolations, wide, Option.isSome_iff_ne_none] using none

theorem insideFrame_of_noViolations {maxStack slot : Nat} {insn : MachineInsn}
    (none : insn.stackViolations maxStack slot = []) (accesses : insn.accessesFrame = true) :
    insn.insideFrame maxStack = true := by
  simpa [stackViolations, accesses] using none

theorem target_of_noViolations {total slot : Nat} {insn : MachineInsn}
    (none : insn.jumpViolations total slot = []) (jumps : insn.isJump = true) :
    (slot : Int) < insn.jumpTarget slot ∧ insn.jumpTarget slot < total := by
  rw [jumpViolations, if_pos jumps] at none
  split at none
  · cases none
  · rename_i forward
    split at none
    · cases none
    · rename_i inside
      omega

end MachineInsn

namespace Program

open MachineInsn

/-- What the checks of a program establish. -/
structure Checked (maxStack : Nat) (program : List MachineInsn) : Prop where
  registers : ∀ insn ∈ program, insn.dst ≤ framePointer ∧ insn.src ≤ framePointer
  keepsFrame : ∀ insn ∈ program, insn.writesDst = true → insn.dst ≠ framePointer
  wide : ∀ insn ∈ program, insn.opcode = Opcode.lddw → insn.upper.isSome = true
  insideFrame : ∀ insn ∈ program, insn.accessesFrame = true → insn.insideFrame maxStack = true
  forward : ∀ slot insn, (slot, insn) ∈ placeFrom MachineInsn.slots 0 program →
    insn.isJump = true →
      (slot : Int) < insn.jumpTarget slot ∧ insn.jumpTarget slot < slots program
  exit : ∃ before last, program = before ++ [last] ∧ last.opcode = Opcode.exitProgram

theorem exists_slot {program : List MachineInsn} {insn : MachineInsn} (member : insn ∈ program) :
    ∃ slot, (slot, insn) ∈ placeFrom MachineInsn.slots 0 program := by
  obtain ⟨before, after, split⟩ := List.append_of_mem member
  exact ⟨totalOf MachineInsn.slots before,
    mem_placeFrom_iff.mpr ⟨before, after, split, (Nat.zero_add _).symm⟩⟩

theorem exit_of_endsInExit {program : List MachineInsn} (ends : endsInExit program = true) :
    ∃ before last, program = before ++ [last] ∧ last.opcode = Opcode.exitProgram := by
  cases found : program.getLast? with
  | none => simp [endsInExit, found] at ends
  | some last =>
      obtain ⟨before, split⟩ := List.getLast?_eq_some_iff.mp found
      exact ⟨before, last, split, by simpa [endsInExit, found] using ends⟩

theorem checked_of_valid {limits : Limits} {program : List MachineInsn}
    (valid : (verify limits program).valid = true) : Checked limits.maxStack program := by
  have none : violations limits program = [] := by
    have both : (violations limits program).isEmpty = true ∧ _ :=
      Bool.and_eq_true_iff.mp (by simpa only [verify] using valid)
    exact List.isEmpty_iff.mp both.1
  simp only [violations, List.append_eq_nil_iff, List.flatMap_eq_nil_iff] at none
  obtain ⟨⟨⟨notEmpty, -⟩, each⟩, ends⟩ := none
  have atSlot : ∀ slot insn, (slot, insn) ∈ placeFrom MachineInsn.slots 0 program →
      insn.violations limits.maxStack (slots program) slot = [] := fun slot insn member =>
    each (slot, insn) member
  simp only [MachineInsn.violations, List.append_eq_nil_iff] at atSlot
  have atInsn : ∀ insn ∈ program, ∃ slot,
      (((insn.registerViolations slot = [] ∧ insn.writeViolations slot = []) ∧
        insn.loadViolations slot = []) ∧ insn.stackViolations limits.maxStack slot = []) ∧
        insn.jumpViolations (slots program) slot = [] := by
    intro insn member
    obtain ⟨slot, placed⟩ := exists_slot member
    exact ⟨slot, atSlot slot insn placed⟩
  refine ⟨?_, ?_, ?_, ?_, ?_, ?_⟩
  · intro insn member
    obtain ⟨slot, ⟨⟨⟨⟨registers, -⟩, -⟩, -⟩, -⟩⟩ := atInsn insn member
    exact registers_of_noViolations registers
  · intro insn member
    obtain ⟨slot, ⟨⟨⟨⟨-, writes⟩, -⟩, -⟩, -⟩⟩ := atInsn insn member
    exact dst_ne_of_noViolations writes
  · intro insn member
    obtain ⟨slot, ⟨⟨⟨-, loads⟩, -⟩, -⟩⟩ := atInsn insn member
    exact upper_of_noViolations loads
  · intro insn member
    obtain ⟨slot, ⟨⟨-, stack⟩, -⟩⟩ := atInsn insn member
    exact insideFrame_of_noViolations stack
  · intro slot insn placed jumps
    exact target_of_noViolations (atSlot slot insn placed).2 jumps
  · have some : program.isEmpty = false := by
      cases program with
      | nil => simp at notEmpty
      | cons insn rest => rfl
    have ended : endsInExit program = true := by simpa [some] using ends
    exact exit_of_endsInExit ended

variable {program : List MachineInsn} {frame : Nat}

theorem Checked.mono {more : Nat} (checked : Checked frame program) (enough : frame ≤ more) :
    Checked more program := by
  refine { checked with insideFrame := ?_ }
  intro insn member accesses
  have inside := checked.insideFrame insn member accesses
  simp only [MachineInsn.insideFrame, Bool.and_eq_true, decide_eq_true_eq] at inside ⊢
  omega

theorem valid_of_checked {limits : Limits} (checked : Checked limits.maxStack program)
    (few : slots program ≤ limits.maxSlots) (lenient : limits.strict = false) :
    (verify limits program).valid = true := by
  obtain ⟨before, last, split, exits⟩ := checked.exit
  have ends : endsInExit program = true := by simp [endsInExit, split, exits]
  have some : program.isEmpty = false := by simp [split]
  have clean : ∀ slot insn, (slot, insn) ∈ placeFrom MachineInsn.slots 0 program →
      insn.violations limits.maxStack (slots program) slot = [] := by
    intro slot insn placed
    have member := mem_of_mem_placeFrom placed
    have registers : insn.registerViolations slot = [] := by
      simpa [registerViolations] using checked.registers insn member
    have writes : insn.writeViolations slot = [] := by
      simpa [writeViolations] using checked.keepsFrame insn member
    have loads : insn.loadViolations slot = [] := by
      simpa [loadViolations, Option.isSome_iff_ne_none] using checked.wide insn member
    have stack : insn.stackViolations limits.maxStack slot = [] := by
      simpa [stackViolations] using checked.insideFrame insn member
    have jumps : insn.jumpViolations (slots program) slot = [] := by
      unfold jumpViolations
      split
      · rename_i jumps
        obtain ⟨low, high⟩ := checked.forward slot insn placed jumps
        rw [if_neg (by omega), if_neg (by omega)]
      · rfl
    rw [MachineInsn.violations, registers, writes, loads, stack, jumps]
    rfl
  have none : violations limits program = [] := by
    simp only [violations, some, ends, Nat.not_lt.mpr few, if_false, Bool.not_true, Bool.and_false,
      Bool.false_eq_true, List.nil_append, List.append_nil]
    exact List.flatMap_eq_nil_iff.mpr fun entry member => clean entry.1 entry.2 member
  simp [verify, none, lenient]

theorem stackDepth_le (checked : Checked frame program) (maxStack : Nat) :
    (statistics maxStack program).stackDepth ≤ frame := by
  have depths : ∀ depth ∈ program.map (·.depth maxStack), depth ≤ frame := by
    intro depth member
    obtain ⟨insn, among, rfl⟩ := List.mem_map.mp member
    unfold MachineInsn.depth
    split
    · rename_i accesses
      have inside := checked.insideFrame insn among (Bool.and_eq_true_iff.mp accesses).1
      simp only [MachineInsn.insideFrame, Bool.and_eq_true, decide_eq_true_eq] at inside
      omega
    · exact Nat.zero_le _
  exact List.foldlRecOn (motive := (· ≤ frame)) _ max (Nat.zero_le _) fun depth small next member =>
    Nat.max_le.mpr ⟨small, depths next member⟩

end Program

end TraceProbe
