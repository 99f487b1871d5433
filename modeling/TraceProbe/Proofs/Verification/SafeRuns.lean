import TraceProbe.Proofs.Machine.Stepping
import TraceProbe.Proofs.Verification.Checks

/-!
# Runs of verified programs

A valid program runs forward, to an exit, inside its frame, as long as it stays
on the first slots of its instructions.  Verification does not see to that: it
compares the target of a jump only with the ends of the program, and it accepts
an upper immediate with any opcode.  So a valid program may continue in the
middle of one of its instructions, and the statements here say exactly that
nothing else can go wrong.
-/

namespace TraceProbe

namespace Opcode

theorem writes_of_role_arithmetic {code : UInt8} (found : role code = .arithmetic) :
    classOf code = alu64 ∨ classOf code = alu32 := by
  unfold role at found
  split_ifs at found with arithmetic
  exact arithmetic

theorem role_eq_load_iff {code : UInt8} : role code = .load ↔ classOf code = ldx := by
  unfold role
  constructor
  · intro found
    split_ifs at found with _ loads
    exact loads
  · intro loads
    rw [loads]
    rfl

theorem role_eq_storeImm_iff {code : UInt8} : role code = .storeImm ↔ classOf code = st := by
  unfold role
  constructor
  · intro found
    split_ifs at found with _ _ stores
    exact stores
  · intro stores
    rw [stores]
    rfl

theorem role_eq_storeReg_iff {code : UInt8} : role code = .storeReg ↔ classOf code = stx := by
  unfold role
  constructor
  · intro found
    split_ifs at found with _ _ _ stores
    exact stores
  · intro stores
    rw [stores]
    rfl

theorem eq_lddw_of_role_wide {code : UInt8} (found : role code = .wide) : code = lddw := by
  unfold role at found
  split_ifs at found with _ _ _ _ wide
  exact wide

theorem jumps_of_role_jump {code : UInt8} (found : role code = .jump) :
    classOf code = jmp ∧ operationOf code ≠ call ∧ operationOf code ≠ exit := by
  unfold role at found
  split_ifs at found with _ _ _ _ _ jumps calls leaves
  exact ⟨jumps, calls, leaves⟩

theorem role_exitProgram : role exitProgram = .leave := by
  decide

end Opcode

/-- The bytes that an event touches: their first address and their number. -/
def Event.range? : Event → Option (UInt64 × Nat)
  | load width address => some (address, width.bytes)
  | store width address _ => some (address, width.bytes)
  | call _ _ => none

namespace MachineInsn

open Opcode

theorem slots_seen_of_role (insn : MachineInsn) (narrow : role insn.opcode ≠ .wide) :
    insn.seen.slots = 1 := by
  have other : insn.opcode ≠ lddw := fun double => narrow (by rw [double]; rfl)
  simp [slots, seen, other]

variable {World : Type} (env : Environment World)

theorem frame_perform (insn : MachineInsn) (machine : Machine World)
    (keeps : insn.writesDst = true → insn.dst ≠ framePointer) :
    (machine.perform env insn.opcode insn.dstReg insn.srcReg insn.offset insn.imm).regs .frame =
      machine.regs .frame := by
  have other (writes : insn.writesDst = true) : Reg.frame ≠ insn.dstReg := by
    intro same
    exact keeps writes (Reg.machine.inj same).symm
  unfold Machine.perform
  split
  · rename_i found
    have writes : insn.writesDst = true := by
      rcases writes_of_role_arithmetic found with double | single <;> simp [writesDst, *]
    simp [Machine.set, other writes]
  · rename_i found
    have writes : insn.writesDst = true := by simp [writesDst, role_eq_load_iff.mp found]
    simp [Machine.load, Machine.record, Machine.set, other writes]
  · rfl
  · rfl
  · rfl
  all_goals rfl

/-- An access through the frame pointer shows itself in the trace. -/
theorem trace_perform_of_accessesFrame (insn : MachineInsn) (machine : Machine World)
    (accesses : insn.accessesFrame = true) :
    ∃ event, (machine.perform env insn.opcode insn.dstReg insn.srcReg insn.offset insn.imm).trace =
        machine.trace ++ [event] ∧
      event.range? =
        some (machine.regs .frame + UInt64.ofInt insn.offset.toInt, insn.accessWidth) := by
  simp only [accessesFrame, base?] at accesses
  split_ifs at accesses with loads stores
  · have through : insn.srcReg = Reg.frame := by
      simpa [srcReg, Reg.frame, framePointer] using accesses
    simp only [Machine.perform, role_eq_load_iff.mpr loads, Machine.load, Machine.record,
      Machine.set, Machine.address, through]
    exact ⟨_, rfl, rfl⟩
  · have through : insn.dstReg = Reg.frame := by
      simpa [dstReg, Reg.frame, framePointer] using accesses
    rcases stores with immediate | register
    · simp only [Machine.perform, role_eq_storeImm_iff.mpr immediate, Machine.store,
        Machine.record, Machine.address, through]
      exact ⟨_, rfl, rfl⟩
    · simp only [Machine.perform, role_eq_storeReg_iff.mpr register, Machine.store,
        Machine.record, Machine.address, through]
      exact ⟨_, rfl, rfl⟩
  · simp at accesses

end MachineInsn

namespace Program

open MachineInsn

/-- The second half of an instruction of two slots. -/
def SecondHalf (program : List MachineInsn) (slot : Nat) : Prop :=
  ∃ start insn, (start, insn) ∈ placed program ∧ insn.upper.isSome = true ∧ slot = start + 1

instance (program : List MachineInsn) (slot : Nat) : Decidable (SecondHalf program slot) :=
  decidable_of_iff (∃ item ∈ placed program, item.2.upper.isSome = true ∧ slot = item.1 + 1)
    ⟨fun ⟨item, member, double⟩ => ⟨item.1, item.2, member, double⟩,
      fun ⟨start, insn, member, double⟩ => ⟨(start, insn), member, double⟩⟩

/-- An instruction that machines do not know. -/
def UnknownAt (program : List MachineInsn) (slot : Nat) : Prop :=
  ∃ insn, (slot, insn) ∈ placed program ∧ Opcode.role insn.opcode = .unknown

variable {World : Type}

/-- A run of the bytes of a program, after so many steps. -/
def after (env : Environment World) (program : List MachineInsn) (machine : Machine World)
    (count : Nat) : Execution World :=
  Execution.steps env (Bytecode.fetch (encodeProgram program)) count (.start machine)

theorem after_succ (env : Environment World) (program : List MachineInsn)
    (machine : Machine World) (count : Nat) :
    after env program machine (count + 1) =
      (after env program machine count).step env (Bytecode.fetch (encodeProgram program)) :=
  Execution.steps_succ_last env _ count _

/-- A run leaves the rails when it comes to the second half of an instruction,
or to one that machines do not know. -/
def Derails (env : Environment World) (program : List MachineInsn) (machine : Machine World) :
    Prop :=
  ∃ count slot, (after env program machine count).control = .running slot ∧
    (SecondHalf program slot ∨ UnknownAt program slot)

/-- A safe step carries out an instruction of the program, found at its first
slot, and moves forward. -/
structure SafeStep (maxStack : Nat) (program : List MachineInsn) (slot : Nat)
    (insn : MachineInsn) (before next : Execution World) : Prop where
  here : before.control = .running slot
  first : (slot, insn) ∈ placed program
  fetched : Bytecode.fetch (encodeProgram program) slot = some insn.seen
  forward : ∀ later, next.control = .running later → slot < later
  keepsFrame : next.machine.regs .frame = before.machine.regs .frame
  insideFrame : insn.accessesFrame = true → ∃ (event : Event) (distance : Int) (bytes : Nat),
    next.machine.trace = before.machine.trace ++ [event] ∧
      event.range? = some (before.machine.regs .frame + UInt64.ofInt distance, bytes) ∧
      -(maxStack : Int) ≤ distance ∧ distance + bytes ≤ 0

/-- A run that comes to an exit by safe steps, at most one for every
instruction. -/
def RunsSafely (env : Environment World) (maxStack : Nat) (program : List MachineInsn)
    (machine : Machine World) : Prop :=
  ∃ count ≤ program.length, (after env program machine count).control = .left ∧
    ∀ earlier < count, ∃ slot insn,
      SafeStep maxStack program slot insn (after env program machine earlier)
        (after env program machine (earlier + 1))

section Steps

variable {maxStack slot : Nat} {program : List MachineInsn} {insn : MachineInsn}
  (env : Environment World) (machine : Machine World)

theorem readable_of_checked (checked : Checked maxStack program) (member : insn ∈ program) :
    insn.Readable where
  dst := UInt8.le_trans (checked.registers insn member).1 (by decide)
  src := UInt8.le_trans (checked.registers insn member).2 (by decide)
  wide := checked.wide insn member

/-- After every instruction but the exit at the end, there is another one. -/
theorem next_lt_slots (checked : Checked maxStack program) (first : (slot, insn) ∈ placed program)
    (continues : Opcode.role insn.opcode ≠ .leave) : slot + insn.slots < slots program := by
  obtain ⟨before, rest, split, place⟩ := mem_placeFrom_iff.mp first
  obtain ⟨most, last, ends, exits⟩ := checked.exit
  have more : rest ≠ [] := by
    rintro rfl
    have same : insn = last := by
      have reversed := congrArg List.reverse (split.symm.trans ends)
      simp only [List.reverse_append, List.reverse_cons, List.reverse_nil, List.nil_append,
        List.singleton_append] at reversed
      exact (List.cons.inj reversed).1
    rw [same, exits] at continues
    exact continues Opcode.role_exitProgram
  obtain ⟨next, others, rfl⟩ := List.exists_cons_of_ne_nil more
  have positive := next.slots_pos
  rw [slots, split, totalOf_append, totalOf, totalOf]
  omega

/-- Where control is after an instruction of a checked program. -/
theorem control_advance (checked : Checked maxStack program)
    (first : (slot, insn) ∈ placed program) (known : Opcode.role insn.opcode ≠ .unknown) :
    (insn.seen.advance env slot machine).control = .left ∨
      ∃ later, (insn.seen.advance env slot machine).control = .running later ∧
        slot < later ∧ later < slots program ∧
        (later = slot + insn.seen.slots ∨
          insn.isJump = true ∧ (insn.jumpTarget slot).toNat = later) := by
  have member : insn ∈ program := mem_of_mem_placeFrom first
  have positive := insn.slots_pos
  cases found : Opcode.role insn.opcode with
  | leave =>
      left
      simp [advance, seen, found]
  | unknown => exact absurd found known
  | wide =>
      have double := Opcode.eq_lddw_of_role_wide found
      have high := checked.wide insn member double
      have inside := next_lt_slots checked first (by simp [found])
      obtain ⟨upper, some⟩ := Option.isSome_iff_exists.mp high
      right
      refine ⟨slot + 2, ?_, by omega, ?_, Or.inl ?_⟩
      · have code : Opcode.role Opcode.lddw = .wide := double ▸ found
        simp [advance, seen, double, some, code]
      · simpa [MachineInsn.slots, high] using inside
      · simp [MachineInsn.slots, seen, double, high]
  | jump =>
      have jumps : insn.isJump = true := by
        obtain ⟨jump, call, leave⟩ := Opcode.jumps_of_role_jump found
        simp [isJump, jump, call, leave]
      obtain ⟨forward, inside⟩ := checked.forward slot insn first jumps
      have through := next_lt_slots checked first (by simp [found])
      have single := insn.slots_seen_of_role (by simp [found])
      right
      cases taken : insn.seen.taken env machine with
      | true =>
          have target : insn.seen.jumpTarget slot = insn.jumpTarget slot := rfl
          have notNegative : 0 ≤ insn.jumpTarget slot := by omega
          refine ⟨(insn.jumpTarget slot).toNat, ?_, by omega, by omega, Or.inr ⟨jumps, rfl⟩⟩
          have role : Opcode.role insn.seen.opcode = .jump := found
          simp only [advance, role, taken, if_true, target, Control.ofTarget, notNegative]
      | false =>
          refine ⟨slot + 1, ?_, by omega, by omega, Or.inl (by rw [single])⟩
          have role : Opcode.role insn.seen.opcode = .jump := found
          simp [advance, role, taken]
  | arithmetic | load | storeImm | storeReg | call =>
      have through := next_lt_slots checked first (by simp [found])
      have single := insn.slots_seen_of_role (by simp [found])
      right
      refine ⟨slot + 1, ?_, by omega, by omega, Or.inl (by rw [single])⟩
      simp [advance, seen, found]

theorem frame_advance (checked : Checked maxStack program) (member : insn ∈ program) :
    (insn.seen.advance env slot machine).machine.regs .frame = machine.regs .frame := by
  have keeps := checked.keepsFrame insn member
  unfold advance
  split
  · rename_i wide
    have writes : insn.writesDst = true := by
      have double : insn.opcode = Opcode.lddw := Opcode.eq_lddw_of_role_wide wide
      simp [writesDst, double]
    have other : Reg.frame ≠ insn.seen.dstReg := fun same =>
      keeps writes (Reg.machine.inj same).symm
    split
    · simp [Machine.set, other]
    · rfl
  · split
    · rfl
    · rfl
  · rfl
  · rfl
  all_goals exact frame_perform env insn.seen machine keeps

theorem trace_advance_of_accessesFrame (slot : Nat) (accesses : insn.accessesFrame = true) :
    ∃ event, (insn.seen.advance env slot machine).machine.trace = machine.trace ++ [event] ∧
      event.range? =
        some (machine.regs .frame + UInt64.ofInt insn.offset.toInt, insn.accessWidth) := by
  obtain ⟨event, shown, range⟩ :=
    trace_perform_of_accessesFrame env insn.seen machine accesses
  refine ⟨event, ?_, range⟩
  have memory : Opcode.role insn.seen.opcode = .load ∨ Opcode.role insn.seen.opcode = .storeImm ∨
      Opcode.role insn.seen.opcode = .storeReg := by
    simp only [accessesFrame, base?] at accesses
    split_ifs at accesses with loads stores
    · exact Or.inl (Opcode.role_eq_load_iff.mpr loads)
    · rcases stores with immediate | register
      · exact Or.inr (Or.inl (Opcode.role_eq_storeImm_iff.mpr immediate))
      · exact Or.inr (Or.inr (Opcode.role_eq_storeReg_iff.mpr register))
    · simp at accesses
  rcases memory with load | storeImm | storeReg
  all_goals simp only [advance, *]

theorem safeStep_of_checked (checked : Checked maxStack program)
    (first : (slot, insn) ∈ placed program) (known : Opcode.role insn.opcode ≠ .unknown) :
    SafeStep maxStack program slot insn ⟨.running slot, machine⟩
      (insn.seen.advance env slot machine) := by
  have member : insn ∈ program := mem_of_mem_placeFrom first
  refine
    { here := rfl
      first := first
      fetched := Bytecode.fetch_encodeProgram first (readable_of_checked checked member)
      forward := ?_
      keepsFrame := frame_advance env machine checked member
      insideFrame := ?_ }
  · intro later running
    rcases control_advance env machine checked first known with
      left | ⟨place, there, forward, -, -⟩
    · rw [left] at running
      cases running
    · rw [there] at running
      cases running
      exact forward
  · intro accesses
    obtain ⟨event, shown, range⟩ :=
      trace_advance_of_accessesFrame env machine slot accesses
    have inside := checked.insideFrame insn member accesses
    simp only [insideFrame, Bool.and_eq_true, decide_eq_true_eq] at inside
    exact ⟨event, _, _, shown, range, inside.1, inside.2⟩

end Steps

section Runs

variable {env : Environment World} {maxStack : Nat} {program : List MachineInsn}

/-- A slot inside a program is the first one of an instruction or the second. -/
theorem first_or_secondHalf {slot : Nat} (inside : slot < slots program) :
    (∃ before insn rest, program = before ++ insn :: rest ∧
        slot = totalOf MachineInsn.slots before) ∨ SecondHalf program slot := by
  obtain ⟨before, insn, rest, split, low, high⟩ := exists_around inside
  rcases Nat.eq_or_lt_of_le low with same | above
  · exact Or.inl ⟨before, insn, rest, split, same.symm⟩
  · right
    cases double : insn.upper.isSome with
    | false =>
        have one : insn.slots = 1 := by simp [MachineInsn.slots, double]
        omega
    | true =>
        have two : insn.slots = 2 := by simp [MachineInsn.slots, double]
        have place : (totalOf MachineInsn.slots before, insn) ∈ placed program :=
          mem_placeFrom_iff.mpr ⟨before, rest, split, (Nat.zero_add _).symm⟩
        exact ⟨_, insn, place, double, by omega⟩

theorem leaves_from (checked : Checked maxStack program) (length : Nat) :
    ∀ (before rest : List MachineInsn) (insn : MachineInsn) (machine : Machine World),
      program = before ++ insn :: rest → rest.length = length →
      let run := fun count => Execution.steps env (Bytecode.fetch (encodeProgram program)) count
        ⟨.running (totalOf MachineInsn.slots before), machine⟩
      (∀ count slot, (run count).control = .running slot →
        ¬ SecondHalf program slot ∧ ¬ UnknownAt program slot) →
      ∃ count ≤ length + 1, (run count).control = .left ∧
        ∀ earlier < count, ∃ slot insn,
          SafeStep maxStack program slot insn (run earlier) (run (earlier + 1)) := by
  -- Induction on the number of instructions that are left: every step goes to a
  -- later one.
  induction length using Nat.strongRecOn with
  | ind length ih =>
      intro before rest insn machine split size run stays
      have first : (totalOf MachineInsn.slots before, insn) ∈ placed program :=
        mem_placeFrom_iff.mpr ⟨before, rest, split, (Nat.zero_add _).symm⟩
      have known : Opcode.role insn.opcode ≠ .unknown := fun unknown =>
        (stays 0 _ rfl).2 ⟨insn, first, unknown⟩
      have safe := safeStep_of_checked env machine checked first known
      have one : run 1 = insn.seen.advance env (totalOf MachineInsn.slots before) machine :=
        Execution.step_of_fetch env _ ⟨.running (totalOf _ before), machine⟩ rfl safe.fetched
      have safeFirst : SafeStep maxStack program (totalOf MachineInsn.slots before) insn (run 0)
          (run 1) := by
        rw [one]
        exact safe
      rcases control_advance env machine checked first known with
        left | ⟨later, there, forward, inside, -⟩
      · refine ⟨1, by omega, by rw [one, left], ?_⟩
        intro earlier less
        obtain rfl : earlier = 0 := by omega
        exact ⟨_, insn, safeFirst⟩
      · have atLater : (run 1).control = .running later := by rw [one, there]
        rcases first_or_secondHalf inside with ⟨before', insn', rest', split', rfl⟩ | second
        · obtain ⟨-, shorter⟩ := items_in_order _ (split ▸ split') forward
          have lengths : before.length + rest.length = before'.length + rest'.length := by
            have same := congrArg List.length (split ▸ split')
            simp only [List.length_append, List.length_cons] at same
            omega
          have shift (count : Nat) : run (count + 1) =
              Execution.steps env (Bytecode.fetch (encodeProgram program)) count
                ⟨.running (totalOf MachineInsn.slots before'), (run 1).machine⟩ := by
            rw [← atLater]
            exact Nat.add_comm count 1 ▸ Execution.steps_add env _ 1 count _
          obtain ⟨count, few, left, safeRest⟩ := ih rest'.length (by omega) before' rest' insn'
            (run 1).machine split' rfl (fun count slot running =>
              stays (count + 1) slot (by rw [shift]; exact running))
          refine ⟨count + 1, by omega, by rw [shift]; exact left, ?_⟩
          intro earlier less
          cases earlier with
          | zero => exact ⟨_, insn, safeFirst⟩
          | succ earlier =>
              rw [shift earlier, shift (earlier + 1)]
              exact safeRest earlier (by omega)
        · exact absurd second (stays 1 later atLater).1

theorem not_secondHalf_of_placed {slot : Nat} {insn : MachineInsn}
    (first : (slot, insn) ∈ placed program) : ¬ SecondHalf program slot := by
  rintro ⟨start, insn', second, double, rfl⟩
  obtain ⟨before, rest, split, place⟩ := mem_placeFrom_iff.mp first
  obtain ⟨before', rest', split', place'⟩ := mem_placeFrom_iff.mp second
  have apart := items_in_order MachineInsn.slots (split'.symm.trans split) (by omega)
  have two : insn'.slots = 2 := by simp [MachineInsn.slots, double]
  omega

theorem not_secondHalf_next {slot : Nat} {insn : MachineInsn}
    (first : (slot, insn) ∈ placed program) : ¬ SecondHalf program (slot + insn.slots) := by
  rintro ⟨start, insn', second, double, same⟩
  obtain ⟨before, rest, split, place⟩ := mem_placeFrom_iff.mp first
  obtain ⟨before', rest', split', place'⟩ := mem_placeFrom_iff.mp second
  have two : insn'.slots = 2 := by simp [MachineInsn.slots, double]
  have positive := insn.slots_pos
  rcases Nat.lt_trichotomy start slot with less | equal | more
  · have apart := items_in_order MachineInsn.slots (split'.symm.trans split) (by omega)
    omega
  · obtain rfl := eq_of_placed first (equal ▸ second)
    omega
  · have apart := items_in_order MachineInsn.slots (split.symm.trans split') (by omega)
    omega

theorem not_derails_of_runsSafely {machine : Machine World}
    (safe : RunsSafely env maxStack program machine) : ¬ Derails env program machine := by
  obtain ⟨count, -, left, steps⟩ := safe
  rintro ⟨reached, slot, running, broken⟩
  rcases Nat.lt_or_ge reached count with early | late
  · obtain ⟨slot', insn, step⟩ := steps reached early
    obtain rfl : slot' = slot := Control.running.inj (step.here.symm.trans running)
    rcases broken with second | ⟨insn', first, unknown⟩
    · exact not_secondHalf_of_placed step.first second
    · obtain rfl := eq_of_placed step.first first
      have stuck : (after env program machine (reached + 1)).control = .stuck := by
        rw [after_succ, Execution.step_of_fetch env _ _ running step.fetched]
        have role : Opcode.role insn.seen.opcode = .unknown := unknown
        simp only [advance, role]
      rcases Nat.lt_or_ge (reached + 1) count with early | late
      · obtain ⟨slot', insn', step'⟩ := steps (reached + 1) early
        cases stuck.symm.trans step'.here
      · obtain rfl : reached + 1 = count := by omega
        cases stuck.symm.trans left
  · obtain ⟨more, rfl⟩ := Nat.exists_eq_add_of_le late
    have still : after env program machine (count + more) = after env program machine count := by
      rw [after, Execution.steps_add]
      exact Execution.steps_of_left env _ left more
    rw [still, left] at running
    cases running

theorem runsSafely_of_not_derails (checked : Checked maxStack program) {machine : Machine World}
    (rails : ¬ Derails env program machine) : RunsSafely env maxStack program machine := by
  have stays : ∀ count slot, (after env program machine count).control = .running slot →
      ¬ SecondHalf program slot ∧ ¬ UnknownAt program slot := by
    intro count slot running
    exact ⟨fun second => rails ⟨count, slot, running, Or.inl second⟩,
      fun unknown => rails ⟨count, slot, running, Or.inr unknown⟩⟩
  obtain ⟨most, last, ends, -⟩ := checked.exit
  cases same : program with
  | nil =>
      rw [same] at ends
      cases most <;> cases ends
  | cons insn rest =>
      subst same
      exact leaves_from checked rest.length [] rest insn machine rfl rfl stays

/-- What keeps all runs of a valid program on the rails: only wide loads have an
upper immediate, and no jump goes to the second half of one. -/
structure OnRails (program : List MachineInsn) : Prop where
  known : ∀ insn ∈ program, Opcode.role insn.opcode ≠ .unknown
  upper : ∀ insn ∈ program, insn.upper.isSome = true → insn.opcode = Opcode.lddw
  targets : ∀ slot insn, (slot, insn) ∈ placed program → insn.isJump = true →
    ¬ SecondHalf program (insn.jumpTarget slot).toNat

instance (program : List MachineInsn) : Decidable (OnRails program) :=
  decidable_of_iff
    ((∀ insn ∈ program, Opcode.role insn.opcode ≠ .unknown) ∧
      (∀ insn ∈ program, insn.upper.isSome = true → insn.opcode = Opcode.lddw) ∧
      ∀ item ∈ placed program, item.2.isJump = true →
        ¬ SecondHalf program (item.2.jumpTarget item.1).toNat)
    ⟨fun ⟨known, upper, targets⟩ =>
        ⟨known, upper, fun slot insn member => targets (slot, insn) member⟩,
      fun rails => ⟨rails.known, rails.upper, fun _ member => rails.targets _ _ member⟩⟩

theorem not_derails_of_onRails (checked : Checked maxStack program) (rails : OnRails program)
    (machine : Machine World) : ¬ Derails env program machine := by
  have stays : ∀ count, (after env program machine count).control = .left ∨ ∃ slot insn,
      (after env program machine count).control = .running slot ∧
        (slot, insn) ∈ placed program := by
    intro count
    induction count with
    | zero =>
        obtain ⟨most, last, ends, -⟩ := checked.exit
        right
        cases same : program with
        | nil =>
            rw [same] at ends
            cases most <;> cases ends
        | cons insn rest => exact ⟨0, insn, rfl, List.mem_cons_self⟩
    | succ count ih =>
        rcases ih with left | ⟨slot, insn, running, first⟩
        · left
          rw [after, Execution.steps_add]
          rw [after] at left
          rw [Execution.steps_of_left env _ left, left]
        · have member := mem_of_mem_placeFrom first
          have found := Bytecode.fetch_encodeProgram first (readable_of_checked checked member)
          have next : after env program machine (count + 1) =
              insn.advance env slot (after env program machine count).machine := by
            rw [after_succ, Execution.step_of_fetch env _ _ running found,
              seen_eq_self (rails.upper insn member)]
          rw [next]
          have same := seen_eq_self (rails.upper insn member)
          rcases control_advance env (after env program machine count).machine checked first
              (rails.known insn member) with left | ⟨later, there, -, inside, way⟩
          · exact Or.inl (same ▸ left)
          · rcases first_or_secondHalf inside with ⟨before, next, rest, split, place⟩ | second
            · exact Or.inr ⟨later, next, same ▸ there,
                mem_placeFrom_iff.mpr ⟨before, rest, split, by omega⟩⟩
            · rcases way with rfl | ⟨jumps, rfl⟩
              · rw [same] at second
                exact absurd second (not_secondHalf_next first)
              · exact absurd second (rails.targets slot insn first jumps)
  rintro ⟨count, slot, running, broken⟩
  rcases stays count with left | ⟨slot', insn, running', first⟩
  · rw [left] at running
    cases running
  · obtain rfl : slot' = slot := Control.running.inj (running'.symm.trans running)
    rcases broken with second | ⟨insn', first', unknown⟩
    · exact not_secondHalf_of_placed first second
    · exact rails.known insn' (mem_of_mem_placeFrom first') unknown

end Runs

/-- A run of a valid program is safe exactly when it stays on the rails, and
all runs do when its jumps and its upper immediates are in order. -/
theorem runsSafely_iff_of_valid {limits : Limits} {program : List MachineInsn}
    (valid : (verify limits program).valid = true) (env : Environment World) :
    (∀ machine, RunsSafely env limits.maxStack program machine ↔ ¬ Derails env program machine) ∧
      (OnRails program → ∀ machine, RunsSafely env limits.maxStack program machine) := by
  have checked := checked_of_valid valid
  constructor
  · intro machine
    exact ⟨not_derails_of_runsSafely, runsSafely_of_not_derails checked⟩
  · intro rails machine
    exact runsSafely_of_not_derails checked (not_derails_of_onRails checked rails machine)

/-- A conditional jump over a wide load, with a given distance. -/
def jumpOverWide (distance : Int16) : List MachineInsn :=
  [⟨0x15, 0, 0, distance, 0, none⟩, .wide 1 0 149, ⟨0x95, 0, 0, 0, 0, none⟩]

/-- Two programs pass that differ in one jump: over a wide load, all runs are
safe; into its second half, the run from zeros is not. -/
theorem jumpOverWide_runs :
    (verify {} (jumpOverWide 2)).valid = true ∧
      (∀ machine, RunsSafely .idle 512 (jumpOverWide 2) machine) ∧
      (verify {} (jumpOverWide 1)).valid = true ∧
      ¬ RunsSafely .idle 512 (jumpOverWide 1) .zeros := by
  have past : (verify {} (jumpOverWide 2)).valid = true := by decide
  have into : (verify {} (jumpOverWide 1)).valid = true := by decide
  refine ⟨past, (runsSafely_iff_of_valid past .idle).2 (by decide), into, ?_⟩
  intro safe
  apply ((runsSafely_iff_of_valid into .idle).1 .zeros).mp safe
  exact ⟨1, 2, by decide +kernel, Or.inl (by decide)⟩

end Program

end TraceProbe
