import TraceProbe.Proofs.Lowering.LinearScan
import TraceProbe.Proofs.Lowering.Layout
import TraceProbe.Proofs.Machine.Stepping
import TraceProbe.Proofs.Machine.Symbolic

/-!
# Machines that differ in virtual registers

A listing and its program run on machines that agree on everything but the
registers that the scan hands out: a live virtual register has its value in the
machine register that it was given.  Carrying out an instruction on both keeps
the two alike.
-/

namespace TraceProbe

theorem Allocation.apart_of_mem {number : UInt8} (member : number ∈ allocatable) :
    number ≠ 0 ∧ number ∉ Machine.argumentRegs := by
  rcases eq_of_mem_allocatable member with rfl | rfl | rfl <;> decide

/-- The registers of the scan are not named by instructions themselves. -/
def Insn.AvoidsAllocatable (insn : Insn) : Prop :=
  ∀ number ∈ Allocation.allocatable, .machine number ∉ insn.regs

instance (insn : Insn) : Decidable insn.AvoidsAllocatable :=
  List.decidableBAll _ Allocation.allocatable

/-- Machines of a listing and of its program, with the virtual registers that
are live. -/
structure Alike {World : Type} (assignment : Assignment) (live : Nat → Prop)
    (symbolic concrete : Machine World) : Prop where
  memory : concrete.memory = symbolic.memory
  world : concrete.world = symbolic.world
  trace : concrete.trace = symbolic.trace
  shared : ∀ number, number ∉ Allocation.allocatable →
    concrete.regs (.machine number) = symbolic.regs (.machine number)
  held : ∀ number, live number → ∀ register ∈ Allocation.allocatable,
    assignment.lookup number = some register →
      concrete.regs (.machine register) = symbolic.regs (.virtual number)

namespace Insn

theorem lookup_of_machineReg {assignment : Assignment} {number : Nat} {register : UInt8}
    (found : machineReg assignment (.virtual number) = .ok register) :
    assignment.lookup number = some register := by
  unfold machineReg at found
  cases known : assignment.lookup number with
  | none => simp [known] at found
  | some other =>
      simp only [known, Except.ok.injEq] at found
      rw [found]

end Insn

namespace Alike

variable {World : Type} {assignment : Assignment} {live : Nat → Prop}
  {symbolic concrete : Machine World}

theorem mono {fewer : Nat → Prop} (alike : Alike assignment live symbolic concrete)
    (keeps : ∀ number, fewer number → live number) :
    Alike assignment fewer symbolic concrete where
  memory := alike.memory
  world := alike.world
  trace := alike.trace
  shared := alike.shared
  held := fun number alive => alike.held number (keeps number alive)

/-- A register is readable where both machines have its value: a live virtual
register, or a machine register outside the scan. -/
def Readable (assignment : Assignment) (live : Nat → Prop) : Reg → Prop
  | .machine number => number ∉ Allocation.allocatable
  | .virtual number => live number ∧ ∃ register ∈ Allocation.allocatable,
      assignment.lookup number = some register

theorem value (alike : Alike assignment live symbolic concrete) {reg : Reg} {register : UInt8}
    (lowered : Insn.machineReg assignment reg = .ok register)
    (readable : Readable assignment live reg) :
    concrete.regs (.machine register) = symbolic.regs reg := by
  cases reg with
  | machine number =>
      cases lowered
      exact alike.shared _ readable
  | virtual number =>
      obtain ⟨alive, other, member, found⟩ := readable
      have same := Insn.lookup_of_machineReg lowered
      rw [found] at same
      cases same
      exact alike.held number alive _ member found

/-- A register is writable where no virtual register that stays live has its
place. -/
def Writable (assignment : Assignment) (live next : Nat → Prop) (reg : Reg)
    (register : UInt8) : Prop :=
  (∀ number, reg = .machine number → number ∉ Allocation.allocatable) ∧
    (∀ number, reg = .virtual number → register ∈ Allocation.allocatable) ∧
      ∀ number, next number → .virtual number ≠ reg →
        live number ∧ assignment.lookup number ≠ some register

theorem set {next : Nat → Prop} (alike : Alike assignment live symbolic concrete) {reg : Reg}
    {register : UInt8} (lowered : Insn.machineReg assignment reg = .ok register)
    (writable : Writable assignment live next reg register) (value : UInt64) :
    Alike assignment next (symbolic.set reg value) (concrete.set (.machine register) value) where
  memory := alike.memory
  world := alike.world
  trace := alike.trace
  shared := by
    intro number outside
    simp only [Machine.set]
    cases reg with
    | machine target =>
        cases lowered
        by_cases same : number = register
        · rw [same, if_pos rfl, if_pos rfl]
        · rw [if_neg (fun equal => same (Reg.machine.inj equal)),
            if_neg (fun equal => same (Reg.machine.inj equal))]
          exact alike.shared number outside
    | virtual target =>
        have inside := writable.2.1 target rfl
        have other : number ≠ register := fun same => outside (same ▸ inside)
        rw [if_neg (fun equal => other (Reg.machine.inj equal)), if_neg (by simp)]
        exact alike.shared number outside
  held := by
    intro number alive holder member found
    simp only [Machine.set]
    by_cases same : Reg.virtual number = reg
    · subst same
      have register_eq := Insn.lookup_of_machineReg lowered
      rw [found] at register_eq
      cases register_eq
      rw [if_pos rfl, if_pos rfl]
    · obtain ⟨before, different⟩ := writable.2.2 number alive same
      have other : holder ≠ register := fun equal => different (equal ▸ found)
      rw [if_neg (fun equal => other (Reg.machine.inj equal)), if_neg same]
      exact alike.held number before holder member found

theorem record (alike : Alike assignment live symbolic concrete) (event : Event) :
    Alike assignment live (symbolic.record event) (concrete.record event) where
  memory := alike.memory
  world := alike.world
  trace := by simp only [Machine.record, alike.trace]
  shared := alike.shared
  held := alike.held

theorem load {next : Nat → Prop} (alike : Alike assignment live symbolic concrete) {reg : Reg}
    {register : UInt8} (lowered : Insn.machineReg assignment reg = .ok register)
    (writable : Writable assignment live next reg register) (width : Width) (address : UInt64) :
    Alike assignment next (symbolic.load width reg address)
      (concrete.load width (.machine register) address) := by
  unfold Machine.load
  rw [alike.memory]
  exact (alike.set lowered writable _).record _

theorem store (alike : Alike assignment live symbolic concrete) (width : Width)
    (address value : UInt64) :
    Alike assignment live (symbolic.store width address value)
      (concrete.store width address value) where
  memory := by simp only [Machine.store, Machine.record, alike.memory]
  world := alike.world
  trace := by simp only [Machine.store, Machine.record, alike.trace]
  shared := alike.shared
  held := alike.held

theorem arguments (alike : Alike assignment live symbolic concrete) :
    concrete.arguments = symbolic.arguments := by
  apply List.map_congr_left
  intro number member
  exact alike.shared number fun inside => (Allocation.apart_of_mem inside).2 member

theorem call (alike : Alike assignment live symbolic concrete) (env : Environment World)
    (helper : Int32) :
    Alike assignment live (symbolic.call env helper) (concrete.call env helper) where
  memory := by simp only [Machine.call, alike.arguments, alike.memory, alike.world]
  world := by simp only [Machine.call, alike.arguments, alike.memory, alike.world]
  trace := by simp only [Machine.call, alike.arguments, alike.trace]
  shared := by
    intro number outside
    simp only [Machine.call, Machine.answered, alike.arguments, alike.memory, alike.world,
      alike.shared number outside]
  held := by
    intro number alive register member found
    have apart := Allocation.apart_of_mem member
    simp only [Machine.call, Machine.answered, if_neg apart.1, if_neg apart.2]
    exact alike.held number alive register member found

end Alike

end TraceProbe
