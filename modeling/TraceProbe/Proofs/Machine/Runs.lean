import TraceProbe.Proofs.Machine.Paths

/-!
# Runs as walks

A run is a walk that carries a machine along.  A register that no instruction of
a listing sets is left alone by its runs, unless helper calls use it.
-/

namespace TraceProbe

/-- Registers that helper calls leave alone. -/
def Reg.Lasting (reg : Reg) : Prop :=
  reg ≠ .r0 ∧ reg ∉ Machine.argumentRegs.map Reg.machine

theorem Reg.lasting_frame : Reg.Lasting .frame := by
  constructor <;> decide

theorem Reg.lasting_context : Reg.Lasting .context := by
  constructor <;> decide

theorem Reg.lasting_virtual (number : Nat) : Reg.Lasting (.virtual number) := by
  constructor
  · intro same
    cases same
  · simp

namespace Machine

variable {World : Type} (env : Environment World) (machine : Machine World) {reg : Reg}

theorem regs_call_of_lasting (lasting : reg.Lasting) (helper : Int32) :
    (machine.call env helper).regs reg = machine.regs reg := by
  cases reg with
  | virtual number => rfl
  | machine number =>
      have notResult : number ≠ 0 := fun same => lasting.1 (same ▸ rfl)
      have notArgument : number ∉ argumentRegs := fun member =>
        lasting.2 (List.mem_map_of_mem member)
      simp only [call, answered, if_neg notResult, if_neg notArgument]

end Machine

namespace Symbolic

variable {World : Type} (env : Environment World) {code : List Insn} {insn : Insn} {reg : Reg}

/-- One instruction leaves a register alone that it does not set. -/
theorem regs_carryOut (lasting : reg.Lasting) (other : insn.writes? ≠ some reg)
    (machine : Machine World) : (carryOut env machine insn).machine.regs reg =
      machine.regs reg := by
  unfold carryOut
  split
  · cases insn with
    | plain code dst src off imm =>
        simp only
        split
        · rfl
        · unfold Machine.perform
          unfold Insn.writes? at other
          simp only at other
          split at other
          · rename_i role
            simp only [role]
            exact machine.regs_set_of_ne _ fun same => other (same ▸ rfl)
          · rename_i role
            simp only [role]
            exact machine.regs_load_of_ne _ _ fun same => other (same ▸ rfl)
          · split
            · contradiction
            · contradiction
            · rfl
            · rfl
            · exact machine.regs_call_of_lasting env lasting _
            all_goals rfl
    | wide dst value => exact machine.regs_set_of_ne _ fun same => other (same ▸ rfl)
    | mapRef dst map => exact machine.regs_set_of_ne _ fun same => other (same ▸ rfl)
    | jump code dst src imm target =>
        simp only
        split <;> rfl
    | label name => rfl
  · rfl

theorem regs_run (lasting : reg.Lasting) (others : ∀ insn ∈ code, insn.writes? ≠ some reg)
    (symbolic : Symbolic World) : (run env code symbolic).machine.regs reg =
      symbolic.machine.regs reg := by
  induction code generalizing symbolic with
  | nil => rfl
  | cons insn code ih =>
      have here : (step env symbolic insn).machine.regs reg = symbolic.machine.regs reg := by
        unfold step
        split
        · exact regs_carryOut env lasting (others insn List.mem_cons_self) symbolic.machine
        · rfl
      rw [run_cons, ih fun other member => others other (List.mem_cons_of_mem _ member), here]

/-- A watch that carries a machine along. -/
def carrying (good : Machine World → Insn → Prop) : Watch (Machine World) where
  step machine insn := (carryOut env machine insn).machine
  good := good

theorem exists_carrying (good : Machine World → Insn → Prop) (code : List Insn)
    (symbolic : Symbolic World) :
    ∃ visited, Walk symbolic.flow code visited (run env code symbolic).flow ∧
      (run env code symbolic).machine = (carrying env good).after symbolic.machine visited := by
  induction code generalizing symbolic with
  | nil => exact ⟨[], .nil _, rfl⟩
  | cons insn code ih =>
      obtain ⟨visited, walk, same⟩ := ih (step env symbolic insn)
      rw [run_cons]
      by_cases running : symbolic.flow = .running
      · rw [step, if_pos running] at walk same ⊢
        refine ⟨insn :: visited, ?_, same⟩
        rw [running]
        exact .visit (flow_carryOut env symbolic.machine insn) walk
      · rw [step, if_neg running] at walk same ⊢
        exact ⟨visited, .pass running walk, same⟩

/-- A run comes to the end of code that every walk comes to the end of. -/
theorem run_of_leads {State : Type} {watch : Watch State} {pre post : State → Prop}
    (leads : watch.Leads pre code post) {state : State} (holds : pre state)
    (machine : Machine World) :
    ∃ final, run env code ⟨.running, machine⟩ = ⟨.running, final⟩ := by
  obtain ⟨visited, walk⟩ := exists_walk env code ⟨.running, machine⟩
  obtain ⟨running, -, -⟩ := leads state holds _ _ walk
  exact ⟨_, congrArg (Symbolic.mk · _) running⟩

end Symbolic

end TraceProbe
