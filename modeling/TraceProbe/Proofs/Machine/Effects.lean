import TraceProbe.Proofs.Lowering.Layout
import TraceProbe.Proofs.Machine.Symbolic

/-!
# Effects of single instructions

One equation for every instruction that emission uses: what a running listing
does at it.  A listing that looks for a label runs past everything else.
-/

namespace TraceProbe

namespace Machine

variable {World : Type} (machine : Machine World)

@[simp] theorem regs_set_self (reg : Reg) (value : UInt64) :
    (machine.set reg value).regs reg = value :=
  if_pos rfl

@[simp] theorem regs_set_of_ne {reg other : Reg} (value : UInt64) (different : other ≠ reg) :
    (machine.set reg value).regs other = machine.regs other :=
  if_neg different

@[simp] theorem set_set (reg : Reg) (first second : UInt64) :
    (machine.set reg first).set reg second = machine.set reg second := by
  unfold set
  congr
  funext other
  by_cases same : other = reg <;> simp [same]

@[simp] theorem set_regs_self (reg : Reg) : machine.set reg (machine.regs reg) = machine := by
  unfold set
  congr
  funext other
  by_cases same : other = reg <;> simp [same]

@[simp] theorem memory_set (reg : Reg) (value : UInt64) :
    (machine.set reg value).memory = machine.memory :=
  rfl

@[simp] theorem world_set (reg : Reg) (value : UInt64) :
    (machine.set reg value).world = machine.world :=
  rfl

@[simp] theorem regs_record (event : Event) : (machine.record event).regs = machine.regs :=
  rfl

@[simp] theorem memory_record (event : Event) : (machine.record event).memory = machine.memory :=
  rfl

@[simp] theorem world_record (event : Event) : (machine.record event).world = machine.world :=
  rfl

@[simp] theorem regs_store (width : Width) (address value : UInt64) :
    (machine.store width address value).regs = machine.regs :=
  rfl

@[simp] theorem memory_store (width : Width) (address value : UInt64) :
    (machine.store width address value).memory =
      machine.memory.write address (littleEndian width.bytes value.toNat) :=
  rfl

@[simp] theorem world_store (width : Width) (address value : UInt64) :
    (machine.store width address value).world = machine.world :=
  rfl

/-- The value that a load finds. -/
def loaded (width : Width) (address : UInt64) : UInt64 :=
  UInt64.ofNat (fromLittleEndian (machine.memory.read address width.bytes))

@[simp] theorem regs_load_self (width : Width) (reg : Reg) (address : UInt64) :
    (machine.load width reg address).regs reg = machine.loaded width address :=
  if_pos rfl

@[simp] theorem regs_load_of_ne {reg other : Reg} (width : Width) (address : UInt64)
    (different : other ≠ reg) : (machine.load width reg address).regs other = machine.regs other :=
  if_neg different

@[simp] theorem memory_load (width : Width) (reg : Reg) (address : UInt64) :
    (machine.load width reg address).memory = machine.memory :=
  rfl

@[simp] theorem world_load (width : Width) (reg : Reg) (address : UInt64) :
    (machine.load width reg address).world = machine.world :=
  rfl

theorem arguments_eq : machine.arguments =
    [machine.regs .r1, machine.regs .r2, machine.regs .r3, machine.regs .r4,
      machine.regs (.machine 5)] :=
  rfl

variable (env : Environment World) (helper : Int32)

/-- What the helper answers when it is called. -/
abbrev answer : Answer World :=
  env.call helper machine.arguments machine.memory machine.world

@[simp] theorem memory_call : (machine.call env helper).memory =
    (machine.answer env helper).memory :=
  rfl

@[simp] theorem world_call : (machine.call env helper).world = (machine.answer env helper).world :=
  rfl

@[simp] theorem regs_call_r0 :
    (machine.call env helper).regs .r0 = (machine.answer env helper).result :=
  rfl

@[simp] theorem regs_call_frame : (machine.call env helper).regs .frame = machine.regs .frame :=
  rfl

@[simp] theorem regs_call_context :
    (machine.call env helper).regs .context = machine.regs .context :=
  rfl

end Machine

namespace Symbolic

open Opcode

variable {World : Type} (env : Environment World) (machine : Machine World) (rest : List Insn)

theorem run_of_carryOut {insn : Insn} {next : Symbolic World}
    (effect : carryOut env machine insn = next) :
    run env (insn :: rest) ⟨.running, machine⟩ = run env rest next := by
  rw [run_cons, step, if_pos rfl, effect]

/-- An instruction of one slot that does not leave. -/
theorem run_plain {code : UInt8} {dst src : Reg} {off : Int16} {imm : Int32}
    (meaningful : (Insn.plain code dst src off imm).meaningful = true)
    (stays : role code ≠ .leave) :
    run env (.plain code dst src off imm :: rest) ⟨.running, machine⟩ =
      run env rest ⟨.running, machine.perform env code dst src off imm⟩ := by
  apply run_of_carryOut
  simp only [carryOut, meaningful, if_true, if_neg stays]

@[simp] theorem run_movImm (dst : Reg) (imm : Int32) :
    run env (.movImm dst imm :: rest) ⟨.running, machine⟩ =
      run env rest ⟨.running, machine.set dst (immediate imm)⟩ :=
  run_plain env machine rest rfl (by decide)

@[simp] theorem run_move (dst src : Reg) :
    run env (.move dst src :: rest) ⟨.running, machine⟩ =
      run env rest ⟨.running, machine.set dst (machine.regs src)⟩ :=
  run_plain env machine rest rfl (by decide)

@[simp] theorem run_addImm (dst : Reg) (imm : Int32) :
    run env (.alu64Imm add dst imm :: rest) ⟨.running, machine⟩ =
      run env rest ⟨.running, machine.set dst (machine.regs dst + immediate imm)⟩ :=
  run_plain env machine rest rfl (by decide)

@[simp] theorem run_add (dst src : Reg) :
    run env (.alu64Reg add dst src :: rest) ⟨.running, machine⟩ =
      run env rest ⟨.running, machine.set dst (machine.regs dst + machine.regs src)⟩ :=
  run_plain env machine rest rfl (by decide)

@[simp] theorem run_mulImm (dst : Reg) (imm : Int32) :
    run env (.alu64Imm mul dst imm :: rest) ⟨.running, machine⟩ =
      run env rest ⟨.running, machine.set dst (machine.regs dst * immediate imm)⟩ :=
  run_plain env machine rest rfl (by decide)

@[simp] theorem run_shiftLeft (dst : Reg) (imm : Int32) :
    run env (.alu64Imm lsh dst imm :: rest) ⟨.running, machine⟩ =
      run env rest ⟨.running, machine.set dst (machine.regs dst <<< immediate imm)⟩ :=
  run_plain env machine rest rfl (by decide)

@[simp] theorem run_shiftRight (dst : Reg) (imm : Int32) :
    run env (.alu64Imm arsh dst imm :: rest) ⟨.running, machine⟩ =
      run env rest ⟨.running, machine.set dst (UInt64.ofInt
        ((machine.regs dst).toInt64.toInt / 2 ^ ((immediate imm).toNat % 64)))⟩ :=
  run_plain env machine rest rfl (by decide)

theorem ofCode_load (width : Width) : Width.ofCode (ldx ||| width.bits ||| memoryMode) = width := by
  cases width <;> decide

theorem ofCode_store (width : Width) :
    Width.ofCode (stx ||| width.bits ||| memoryMode) = width := by
  cases width <;> decide

theorem ofCode_storeImm (width : Width) :
    Width.ofCode (st ||| width.bits ||| memoryMode) = width := by
  cases width <;> decide

theorem role_load (width : Width) : role (ldx ||| width.bits ||| memoryMode) = .load := by
  cases width <;> decide

theorem role_store (width : Width) : role (stx ||| width.bits ||| memoryMode) = .storeReg := by
  cases width <;> decide

theorem role_storeImm (width : Width) : role (st ||| width.bits ||| memoryMode) = .storeImm := by
  cases width <;> decide

@[simp] theorem run_load (width : Width) (dst base : Reg) (off : Int16) :
    run env (.load width.bits dst base off :: rest) ⟨.running, machine⟩ =
      run env rest ⟨.running, machine.load width dst (machine.address base off)⟩ := by
  have meaningful : (Insn.load width.bits dst base off).meaningful = true := by
    simp [Insn.load, Insn.meaningful, role_load]
  refine (run_plain env machine rest meaningful (by simp [role_load])).trans ?_
  simp only [Machine.perform, role_load, ofCode_load]

@[simp] theorem run_store (width : Width) (base src : Reg) (off : Int16) :
    run env (.store width.bits base src off :: rest) ⟨.running, machine⟩ =
      run env rest ⟨.running,
        machine.store width (machine.address base off) (machine.regs src)⟩ := by
  have meaningful : (Insn.store width.bits base src off).meaningful = true := by
    simp [Insn.store, Insn.meaningful, role_store]
  refine (run_plain env machine rest meaningful (by simp [role_store])).trans ?_
  simp only [Machine.perform, role_store, ofCode_store]

@[simp] theorem run_storeImm (width : Width) (base : Reg) (off : Int16) (imm : Int32) :
    run env (.storeImm width.bits base off imm :: rest) ⟨.running, machine⟩ =
      run env rest ⟨.running,
        machine.store width (machine.address base off) (immediate imm)⟩ := by
  have meaningful : (Insn.storeImm width.bits base off imm).meaningful = true := by
    simp [Insn.storeImm, Insn.meaningful, role_storeImm]
  refine (run_plain env machine rest meaningful (by simp [role_storeImm])).trans ?_
  simp only [Machine.perform, role_storeImm, ofCode_storeImm]

@[simp] theorem run_wide (dst : Reg) (value : UInt64) :
    run env (.wide dst value :: rest) ⟨.running, machine⟩ =
      run env rest ⟨.running, machine.set dst value⟩ :=
  rfl

@[simp] theorem run_mapRef (dst : Reg) (map : Nat) :
    run env (.mapRef dst map :: rest) ⟨.running, machine⟩ =
      run env rest ⟨.running, machine.set dst (env.handle (UInt64.ofNat map))⟩ :=
  rfl

@[simp] theorem run_callOf (helper : Helper) :
    run env (.callOf helper :: rest) ⟨.running, machine⟩ =
      run env rest ⟨.running, machine.call env helper.id⟩ :=
  run_plain env machine rest rfl (by decide)

@[simp] theorem run_leave :
    run env (.leave :: rest) ⟨.running, machine⟩ = run env rest ⟨.left, machine⟩ :=
  rfl

@[simp] theorem run_label (name : Label) :
    run env (.label name :: rest) ⟨.running, machine⟩ = run env rest ⟨.running, machine⟩ :=
  rfl

@[simp] theorem run_jumpIfEqual (dst : Reg) (imm : Int32) (target : Label) :
    run env (.jumpImm jeq dst imm target :: rest) ⟨.running, machine⟩ =
      run env rest
        (if machine.regs dst = immediate imm then ⟨.seeking target, machine⟩
        else ⟨.running, machine⟩) := by
  apply run_of_carryOut
  have takes : env.takes (jmp ||| jeq ||| immediateOperand) (machine.regs dst) (immediate imm) =
      decide (machine.regs dst = immediate imm) := rfl
  have effect : carryOut env machine (.jumpImm jeq dst imm target) =
      if env.takes (jmp ||| jeq ||| immediateOperand) (machine.regs dst) (immediate imm) then
        ⟨.seeking target, machine⟩
      else ⟨.running, machine⟩ := rfl
  rw [effect, takes]
  simp only [decide_eq_true_eq]

@[simp] theorem run_goto (target : Label) :
    run env (.goto target :: rest) ⟨.running, machine⟩ =
      run env rest ⟨.seeking target, machine⟩ :=
  rfl

theorem run_seeking {code : List Insn} {target : Label} (missing : target ∉ Insn.boundLabels code) :
    run env code ⟨.seeking target, machine⟩ = ⟨.seeking target, machine⟩ := by
  induction code with
  | nil => rfl
  | cons insn code ih =>
      rw [run_cons]
      cases insn with
      | label name =>
          rw [Insn.boundLabels_label, List.mem_cons, not_or] at missing
          have stays : step env ⟨.seeking target, machine⟩ (.label name) =
              ⟨.seeking target, machine⟩ := by
            simp [step, Flow.passing, Ne.symm missing.1]
          rw [stays]
          exact ih missing.2
      | plain _ _ _ _ _ | wide _ _ | mapRef _ _ | jump _ _ _ _ _ => exact ih missing

@[simp] theorem run_found (target : Label) :
    run env (.label target :: rest) ⟨.seeking target, machine⟩ =
      run env rest ⟨.running, machine⟩ := by
  rw [run_cons]
  simp [step, Flow.passing]

end Symbolic

end TraceProbe
