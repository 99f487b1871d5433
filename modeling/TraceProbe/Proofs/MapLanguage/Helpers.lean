import TraceProbe.Proofs.Emission.MapCode
import TraceProbe.Proofs.MapLanguage.Kernel

/-!
# Helper calls

What the code around a helper call leaves in the frame and in the maps, from
the set-up of its arguments to the end of the branches that follow it.
-/

namespace TraceProbe

open Symbolic AtSite

variable {World : Type} {kernel : Kernel World} {limit : Nat} {symbols : Symbols}
  {context : Int16 → Nat → List UInt8} {machine : Machine World}

namespace Kernel

theorem Ready.owned_slot (ready : kernel.Ready limit symbols context machine) {offset : Int16}
    {size : Nat} (inside : Inside limit offset size) :
    ∀ index < size, kernel.owned (machine.address .frame offset + UInt64.ofNat index) := by
  obtain ⟨low, high⟩ := inside
  intro index less
  rw [Machine.address, Memory.address_add]
  exact ready.frame _ ⟨_, by omega, by omega, rfl⟩

/-- Memory at the address in a register is read into a slot. -/
theorem runs_readCode (ready : kernel.Ready limit symbols context machine) {offset : Int16}
    {size : Nat} {src : Reg} (inside : Inside limit offset size)
    (readable : kernel.readable machine.memory machine.world (machine.regs src)
      (UInt64.ofNat size)) :
    ∃ finish, Runs kernel.toEnvironment (Emit.readCode offset size src) machine finish ∧
      kernel.Fills (Slot offset size) machine offset size
        (machine.memory.read (machine.regs src) size) finish := by
  obtain ⟨low, high⟩ := inside
  have bound := offset.le_toInt
  have owned := ready.owned_slot ⟨low, high⟩
  let target := machine.address .frame offset
  let called := ((machine.set .r3 (machine.regs src)).set .r2 (UInt64.ofNat size)).set .r1 target
  let finish := called.call kernel.toEnvironment Helper.probeRead.id
  have count : (UInt64.ofNat size).toNat = size := by
    rw [UInt64.toNat_ofNat']
    exact Nat.mod_eq_of_lt (by omega)
  have length := machine.memory.length_read (machine.regs src) size
  obtain ⟨contents, memory⟩ := kernel.probeRead target (UInt64.ofNat size) (machine.regs src)
    [machine.regs .r4, machine.regs (.machine 5)] machine.memory machine.world readable
  rw [count] at memory
  refine ⟨finish, ?_, ⟨⟨rfl, rfl, ?_⟩, contents, ?_⟩⟩
  · have moved : ∀ rest, run kernel.toEnvironment
        ((if src = .r3 then [] else [.move .r3 src]) ++ rest) ⟨.running, machine⟩ =
          run kernel.toEnvironment rest ⟨.running, machine.set .r3 (machine.regs src)⟩ := by
      intro rest
      by_cases same : src = .r3
      · rw [if_pos same, same, Machine.set_regs_self]
        rfl
      · rw [if_neg same]
        exact run_move _ _ _ _ _
    rw [Runs, Emit.readCode, moved, run_movImm, immediate_ofNat (by omega), Block.run_address,
      run_callOf]
    rfl
  · intro address own apart
    refine (memory address own).trans (Memory.byte_write_of_ne _ _ _ (by omega) ?_)
    intro index less
    rw [length] at less
    show address ≠ machine.regs .frame + UInt64.ofInt offset.toInt + _
    rw [Memory.address_add]
    exact apart _ ⟨by omega, by omega⟩
  · have whole := machine.memory.read_write target (show _ ≤ 2 ^ 32 by rw [length]; omega)
    rw [length] at whole
    rw [← whole]
    exact Memory.read_congr fun index less => memory _ (owned index less)

variable {number keySize valueSize : Nat}

theorem runs_lookupCall (known : kernel.sizes (UInt64.ofNat number) = some (keySize, valueSize))
    (machine : Machine World) (key : Int16) :
    ∃ finish, Runs kernel.toEnvironment (lookupCall number key) machine finish ∧
      kernel.ChangesOnly (fun _ => False) machine finish ∧
      kernel.contents finish.world = kernel.contents machine.world ∧
      match kernel.contents machine.world (UInt64.ofNat number) (machine.slot key keySize) with
      | none => finish.regs .r0 = 0
      | some value =>
          finish.regs .r0 ≠ 0 ∧ finish.memory.read (finish.regs .r0) valueSize = value ∧
            kernel.readable finish.memory finish.world (finish.regs .r0)
              (UInt64.ofNat valueSize) := by
  let handle := kernel.handle (UInt64.ofNat number)
  let place := machine.address .frame key
  let called := (machine.set .r1 handle).set .r2 place
  let finish := called.call kernel.toEnvironment Helper.mapLookupElem.id
  obtain ⟨contents, memory, result⟩ := kernel.lookup known place
    [machine.regs .r3, machine.regs .r4, machine.regs (.machine 5)] machine.memory machine.world
  refine ⟨finish, ?_, ⟨rfl, rfl, fun address own _ => memory address own⟩, contents, result⟩
  rw [Runs, lookupCall, run_mapRef, Block.run_address, run_callOf]
  rfl

theorem runs_lookupCode (ready : kernel.Ready limit symbols context machine)
    (known : kernel.sizes (UInt64.ofNat number) = some (keySize, valueSize)) (key : Int16)
    {offset : Int16} (inside : Inside limit offset valueSize) {miss hit : Label}
    (different : miss ≠ hit) :
    ∃ finish,
      Runs kernel.toEnvironment (lookupCode number key offset valueSize miss hit) machine finish ∧
      kernel.Fills (Slot offset valueSize) machine offset valueSize
        ((kernel.contents machine.world (UInt64.ofNat number) (machine.slot key keySize)).getD
          (List.replicate valueSize 0)) finish := by
  obtain ⟨low, high⟩ := inside
  have bound := offset.le_toInt
  obtain ⟨called, runs, changes, contents, result⟩ := runs_lookupCall known machine key
  have run_called (rest : List Insn) : run kernel.toEnvironment (lookupCall number key ++ rest)
      ⟨.running, machine⟩ = run kernel.toEnvironment rest ⟨.running, called⟩ := by
    rw [run_append, runs]
  have zero : Opcode.immediate 0 = 0 := rfl
  unfold Runs lookupCode
  cases found : kernel.contents machine.world (UInt64.ofNat number) (machine.slot key keySize) with
  | none =>
      rw [found] at result
      obtain ⟨finish, clears, wrote⟩ := Block.runs_clear kernel.toEnvironment called high
      have fills := @fills_of_wrote World kernel called finish offset valueSize _ wrote
          List.length_replicate (by omega)
      refine ⟨finish, ?_, fills.after changes.of_none contents⟩
      have skipped : miss ∉ Insn.boundLabels (Emit.readCode offset valueSize .r0) := by
        rw [Insn.boundLabels_of_inert (Emit.inert_readCode rfl)]
        exact List.not_mem_nil
      rw [run_called, run_jumpIfEqual, if_pos (zero ▸ result), run_append,
        run_seeking _ _ skipped, run_cons]
      have passed : step kernel.toEnvironment ⟨.seeking miss, called⟩ (.goto hit) =
          ⟨.seeking miss, called⟩ := rfl
      rw [passed, run_found, run_append, clears]
      rfl
  | some value =>
      rw [found] at result
      obtain ⟨nonzero, value, readable⟩ := result
      have calledReady : kernel.Ready limit symbols context called :=
        ready.changed changes fun _ none => none.elim
      obtain ⟨finish, reads, fills⟩ := runs_readCode calledReady ⟨low, high⟩ readable
      rw [value] at fills
      refine ⟨finish, ?_, fills.after changes.of_none contents⟩
      have skipped : hit ∉ Insn.boundLabels (Block.clear offset valueSize) := by
        rw [Block.clear, Insn.boundLabels_of_inert (Block.inert_zeros _ _)]
        exact List.not_mem_nil
      rw [run_called, run_jumpIfEqual, if_neg (zero ▸ nonzero), run_append, reads, run_goto,
        run_cons]
      have passed : step kernel.toEnvironment ⟨.seeking hit, finish⟩ (.label miss) =
          ⟨.seeking hit, finish⟩ := by
        simp [step, Flow.passing, different]
      rw [passed, run_append, run_seeking _ _ skipped, run_found]
      rfl

theorem runs_updateCode (known : kernel.sizes (UInt64.ofNat number) = some (keySize, valueSize))
    (machine : Machine World) (key value : Int16) :
    ∃ finish, Runs kernel.toEnvironment (updateCode number key value) machine finish ∧
      kernel.ChangesOnly (fun _ => False) machine finish ∧
      kernel.contents finish.world =
        (kernel.contents machine.world).put (UInt64.ofNat number) (machine.slot key keySize)
          (machine.slot value valueSize) := by
  let handle := kernel.handle (UInt64.ofNat number)
  let called := (((machine.set .r1 handle).set .r2 (machine.address .frame key)).set .r3
    (machine.address .frame value)).set .r4 0
  let finish := called.call kernel.toEnvironment Helper.mapUpdateElem.id
  obtain ⟨contents, memory⟩ := kernel.update known (machine.address .frame key)
    (machine.address .frame value) (machine.regs (.machine 5)) machine.memory machine.world
  refine ⟨finish, ?_, ⟨rfl, rfl, fun address own _ => memory address own⟩, contents⟩
  rw [Runs, updateCode, run_mapRef, Block.run_address, Block.run_address, run_movImm, run_callOf]
  rfl

theorem runs_deleteCode (known : kernel.sizes (UInt64.ofNat number) = some (keySize, valueSize))
    (machine : Machine World) (key : Int16) :
    ∃ finish, Runs kernel.toEnvironment (deleteCode number key) machine finish ∧
      kernel.ChangesOnly (fun _ => False) machine finish ∧
      kernel.contents finish.world =
        (kernel.contents machine.world).erase (UInt64.ofNat number) (machine.slot key keySize) := by
  let handle := kernel.handle (UInt64.ofNat number)
  let called := (machine.set .r1 handle).set .r2 (machine.address .frame key)
  let finish := called.call kernel.toEnvironment Helper.mapDeleteElem.id
  obtain ⟨contents, memory⟩ := kernel.delete known (machine.address .frame key)
    [machine.regs .r3, machine.regs .r4, machine.regs (.machine 5)] machine.memory machine.world
  refine ⟨finish, ?_, ⟨rfl, rfl, fun address own _ => memory address own⟩, contents⟩
  rw [Runs, deleteCode, run_mapRef, Block.run_address, run_callOf]
  rfl

end Kernel

end TraceProbe
