import TraceProbe.Proofs.Emission.Moves
import TraceProbe.Proofs.Machine.Blocks
import TraceProbe.Proofs.Machine.Runs

/-!
# Loads and helper reads

What the code of a load leaves in its register, and what a helper read of the
memory behind an address leaves in its slot.
-/

namespace TraceProbe

open Symbolic

/-- Helper reads from these addresses copy what is there to where the program
says, and change nothing else. -/
def Environment.Copies {World : Type} (env : Environment World) (readable : UInt64 → Prop) : Prop :=
  ∀ (source : UInt64) (size : Nat), size < 2 ^ 32 →
    (∀ index < size, readable (source + UInt64.ofNat index)) → ∀ target others memory world,
      (env.call Helper.probeRead.id (target :: UInt64.ofNat size :: source :: others) memory
        world).memory = memory.write target (memory.read source size)

/-- A world in which all memory is readable, and every helper copies. -/
def Environment.copier : Environment Unit :=
  { Environment.idle with
    call := fun _ arguments memory _ =>
      { result := 0, scratch := fun _ => 0, world := ()
        memory := match arguments with
          | target :: size :: source :: _ => memory.write target (memory.read source size.toNat)
          | _ => memory } }

theorem Environment.copies_copier : Environment.copier.Copies fun _ => True := by
  intro source size small _ target others memory world
  have count : (UInt64.ofNat size).toNat = size := by
    rw [UInt64.toNat_ofNat']
    exact Nat.mod_eq_of_lt (by omega)
  show memory.write target (memory.read source (UInt64.ofNat size).toNat) = _
  rw [count]

/-- The helper of a call, with how much it is asked for and from where. -/
def Event.asked? : Event → Option (Int32 × List UInt64)
  | .call helper arguments => some (helper, (arguments.drop 1).take 2)
  | .load _ _ | .store _ _ _ => none

/-- A helper read as it shows in a trace. -/
def askedRead (size : Nat) (source : UInt64) : Int32 × List UInt64 :=
  (Helper.probeRead.id, [UInt64.ofNat size, source])

/-- A value that can be loaded into a register. -/
inductive Storage.Loadable : Storage → Prop
  | register (reg : Reg) (size : Nat) : Loadable ⟨.register reg, size⟩
  | slot (offset : Int16) (width : Width) : Loadable ⟨.slot offset, width.bytes⟩

namespace Storage

/-- The code of a load. -/
def loadCode (dst : Reg) (storage : Storage) : List Insn :=
  match storage.place with
  | .register reg => if reg = dst then [] else [.move dst reg]
  | .slot offset =>
      ((Width.ofBytes? storage.size).map fun width => .load width.bits dst .frame offset).toList
  | .unassigned => []

/-- The code that reads memory at a distance behind a pointer. -/
def distantCode (pointer : Storage) (slot : Int16) (size : Nat) (distance : Int32) : List Insn :=
  pointer.loadCode .r3 ++
    ((if distance ≠ 0 then [.alu64Imm Opcode.add .r3 distance] else []) ++
      Emit.readCode slot size .r3)

end Storage

theorem Emit.yields_loadReg_iff {dst : Reg} {storage : Storage} {stream finish : Stream}
    {result : Unit} :
    Yields (loadReg dst storage) stream result finish ↔
      storage.Loadable ∧ stream.append (storage.loadCode dst) = finish := by
  obtain ⟨place, size⟩ := storage
  cases place with
  | unassigned =>
      refine ⟨fun found => absurd found not_yields_loadReg_unassigned, ?_⟩
      intro found
      cases found.1
  | register reg =>
      rw [yields_loadReg_register_iff]
      exact ⟨fun found => ⟨.register reg size, found⟩, fun found => found.2⟩
  | slot offset =>
      rw [yields_loadReg_slot_iff]
      constructor
      · rintro ⟨width, wide, rfl⟩
        refine ⟨Width.bytes_of_ofBytes? wide ▸ .slot offset width, ?_⟩
        simp only [Storage.loadCode, wide]
        rfl
      · rintro ⟨loadable, rfl⟩
        cases loadable with
        | slot offset width =>
            refine ⟨width, Width.ofBytes?_bytes width, ?_⟩
            simp only [Storage.loadCode, Width.ofBytes?_bytes]
            rfl

namespace Machine

variable {World : Type}

/-- The helper calls so far. -/
def asked (machine : Machine World) : List (Int32 × List UInt64) :=
  machine.trace.filterMap Event.asked?

/-- What a load of a stored value gives.  Above the bytes of a slot there are
zeros. -/
def word (machine : Machine World) (storage : Storage) : UInt64 :=
  match storage.place with
  | .register reg => machine.regs reg
  | .slot offset => UInt64.ofNat (fromLittleEndian (machine.slot offset storage.size))
  | .unassigned => 0

/-- One register was set, and nothing else changed but for loads in the trace. -/
structure Sets (machine : Machine World) (dst : Reg) (value : UInt64) (finish : Machine World) :
    Prop where
  value : finish.regs dst = value
  regs : ∀ reg, reg ≠ dst → finish.regs reg = machine.regs reg
  memory : finish.memory = machine.memory
  world : finish.world = machine.world
  asked : finish.asked = machine.asked

theorem sets_set (machine : Machine World) (dst : Reg) (value : UInt64) :
    machine.Sets dst value (machine.set dst value) where
  value := machine.regs_set_self dst value
  regs _ other := machine.regs_set_of_ne value other
  memory := rfl
  world := rfl
  asked := rfl

theorem Sets.again {machine middle finish : Machine World} {dst : Reg} {first second : UInt64}
    (before : machine.Sets dst first middle) (after : middle.Sets dst second finish) :
    machine.Sets dst second finish where
  value := after.value
  regs reg other := (after.regs reg other).trans (before.regs reg other)
  memory := after.memory.trans before.memory
  world := after.world.trans before.world
  asked := after.asked.trans before.asked

/-- Loads from places other than the register that was set give what they gave. -/
theorem Sets.word {machine finish : Machine World} {dst : Reg} {value : UInt64} {storage : Storage}
    (sets : machine.Sets dst value finish) (frame : dst ≠ .frame)
    (other : storage.place ≠ .register dst) : finish.word storage = machine.word storage := by
  obtain ⟨place, size⟩ := storage
  cases place with
  | unassigned => rfl
  | register reg => exact sets.regs reg fun same => other (congrArg _ same)
  | slot offset =>
      simp only [Machine.word, Machine.slot, Machine.address, sets.memory, sets.regs _ frame.symm]

/-- Bytes behind an address were read into a slot of the frame by one helper
call. -/
structure Fetched (machine : Machine World) (offset : Int16) (size : Nat) (source : UInt64)
    (finish : Machine World) : Prop where
  regs : ∀ reg : Reg, reg.Lasting → finish.regs reg = machine.regs reg
  memory : finish.memory =
    machine.memory.write (machine.address .frame offset) (machine.memory.read source size)
  asked : finish.asked = machine.asked ++ [askedRead size source]

namespace Fetched

variable {machine middle finish : Machine World} {offset : Int16} {size : Nat}
  {source value : UInt64} {dst : Reg}

theorem slot (fetched : machine.Fetched offset size source finish) (short : size ≤ 2 ^ 32) :
    finish.slot offset size = machine.memory.read source size := by
  have length := machine.memory.length_read source size
  have whole := machine.memory.read_write (machine.address .frame offset)
    (show (machine.memory.read source size).length ≤ 2 ^ 32 by omega)
  rw [length] at whole
  rw [Machine.slot, Machine.address, fetched.regs _ Reg.lasting_frame, fetched.memory]
  exact whole

theorem after (fetched : middle.Fetched offset size source finish)
    (sets : machine.Sets dst value middle) (scratch : ¬ dst.Lasting) :
    machine.Fetched offset size source finish := by
  have apart {reg : Reg} (lasting : reg.Lasting) : reg ≠ dst := fun same => scratch (same ▸ lasting)
  refine ⟨?_, ?_, ?_⟩
  · intro reg lasting
    rw [fetched.regs reg lasting, sets.regs reg (apart lasting)]
  · rw [fetched.memory, sets.memory, Machine.address, Machine.address,
      sets.regs _ (apart Reg.lasting_frame)]
  · rw [fetched.asked, sets.asked]

end Fetched

end Machine

section Runs

variable {World : Type} {env : Environment World} {machine : Machine World} {storage : Storage}

theorem runs_loadCode (loadable : storage.Loadable) (env : Environment World)
    (machine : Machine World) (dst : Reg) :
    ∃ finish, Runs env (storage.loadCode dst) machine finish ∧
      machine.Sets dst (machine.word storage) finish := by
  cases loadable with
  | register reg size =>
      unfold Storage.loadCode
      simp only
      by_cases same : reg = dst
      · rw [if_pos same, same]
        exact ⟨machine, .nil machine, rfl, fun _ _ => rfl, rfl, rfl, rfl⟩
      · rw [if_neg same]
        exact ⟨_, run_move env machine [] dst reg, machine.sets_set dst _⟩
  | slot offset width =>
      refine ⟨machine.load width dst (machine.address .frame offset), ?_, ?_⟩
      · simp only [Runs, Storage.loadCode, Width.ofBytes?_bytes]
        exact run_load env machine [] width dst .frame offset
      · refine ⟨machine.regs_load_self width dst _,
          fun _ other => machine.regs_load_of_ne width _ other, rfl, rfl, ?_⟩
        show (machine.trace ++ [Event.load _ _]).filterMap Event.asked? = _
        rw [List.filterMap_append]
        exact List.append_nil _

/-- A helper read of a readable stretch of memory fetches it. -/
theorem runs_helperRead {readable : UInt64 → Prop} (copies : env.Copies readable) {size : Nat}
    (small : size < 2 ^ 31) (offset : Int16) (src : Reg)
    (inside : ∀ index < size, readable (machine.regs src + UInt64.ofNat index)) :
    ∃ finish, Runs env (Emit.readCode offset size src) machine finish ∧
      machine.Fetched offset size (machine.regs src) finish := by
  let target := machine.address .frame offset
  let called := ((machine.set .r3 (machine.regs src)).set .r2 (UInt64.ofNat size)).set .r1 target
  let finish := called.call env Helper.probeRead.id
  refine ⟨finish, ?_, ?_, ?_, ?_⟩
  · have moved : ∀ rest, run env ((if src = .r3 then [] else [.move .r3 src]) ++ rest)
        ⟨.running, machine⟩ = run env rest ⟨.running, machine.set .r3 (machine.regs src)⟩ := by
      intro rest
      by_cases same : src = .r3
      · rw [if_pos same, same, Machine.set_regs_self]
        rfl
      · rw [if_neg same]
        exact run_move _ _ _ _ _
    rw [Runs, Emit.readCode, moved, run_movImm, immediate_ofNat small, Block.run_address,
      run_callOf]
    rfl
  · intro reg lasting
    have argument {number : UInt8} (among : number ∈ Machine.argumentRegs) :
        reg ≠ .machine number :=
      fun same => lasting.2 (same ▸ List.mem_map_of_mem among)
    have first : reg ≠ .r1 := argument (by decide)
    have second : reg ≠ .r2 := argument (by decide)
    have third : reg ≠ .r3 := argument (by decide)
    refine (Machine.regs_call_of_lasting env called lasting _).trans ?_
    exact (Machine.regs_set_of_ne _ _ first).trans
      ((Machine.regs_set_of_ne _ _ second).trans (Machine.regs_set_of_ne _ _ third))
  · exact copies (machine.regs src) size (by omega) inside target
      [machine.regs .r4, machine.regs (.machine 5)]
      machine.memory machine.world
  · show (machine.trace ++ [Event.call _ _]).filterMap Event.asked? = _
    rw [List.filterMap_append]
    rfl

theorem Reg.not_lasting_r3 : ¬ Reg.Lasting .r3 := by
  intro lasting
  exact lasting.2 (by decide)

/-- Memory at a distance behind a pointer is read there. -/
theorem runs_distantCode {readable : UInt64 → Prop} (copies : env.Copies readable) {size : Nat}
    (small : size < 2 ^ 31) (pointed : storage.Loadable) (slot : Int16) {distance : Int32}
    (inside : ∀ index < size, readable (machine.word storage + Opcode.immediate distance +
      UInt64.ofNat index)) :
    ∃ finish, Runs env (storage.distantCode slot size distance) machine finish ∧
      machine.Fetched slot size (machine.word storage + Opcode.immediate distance) finish := by
  obtain ⟨loaded, loads, sets⟩ := runs_loadCode pointed env machine .r3
  obtain ⟨moved, moves, sets'⟩ : ∃ moved : Machine World,
      Runs env (if distance ≠ 0 then [.alu64Imm Opcode.add .r3 distance] else []) loaded moved ∧
        machine.Sets .r3 (machine.word storage + Opcode.immediate distance) moved := by
    by_cases still : distance = 0
    · rw [if_neg (not_not.mpr still), still]
      refine ⟨loaded, .nil loaded, ?_⟩
      rwa [show Opcode.immediate 0 = 0 from rfl, UInt64.add_zero]
    · rw [if_pos still, ← sets.value]
      exact ⟨_, run_addImm env loaded [] .r3 distance, sets.again (loaded.sets_set .r3 _)⟩
  rw [← sets'.value] at inside ⊢
  obtain ⟨finish, reads, fetched⟩ := runs_helperRead copies small slot .r3 inside
  exact ⟨finish, loads.append (moves.append reads), fetched.after sets' Reg.not_lasting_r3⟩

end Runs

end TraceProbe
