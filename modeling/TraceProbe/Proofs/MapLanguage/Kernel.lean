import TraceProbe.Proofs.Machine.Blocks
import TraceProbe.Proofs.MapLanguage.Language
import TraceProbe.Proofs.Stream.Growth

/-!
# The kernel behind map helpers

A kernel keeps maps of fixed key and value sizes.  Its helpers write to the
bytes of the program only where they are asked to.
-/

namespace TraceProbe

/-- Memories with the same bytes at some addresses. -/
def Memory.AgreesOn (addresses : UInt64 → Prop) (left right : Memory) : Prop :=
  ∀ address, addresses address → left.byte address = right.byte address

/-- An environment whose helpers do what their names say. -/
structure Kernel (World : Type) extends Environment World where
  /-- Key and value size of every map that was created. -/
  sizes : UInt64 → Option (Nat × Nat)
  contents : World → Contents
  /-- The addresses that only the program writes to. -/
  owned : UInt64 → Prop
  /-- Whether so many bytes can be read from an address on. -/
  readable : Memory → World → UInt64 → UInt64 → Prop
  readable_of_owned : ∀ memory world address (size : UInt64),
    (∀ index < size.toNat, owned (address + UInt64.ofNat index)) →
      readable memory world address size
  sized : ∀ {id keySize valueSize}, sizes id = some (keySize, valueSize) →
    ∀ world key value, contents world id key = some value → value.length = valueSize
  lookup : ∀ {id keySize valueSize}, sizes id = some (keySize, valueSize) →
    ∀ key others memory world,
      let answer := call Helper.mapLookupElem.id (handle id :: key :: others) memory world
      contents answer.world = contents world ∧ answer.memory.AgreesOn owned memory ∧
        match contents world id (memory.read key keySize) with
        | none => answer.result = 0
        | some value =>
            answer.result ≠ 0 ∧ answer.memory.read answer.result valueSize = value ∧
              readable answer.memory answer.world answer.result (UInt64.ofNat valueSize)
  update : ∀ {id keySize valueSize}, sizes id = some (keySize, valueSize) →
    ∀ key value other memory world,
      let answer := call Helper.mapUpdateElem.id [handle id, key, value, 0, other] memory world
      contents answer.world = (contents world).put id (memory.read key keySize)
          (memory.read value valueSize) ∧
        answer.memory.AgreesOn owned memory
  delete : ∀ {id keySize valueSize}, sizes id = some (keySize, valueSize) →
    ∀ key others memory world,
      let answer := call Helper.mapDeleteElem.id (handle id :: key :: others) memory world
      contents answer.world = (contents world).erase id (memory.read key keySize) ∧
        answer.memory.AgreesOn owned memory
  /-- Memory that can be read is copied to where the program says. -/
  probeRead : ∀ target (size : UInt64) source others memory world,
    readable memory world source size →
      let answer := call Helper.probeRead.id (target :: size :: source :: others) memory world
      contents answer.world = contents world ∧
        answer.memory.AgreesOn owned (memory.write target (memory.read source size.toNat))

/-- An address in the frame of a machine. -/
def Machine.InFrame {World : Type} (machine : Machine World) (limit : Nat) (address : UInt64) :
    Prop :=
  ∃ position : Int, -limit ≤ position ∧ position < 0 ∧
    address = machine.regs .frame + UInt64.ofInt position

namespace Kernel

variable {World : Type}

/-- A machine in the middle of a probe: frame and context belong to the
program and lie apart, and the context still has its contents. -/
structure Ready (kernel : Kernel World) (limit : Nat) (symbols : Symbols)
    (context : Int16 → Nat → List UInt8) (machine : Machine World) : Prop where
  frame : ∀ address, machine.InFrame limit address → kernel.owned address
  saved : ∀ {name type offset}, symbols.context? name = some (type, offset) →
    ∀ index < type.size,
      kernel.owned (machine.address .context offset + UInt64.ofNat index) ∧
        ¬ machine.InFrame limit (machine.address .context offset + UInt64.ofNat index)
  bytes : ∀ {name type offset}, symbols.context? name = some (type, offset) →
    machine.memory.read (machine.address .context offset) type.size = context offset type.size

/-- Between two machines, only bytes at some positions of the frame changed, of
all that belongs to the program. -/
structure ChangesOnly (kernel : Kernel World) (touched : Int → Prop)
    (machine finish : Machine World) : Prop where
  frame : finish.regs .frame = machine.regs .frame
  context : finish.regs .context = machine.regs .context
  memory : ∀ address, kernel.owned address →
    (∀ position, touched position → address ≠ machine.regs .frame + UInt64.ofInt position) →
      finish.memory.byte address = machine.memory.byte address

section Changes

variable {kernel : Kernel World} {touched wider : Int → Prop}
  {machine middle finish : Machine World}

theorem ChangesOnly.refl (machine : Machine World) : kernel.ChangesOnly touched machine machine :=
  ⟨rfl, rfl, fun _ _ _ => rfl⟩

theorem ChangesOnly.trans (first : kernel.ChangesOnly touched machine middle)
    (second : kernel.ChangesOnly touched middle finish) :
    kernel.ChangesOnly touched machine finish := by
  refine ⟨second.frame.trans first.frame, second.context.trans first.context, ?_⟩
  intro address owned apart
  rw [second.memory address owned fun position member => first.frame ▸ apart position member,
    first.memory address owned apart]

theorem ChangesOnly.mono (changes : kernel.ChangesOnly touched machine finish)
    (sub : ∀ position, touched position → wider position) :
    kernel.ChangesOnly wider machine finish := by
  refine ⟨changes.frame, changes.context, ?_⟩
  intro address owned apart
  apply changes.memory address owned
  intro position member
  exact apart position (sub position member)

theorem ChangesOnly.of_none (changes : kernel.ChangesOnly (fun _ => False) machine finish) :
    kernel.ChangesOnly touched machine finish :=
  changes.mono fun _ none => none.elim

theorem ChangesOnly.inFrame_iff (changes : kernel.ChangesOnly touched machine finish)
    {limit : Nat} {address : UInt64} :
    finish.InFrame limit address ↔ machine.InFrame limit address := by
  unfold Machine.InFrame
  rw [changes.frame]

variable {limit : Nat} {symbols : Symbols} {context : Int16 → Nat → List UInt8}

theorem Ready.changed (ready : kernel.Ready limit symbols context machine)
    (changes : kernel.ChangesOnly touched machine finish)
    (inside : ∀ position, touched position → -(limit : Int) ≤ position ∧ position < 0) :
    kernel.Ready limit symbols context finish := by
  have same (offset : Int16) : finish.address .context offset =
      machine.address .context offset := by
    rw [Machine.address, changes.context, Machine.address]
  refine ⟨?_, ?_, ?_⟩
  · intro address inFrame
    exact ready.frame address (changes.inFrame_iff.mp inFrame)
  · intro name type offset known index less
    rw [same, changes.inFrame_iff]
    exact ready.saved known index less
  · intro name type offset known
    rw [same, ← ready.bytes known]
    apply Memory.read_congr
    intro index less
    obtain ⟨owned, outside⟩ := ready.saved known index less
    refine changes.memory _ owned fun position member equal => outside ?_
    exact ⟨position, (inside position member).1, (inside position member).2, equal⟩

/-- A slot that no change reaches keeps its bytes. -/
theorem ChangesOnly.slot (changes : kernel.ChangesOnly touched machine finish)
    (ready : kernel.Ready limit symbols context machine) (small : limit ≤ 0x8000)
    {offset : Int16} {size : Nat} (inside : Inside limit offset size)
    (bounded : ∀ position, touched position → -(limit : Int) ≤ position ∧ position < 0)
    (apart : ∀ position, touched position → ¬ Slot offset size position) :
    finish.slot offset size = machine.slot offset size := by
  obtain ⟨floor, top⟩ := inside
  apply Machine.slot_congr
  intro position low high
  rw [Machine.cell, Machine.cell, changes.frame]
  refine changes.memory _ (ready.frame _ ⟨position, by omega, by omega, rfl⟩) ?_
  intro other member equal
  have limits := bounded other member
  have different := apart other member
  obtain rfl := eq_of_addresses ⟨by omega, by omega⟩ equal
  exact different ⟨low, high⟩

/-- Between two machines, a slot got its bytes, only some positions of the frame
changed, and no map did. -/
structure Fills (kernel : Kernel World) (touched : Int → Prop) (machine : Machine World)
    (offset : Int16) (size : Nat) (bytes : List UInt8) (finish : Machine World) : Prop where
  changes : kernel.ChangesOnly touched machine finish
  contents : kernel.contents finish.world = kernel.contents machine.world
  slot : finish.slot offset size = bytes

theorem fills_of_wrote {offset : Int16} {size : Nat} {bytes : List UInt8}
    (wrote : machine.Wrote offset.toInt bytes finish) (length : bytes.length = size)
    (short : size ≤ 2 ^ 32) :
    kernel.Fills (Slot offset size) machine offset size bytes finish := by
  refine ⟨⟨wrote.frame, wrote.regs _ (by decide), ?_⟩, congrArg _ wrote.world, ?_⟩
  · intro address owned apart
    rw [wrote.memory]
    refine Memory.byte_write_of_ne _ _ _ (length ▸ short) ?_
    intro index inside
    rw [Memory.address_add]
    exact apart _ ⟨by omega, by omega⟩
  · exact length ▸ wrote.slot (length ▸ short)

theorem Fills.after {offset : Int16} {size : Nat} {bytes : List UInt8}
    (fills : kernel.Fills touched middle offset size bytes finish)
    (changes : kernel.ChangesOnly touched machine middle)
    (contents : kernel.contents middle.world = kernel.contents machine.world) :
    kernel.Fills touched machine offset size bytes finish where
  changes := changes.trans fills.changes
  contents := fills.contents.trans contents
  slot := fills.slot

theorem Fills.mono {offset : Int16} {size : Nat} {bytes : List UInt8}
    (fills : kernel.Fills touched machine offset size bytes finish)
    (sub : ∀ position, touched position → wider position) :
    kernel.Fills wider machine offset size bytes finish :=
  ⟨fills.changes.mono sub, fills.contents, fills.slot⟩

end Changes

end Kernel

end TraceProbe
