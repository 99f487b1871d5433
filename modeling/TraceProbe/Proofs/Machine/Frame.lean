import TraceProbe.Proofs.Machine.Basic

/-!
# Cells of the frame

The frame is addressed by positions, which are offsets from the frame pointer.
Positions of one frame are near each other, so a write changes the cells of its
own range and no others, wherever the frame lies.
-/

namespace TraceProbe

theorem toNat_sub_positions (base : UInt64) (low high : Int) :
    ((base + UInt64.ofInt high) - (base + UInt64.ofInt low)).toNat =
      ((high - low) % 2 ^ 64).toNat := by
  have same : (base + UInt64.ofInt high) - (base + UInt64.ofInt low) =
      UInt64.ofInt (high - low) := by
    have parts : high = low + (high - low) := by omega
    rw [UInt64.sub_eq_iff_eq_add, UInt64.add_comm _ (base + _), UInt64.add_assoc,
      ← UInt64.ofInt_add, ← parts]
  rw [same]
  have bound : ((high - low) % 2 ^ 64).toNat < 2 ^ 64 := by omega
  rw [UInt64.ofInt, UInt64.toNat_ofNat']
  exact Nat.mod_eq_of_lt bound

/-- Positions that lie in one frame, or close to it. -/
def Near (low high : Int) : Prop :=
  high - low < 2 ^ 32 ∧ low - high < 2 ^ 32

theorem eq_of_addresses {base : UInt64} {low high : Int} (near : Near low high)
    (same : base + UInt64.ofInt low = base + UInt64.ofInt high) : low = high := by
  have distance := toNat_sub_positions base low high
  rw [same, UInt64.sub_self] at distance
  obtain ⟨above, below⟩ := near
  have zero : ((high - low) % 2 ^ 64).toNat = 0 := distance.symm
  omega

namespace Memory

theorem ofNat_eq_ofInt (count : Nat) : UInt64.ofNat count = UInt64.ofInt count := by
  apply UInt64.toNat_inj.mp
  rw [UInt64.ofInt, UInt64.toNat_ofNat', UInt64.toNat_ofNat']
  omega

theorem address_add (base : UInt64) (position : Int) (count : Nat) :
    base + UInt64.ofInt position + UInt64.ofNat count =
      base + UInt64.ofInt (position + count) := by
  rw [ofNat_eq_ofInt, UInt64.add_assoc, ← UInt64.ofInt_add]

/-- The byte at a position after a write at another. -/
theorem byte_write_position (memory : Memory) (base : UInt64) {start position : Int}
    {bytes : List UInt8} (near : Near start position) (fits : bytes.length ≤ 2 ^ 32) :
    (memory.write (base + UInt64.ofInt start) bytes).byte (base + UInt64.ofInt position) =
      if start ≤ position then
        (bytes[(position - start).toNat]?).getD (memory.byte (base + UInt64.ofInt position))
      else memory.byte (base + UInt64.ofInt position) := by
  obtain ⟨above, below⟩ := near
  rw [byte_write _ _ _ (by omega), toNat_sub_positions]
  split
  · rename_i inside
    have same : ((position - start) % 2 ^ 64).toNat = (position - start).toNat := by omega
    rw [same]
  · rename_i before
    have far : bytes.length ≤ ((position - start) % 2 ^ 64).toNat := by omega
    rw [List.getElem?_eq_none far]
    rfl

theorem read_write (memory : Memory) (address : UInt64) {bytes : List UInt8}
    (fits : bytes.length ≤ 2 ^ 32) :
    (memory.write address bytes).read address bytes.length = bytes := by
  apply List.ext_getElem?
  intro index
  rcases Nat.lt_or_ge index bytes.length with inside | outside
  · rw [getElem?_read _ _ inside, byte_write _ _ _ (by omega)]
    have distance : (address + UInt64.ofNat index - address).toNat = index := by
      rw [UInt64.add_comm, UInt64.add_sub_cancel, UInt64.toNat_ofNat']
      exact Nat.mod_eq_of_lt (by omega)
    rw [distance, List.getElem?_eq_getElem inside]
    rfl
  · rw [List.getElem?_eq_none (by simpa using outside), List.getElem?_eq_none outside]

/-- Bytes at other positions than those written are as they were. -/
theorem read_write_of_apart (memory : Memory) (base : UInt64) {start position : Int}
    {bytes : List UInt8} {count : Nat}
    (near : -0x8000 ≤ start ∧ start + bytes.length ≤ 0x8000 ∧ -0x8000 ≤ position ∧
      position + count ≤ 0x8000)
    (apart : start + bytes.length ≤ position ∨ position + count ≤ start) :
    (memory.write (base + UInt64.ofInt start) bytes).read (base + UInt64.ofInt position) count =
      memory.read (base + UInt64.ofInt position) count := by
  apply read_congr
  intro index inside
  rw [address_add, byte_write_position _ _ ⟨by omega, by omega⟩ (by omega)]
  split
  · rw [List.getElem?_eq_none (by omega)]
    rfl
  · rfl

theorem byte_write_of_ne (memory : Memory) (address other : UInt64) {bytes : List UInt8}
    (fits : bytes.length ≤ 2 ^ 32)
    (apart : ∀ index < bytes.length, other ≠ address + UInt64.ofNat index) :
    (memory.write address bytes).byte other = memory.byte other := by
  rw [byte_write _ _ _ (by omega)]
  rcases Nat.lt_or_ge (other - address).toNat bytes.length with inside | outside
  · refine absurd ?_ (apart _ inside)
    rw [UInt64.ofNat_toNat, UInt64.add_comm, UInt64.sub_add_cancel]
  · rw [List.getElem?_eq_none outside]
    rfl

theorem toNat_sub_address_add (address other : UInt64) (count : Nat) :
    (other - (address + UInt64.ofNat count)).toNat =
      (((other - address).toNat - count : Int) % 2 ^ 64).toNat := by
  have here : address + UInt64.ofInt ((other - address).toNat : Int) = other := by
    rw [← ofNat_eq_ofInt, UInt64.ofNat_toNat, UInt64.add_comm, UInt64.sub_add_cancel]
  have shifted := toNat_sub_positions address (count : Int) ((other - address).toNat : Int)
  rwa [here, ← ofNat_eq_ofInt] at shifted

theorem write_append (memory : Memory) (address : UInt64) {first second : List UInt8}
    (fits : first.length + second.length ≤ 2 ^ 32) :
    (memory.write address first).write (address + UInt64.ofNat first.length) second =
      memory.write address (first ++ second) := by
  ext other
  rw [byte_write _ _ _ (by omega), byte_write _ _ _ (by omega),
    byte_write _ _ _ (by rw [List.length_append]; omega), toNat_sub_address_add]
  have bound := (other - address).toNat_lt
  generalize (other - address).toNat = distance at *
  rcases Nat.lt_or_ge distance first.length with inside | behind
  · have far : second.length ≤ (((distance : Int) - first.length) % 2 ^ 64).toNat := by omega
    rw [List.getElem?_eq_none far, List.getElem?_append_left inside]
    rfl
  · have same : (((distance : Int) - first.length) % 2 ^ 64).toNat = distance - first.length := by
      omega
    rw [same, List.getElem?_append_right behind, List.getElem?_eq_none behind]
    rfl

end Memory

namespace Machine

variable {World : Type}

/-- The byte at a position of the frame. -/
def cell (machine : Machine World) (position : Int) : UInt8 :=
  machine.memory.byte (machine.regs .frame + UInt64.ofInt position)

/-- The bytes of a slot of the frame. -/
def slot (machine : Machine World) (offset : Int16) (size : Nat) : List UInt8 :=
  machine.memory.read (machine.address .frame offset) size

@[simp] theorem length_slot (machine : Machine World) (offset : Int16) (size : Nat) :
    (machine.slot offset size).length = size :=
  Memory.length_read _ _ _

theorem getElem?_slot (machine : Machine World) (offset : Int16) {size index : Nat}
    (inside : index < size) :
    (machine.slot offset size)[index]? = some (machine.cell (offset.toInt + index)) := by
  rw [slot, Memory.getElem?_read _ _ inside, address, Memory.address_add, cell]

/-- Machines with the same cells in a slot have the same bytes in it. -/
theorem slot_congr {left right : Machine World} {offset : Int16} {size : Nat}
    (same : ∀ position : Int, offset.toInt ≤ position → position < offset.toInt + size →
      left.cell position = right.cell position) :
        left.slot offset size = right.slot offset size := by
  apply List.ext_getElem?
  intro index
  rcases Nat.lt_or_ge index size with inside | outside
  · rw [getElem?_slot _ _ inside, getElem?_slot _ _ inside, same _ (by omega) (by omega)]
  · rw [List.getElem?_eq_none (by simpa using outside),
      List.getElem?_eq_none (by simpa using outside)]

end Machine

end TraceProbe
