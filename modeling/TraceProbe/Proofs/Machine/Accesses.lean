import TraceProbe.Proofs.Machine.Effects
import TraceProbe.Proofs.Machine.Frame

/-!
# Accesses to the frame

What a run does to memory stands in its trace.  Accesses tile a range of the
frame if each of them is aligned and if they store every byte of the range once
and no byte beside it.
-/

namespace TraceProbe

namespace Event

/-- An access to the frame at an offset that is a multiple of its width. -/
def Aligned (base : UInt64) : Event → Prop
  | load width address | store width address _ =>
      ∃ offset : Int16, address = base + UInt64.ofInt offset.toInt ∧
        (width.bytes : Int) ∣ offset.toInt
  | call _ _ => False

/-- Whether an event stores the byte at an address. -/
def stores (address : UInt64) : Event → Bool
  | store width start _ => (address - start).toNat < width.bytes
  | load _ _ | call _ _ => false

theorem aligned_load {base : UInt64} {start : Int} {width : Width} (low : -0x8000 ≤ start)
    (high : start < 0x8000) (multiple : (width.bytes : Int) ∣ start) :
    (load width (base + UInt64.ofInt start)).Aligned base := by
  have same := Int16.toInt_ofInt_of_le low (by omega)
  exact ⟨Int16.ofInt start, by rw [same], by rwa [same]⟩

end Event

/-- Events that access only the frame, at aligned offsets, and that store each
byte of a range once and no other byte. -/
structure Tiles (base : UInt64) (start : Int) (size : Nat) (events : List Event) : Prop where
  aligned : ∀ event ∈ events, event.Aligned base
  once : ∀ address, events.countP (Event.stores address) =
    if (address - (base + UInt64.ofInt start)).toNat < size then 1 else 0

namespace Tiles

variable {base : UInt64} {start : Int} {first second : Nat} {events later : List Event}

theorem nil (base : UInt64) (start : Int) : Tiles base start 0 [] :=
  ⟨fun _ member => (by cases member), fun _ => rfl⟩

theorem store {width : Width} (low : -0x8000 ≤ start) (high : start < 0x8000)
    (multiple : (width.bytes : Int) ∣ start) (value : UInt64) :
    Tiles base start width.bytes [.store width (base + UInt64.ofInt start) value] := by
  constructor
  · intro event member
    rw [List.mem_singleton.mp member]
    exact Event.aligned_load low high multiple
  · intro address
    rw [List.countP_singleton]
    simp only [Event.stores, decide_eq_true_eq]

theorem load (tiles : Tiles base start first events) {width : Width} {address : UInt64}
    (aligned : (Event.load width address).Aligned base) :
    Tiles base start first (.load width address :: events) := by
  constructor
  · intro event member
    rcases List.mem_cons.mp member with rfl | later
    · exact aligned
    · exact tiles.aligned event later
  · intro address
    rw [List.countP_cons_of_neg (by simp [Event.stores])]
    exact tiles.once address

theorem append (before : Tiles base start first events)
    (after : Tiles base (start + first) second later) (fits : first + second ≤ 2 ^ 32) :
    Tiles base start (first + second) (events ++ later) := by
  constructor
  · intro event member
    exact (List.mem_append.mp member).elim (before.aligned event) (after.aligned event)
  · intro address
    rw [List.countP_append, before.once, after.once, ← Memory.address_add,
      Memory.toNat_sub_address_add]
    have bound := (address - (base + UInt64.ofInt start)).toNat_lt
    generalize (address - (base + UInt64.ofInt start)).toNat = distance at *
    split <;> split <;> split <;> omega

end Tiles

end TraceProbe
