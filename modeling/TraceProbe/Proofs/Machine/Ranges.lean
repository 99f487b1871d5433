import TraceProbe.Proofs.Machine.Blocks

/-!
# Exact ranges

Code that clears, fills or copies a range of the frame does just that, wherever
the frame lies and whatever memory holds.  Its accesses are aligned, store each
byte of the range once, and there are no more of them than bytes.  A range may
be copied downwards onto itself, since every byte is read before it is
overwritten.
-/

namespace TraceProbe

/-- A range of the frame holds given bytes, and all other bytes, all registers
but some scratch registers, and the world are as they were. -/
structure Machine.Overwritten {World : Type} (machine : Machine World) (scratch : List Reg)
    (offset : Int16) (bytes : List UInt8) (finish : Machine World) : Prop where
  inside : finish.slot offset bytes.length = bytes
  outside : ∀ address, bytes.length ≤ (address - machine.address .frame offset).toNat →
    finish.memory.byte address = machine.memory.byte address
  regs : ∀ reg ∉ scratch, finish.regs reg = machine.regs reg
  world : finish.world = machine.world

namespace Machine

variable {World : Type} {machine finish : Machine World} {scratch : List Reg} {offset : Int16}
  {bytes : List UInt8}

theorem Tiled.overwritten (tiled : machine.Tiled scratch offset.toInt bytes finish)
    (kept : .frame ∉ scratch) (short : bytes.length ≤ 2 ^ 32) :
    machine.Overwritten scratch offset bytes finish := by
  refine ⟨?_, ?_, tiled.regs, tiled.world⟩
  · rw [slot, address, tiled.regs _ kept, tiled.memory]
    exact Memory.read_write _ _ short
  · intro address outside
    rw [Machine.address] at outside
    rw [tiled.memory, Memory.byte_write _ _ _ (by omega), List.getElem?_eq_none outside]
    rfl

theorem overwritten_slot (machine : Machine World) (scratch : List Reg) (offset : Int16)
    (size : Nat) : machine.Overwritten scratch offset (machine.slot offset size) machine :=
  ⟨by rw [length_slot], fun _ _ => rfl, fun _ _ => rfl, rfl⟩

end Machine

namespace Block

open Symbolic

/-- A run of code overwrites a range of the frame and shows certain events. -/
def Overwrites {World : Type} (env : Environment World) (machine : Machine World)
    (code : List Insn) (scratch : List Reg) (offset : Int16) (bytes : List UInt8)
    (events : List Event) : Prop :=
  ∃ finish, Runs env code machine finish ∧ machine.Overwritten scratch offset bytes finish ∧
    finish.trace = machine.trace ++ events

section Runs

variable {World : Type} {env : Environment World} {machine : Machine World} {code : List Insn}
  {scratch : List Reg} {offset : Int16} {size : Nat} {bytes : List UInt8}

theorem overwrites_of_tiled
    (found : ∃ finish, Runs env code machine finish ∧
      machine.Tiled scratch offset.toInt bytes finish)
    (kept : .frame ∉ scratch) (length : bytes.length = size) (short : size ≤ 2 ^ 32) :
    ∃ events, Overwrites env machine code scratch offset bytes events ∧
      Tiles (machine.regs .frame) offset.toInt size events := by
  obtain ⟨finish, runs, tiled⟩ := found
  obtain ⟨events, trace, tiles⟩ := tiled.shown
  exact ⟨events, ⟨finish, runs, tiled.overwritten kept (length ▸ short), trace⟩, length ▸ tiles⟩

theorem overwrites_clear (inside : offset.toInt + size ≤ 0x8000) :
    ∃ events,
      Overwrites env machine (clear offset size) [] offset (List.replicate size 0) events ∧
        Tiles (machine.regs .frame) offset.toInt size events := by
  have low := offset.le_toInt
  exact overwrites_of_tiled (tiled_clear env machine inside) List.not_mem_nil
    List.length_replicate (by omega)

theorem overwrites_fill (inside : offset.toInt + bytes.length ≤ 0x8000) :
    ∃ events, Overwrites env machine (fill offset bytes) [] offset bytes events ∧
      Tiles (machine.regs .frame) offset.toInt bytes.length events := by
  have low := offset.le_toInt
  exact overwrites_of_tiled (tiled_fill env machine inside) List.not_mem_nil rfl (by omega)

theorem overwrites_copy {dst src : Int16} (high : dst.toInt + size ≤ 0x8000)
    (srcHigh : src.toInt + size ≤ 0x8000)
    (apart : dst.toInt ≤ src.toInt ∨ src.toInt + size ≤ dst.toInt) :
    ∃ events,
      Overwrites env machine (copy dst src size) [.r0] dst (machine.slot src size) events ∧
        if dst = src then events = [] else Tiles (machine.regs .frame) dst.toInt size events := by
  by_cases same : dst = src
  · subst same
    have empty : copy dst dst size = [] := if_pos rfl
    rw [empty]
    exact ⟨[], ⟨machine, .nil machine, machine.overwritten_slot _ _ _, (List.append_nil _).symm⟩,
      by rw [if_pos rfl]⟩
  · have low := dst.le_toInt
    have tiled := tiled_copy env machine high srcHigh apart same
    obtain ⟨events, overwrites, tiles⟩ :=
      overwrites_of_tiled tiled (by decide) (machine.length_slot src size) (by omega)
    exact ⟨events, overwrites, by rwa [if_neg same]⟩

end Runs

section Lengths

theorem length_zeros (start : Int) (widths : List Width) :
    (zeros start widths).length = widths.length := by
  induction widths generalizing start with
  | nil => rfl
  | cons width widths ih => rw [zeros, List.length_cons, ih, List.length_cons]

theorem length_transfers (dst src : Int) (widths : List Width) :
    (transfers dst src widths).length = 2 * widths.length := by
  induction widths generalizing dst src with
  | nil => rfl
  | cons width widths ih =>
      rw [transfers, List.length_cons, List.length_cons, ih, List.length_cons]
      omega

theorem length_fills (start : Int) (bytes : List UInt8) (widths : List Width) :
    (fills start bytes widths).length = widths.length := by
  induction widths generalizing start bytes with
  | nil => rfl
  | cons width widths ih => rw [fills, List.length_cons, ih, List.length_cons]

theorem length_cut_le {most : Nat} (some : 0 < most) (first second : Int) (left : Nat) :
    (cut most first second left).length ≤ left := by
  have counted := extent_cut some first second left
  exact Nat.le_trans (length_le_extent _) (Nat.le_of_eq counted)

theorem length_clear_le (offset : Int16) (size : Nat) : (clear offset size).length ≤ size := by
  rw [clear, length_zeros]
  exact length_cut_le (by decide) _ _ _

theorem length_fill_le (offset : Int16) (bytes : List UInt8) :
    (fill offset bytes).length ≤ bytes.length := by
  rw [fill, length_fills]
  exact length_cut_le (by decide) _ _ _

theorem length_copy_le (dst src : Int16) (size : Nat) :
    (copy dst src size).length ≤ 2 * size := by
  unfold copy
  split
  · exact Nat.zero_le _
  · rw [length_transfers]
    exact Nat.mul_le_mul_left 2 (length_cut_le (by decide) _ _ _)

end Lengths

/-- Clearing and filling overwrite exactly their range, wherever offsets reach;
so does copying, unless the range to be copied begins below the one it is copied
to and reaches into it.  The accesses tile the range, and their number is
bounded for every size, in reach of an offset or not. -/
structure Exact {World : Type} (env : Environment World) (machine : Machine World) : Prop where
  cleared : ∀ (offset : Int16) (size : Nat), offset.toInt + size ≤ 0x8000 → ∃ events,
    Overwrites env machine (clear offset size) [] offset (List.replicate size 0) events ∧
      Tiles (machine.regs .frame) offset.toInt size events
  filled : ∀ (offset : Int16) (bytes : List UInt8),
    offset.toInt + bytes.length ≤ 0x8000 → ∃ events,
      Overwrites env machine (fill offset bytes) [] offset bytes events ∧
        Tiles (machine.regs .frame) offset.toInt bytes.length events
  copied : ∀ (dst src : Int16) (size : Nat),
    dst.toInt + size ≤ 0x8000 → src.toInt + size ≤ 0x8000 →
      (dst.toInt + size ≤ src.toInt ∨ src.toInt + size ≤ dst.toInt) ∨
        dst.toInt ≤ src.toInt → ∃ events,
          Overwrites env machine (copy dst src size) [.r0] dst (machine.slot src size) events ∧
            if dst = src then events = []
            else Tiles (machine.regs .frame) dst.toInt size events
  clear_ends : ∀ (offset : Int16) (size : Nat), (clear offset size).length ≤ size
  fill_ends : ∀ (offset : Int16) (bytes : List UInt8),
    (fill offset bytes).length ≤ bytes.length
  copy_ends : ∀ (dst src : Int16) (size : Nat), (copy dst src size).length ≤ 2 * size

theorem overwrites_exactly {World : Type} (env : Environment World)
    (machine : Machine World) : Exact env machine where
  cleared _ _ inside := overwrites_clear inside
  filled _ _ inside := overwrites_fill inside
  copied dst src size high srcHigh apart := by
    have apart : dst.toInt ≤ src.toInt ∨ src.toInt + size ≤ dst.toInt := by omega
    exact overwrites_copy high srcHigh apart
  clear_ends := length_clear_le
  fill_ends := length_fill_le
  copy_ends := length_copy_le

/-- Eight bytes are copied four positions down, onto half of themselves, in a
memory where every byte is the low byte of its address. -/
theorem overwrites_exactly_overlapping :
    ((-16 : Int16).toInt + (8 : Nat) ≤ 0x8000 ∧ (-12 : Int16).toInt + (8 : Nat) ≤ 0x8000 ∧
      (-16 : Int16).toInt ≤ (-12 : Int16).toInt) ∧
      ∃ events,
        Overwrites .idle { Machine.zeros with memory := ⟨UInt64.toUInt8⟩ } (copy (-16) (-12) 8)
            [.r0] (-16) [244, 245, 246, 247, 248, 249, 250, 251] events ∧
          Tiles 0 (-16) 8 events := by
  refine ⟨by decide, ?_⟩
  have exact := overwrites_exactly .idle { Machine.zeros with memory := ⟨UInt64.toUInt8⟩ }
  exact exact.copied (-16) (-12) 8 (by decide) (by decide) (.inr (by decide))

end Block

end TraceProbe
