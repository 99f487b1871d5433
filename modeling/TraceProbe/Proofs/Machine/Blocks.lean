import TraceProbe.Proofs.Machine.Accesses
import TraceProbe.Proofs.Machine.Widths

/-!
# Runs of blocks

Code that clears, fills and copies ranges of the frame cuts a range into
accesses.  Together they are one write of the whole range, and they tile it.
-/

namespace TraceProbe

section Bytes

theorem foldr_bytes (bytes : List UInt8) :
    bytes.foldr (fun byte higher => higher * 256 + byte.toNat) 0 = fromLittleEndian bytes := by
  induction bytes with
  | nil => rfl
  | cons byte bytes ih =>
      rw [List.foldr_cons, ih, fromLittleEndian]
      omega

theorem littleEndian_immediate {bytes : List UInt8} (short : bytes.length ≤ 4) :
    littleEndian bytes.length (Opcode.immediate (Block.immediate bytes)).toNat = bytes := by
  have value : (Block.immediate bytes).toInt % 2 ^ 32 =
      (fromLittleEndian bytes : Int) % 2 ^ 32 := by
    rw [Block.immediate, foldr_bytes, Int32.toInt_ofNat']
    exact Int.bmod_emod
  have wide : (Opcode.immediate (Block.immediate bytes)).toNat =
      ((Block.immediate bytes).toInt % 2 ^ 64).toNat := by
    rw [Opcode.immediate, UInt64.ofInt, UInt64.toNat_ofNat']
    omega
  have same : (Opcode.immediate (Block.immediate bytes)).toNat % 256 ^ bytes.length =
      fromLittleEndian bytes % 256 ^ bytes.length := by
    rw [wide]
    have lengths : bytes.length = 0 ∨ bytes.length = 1 ∨ bytes.length = 2 ∨ bytes.length = 3 ∨
        bytes.length = 4 := by omega
    rcases lengths with length | length | length | length | length <;> rw [length] <;> omega
  rw [littleEndian_congr same, littleEndian_fromLittleEndian]

end Bytes

theorem immediate_ofNat {count : Nat} (small : count < 2 ^ 31) :
    Opcode.immediate (Int32.ofNat count) = UInt64.ofNat count := by
  rw [Opcode.immediate, Int32.toInt_ofNat_of_lt small, ← Memory.ofNat_eq_ofInt]

namespace Block

/-- The number of bytes that accesses cover together. -/
def extent : List Width → Nat
  | [] => 0
  | width :: widths => width.bytes + extent widths

theorem extent_cut {most : Nat} (some : 0 < most) (first second : Int) (left : Nat) :
    extent (cut most first second left) = left := by
  induction left using Nat.strongRecOn generalizing first second with
  | ind left ih =>
      rw [cut]
      split
      · rename_i zero
        rw [zero, extent]
      · have positive := bytes_widest_pos first second (min left most)
        have bounded := bytes_widest_le first second (show 0 < min left most by omega)
        rw [extent, ih _ (by omega)]
        omega

theorem length_le_extent (widths : List Width) : widths.length ≤ extent widths := by
  induction widths with
  | nil => exact Nat.le_refl _
  | cons width widths ih =>
      have positive := width.bytes_pos
      rw [List.length_cons, extent]
      omega

/-- Accesses from an offset on, each at a multiple of its width. -/
def Fitted (start : Int) : List Width → Prop
  | [] => True
  | width :: widths => (width.bytes : Int) ∣ start ∧ Fitted (start + width.bytes) widths

theorem widest_dvd (first second : Int) (left : Nat) :
    ((widest first second left).bytes : Int) ∣ first ∧
      ((widest first second left).bytes : Int) ∣ second := by
  unfold widest
  cases found : [Width.double, .word, .half].find? (fits first second left) with
  | none => exact ⟨Int.one_dvd _, Int.one_dvd _⟩
  | some width =>
      have holds := List.find?_some found
      simp only [fits, Bool.and_eq_true, decide_eq_true_eq] at holds
      exact ⟨Int.dvd_of_emod_eq_zero holds.1.2, Int.dvd_of_emod_eq_zero holds.2⟩

theorem fitted_cut (most : Nat) (first second : Int) (left : Nat) :
    Fitted first (cut most first second left) ∧ Fitted second (cut most first second left) := by
  induction left using Nat.strongRecOn generalizing first second with
  | ind left ih =>
      rw [cut]
      split
      · exact ⟨trivial, trivial⟩
      · have positive := bytes_widest_pos first second (min left most)
        obtain ⟨dvdFirst, dvdSecond⟩ := widest_dvd first second (min left most)
        obtain ⟨restFirst, restSecond⟩ :=
          ih (left - (widest first second (min left most)).bytes) (by omega) _ _
        exact ⟨⟨dvdFirst, restFirst⟩, dvdSecond, restSecond⟩

theorem bytes_le_of_mem_cut {most : Nat} (some : 0 < most) {first second : Int} {left : Nat}
    {width : Width} (member : width ∈ cut most first second left) : width.bytes ≤ most := by
  induction left using Nat.strongRecOn generalizing first second with
  | ind left ih =>
      rw [cut] at member
      split at member
      · cases member
      · have positive := bytes_widest_pos first second (min left most)
        have bounded := bytes_widest_le first second (show 0 < min left most by omega)
        rcases List.mem_cons.mp member with rfl | later
        · omega
        · exact ih _ (by omega) later

end Block

/-- A listing runs to its end and leaves the machine in a certain state. -/
def Symbolic.Runs {World : Type} (env : Environment World) (code : List Insn)
    (machine finish : Machine World) : Prop :=
  run env code ⟨.running, machine⟩ = ⟨.running, finish⟩

theorem Symbolic.Runs.nil {World : Type} {env : Environment World} (machine : Machine World) :
    Runs env [] machine machine :=
  rfl

theorem Symbolic.Runs.append {World : Type} {env : Environment World} {first second : List Insn}
    {machine middle finish : Machine World} (start : Runs env first machine middle)
    (rest : Runs env second middle finish) : Runs env (first ++ second) machine finish := by
  unfold Runs at start ⊢
  rw [run_append, start]
  exact rest

/-- Bytes were written at a position of the frame, and nothing else happened to
memory or to any register but `r0`. -/
structure Machine.Wrote {World : Type} (machine : Machine World) (start : Int)
    (bytes : List UInt8) (finish : Machine World) : Prop where
  regs : ∀ reg, reg ≠ .r0 → finish.regs reg = machine.regs reg
  world : finish.world = machine.world
  memory : finish.memory = machine.memory.write (machine.regs .frame + UInt64.ofInt start) bytes

namespace Machine.Wrote

variable {World : Type} {machine finish : Machine World} {start : Int}

theorem frame {bytes : List UInt8} (wrote : machine.Wrote start bytes finish) :
    finish.regs .frame = machine.regs .frame :=
  wrote.regs _ (by decide)

theorem slot {offset : Int16} {bytes : List UInt8} (wrote : machine.Wrote offset.toInt bytes finish)
    (short : bytes.length ≤ 2 ^ 32) : finish.slot offset bytes.length = bytes := by
  rw [Machine.slot, Machine.address, wrote.frame, wrote.memory]
  exact Memory.read_write _ _ short

end Machine.Wrote

/-- Bytes were written at a position of the frame by accesses that tile their
range, and nothing else happened to memory or to any register but some scratch
registers. -/
structure Machine.Tiled {World : Type} (machine : Machine World) (scratch : List Reg)
    (start : Int) (bytes : List UInt8) (finish : Machine World) : Prop where
  regs : ∀ reg ∉ scratch, finish.regs reg = machine.regs reg
  world : finish.world = machine.world
  memory : finish.memory = machine.memory.write (machine.regs .frame + UInt64.ofInt start) bytes
  shown : ∃ events, finish.trace = machine.trace ++ events ∧
    Tiles (machine.regs .frame) start bytes.length events

namespace Machine.Tiled

variable {World : Type} {machine middle finish : Machine World} {scratch : List Reg} {start : Int}

theorem nil (machine : Machine World) (scratch : List Reg) (start : Int) :
    machine.Tiled scratch start [] machine := by
  refine ⟨?_, rfl, rfl, [], (List.append_nil _).symm, .nil _ _⟩
  intro _ _
  rfl

theorem wrote {bytes : List UInt8} (tiled : machine.Tiled scratch start bytes finish)
    (only : ∀ reg ∈ scratch, reg = .r0) : machine.Wrote start bytes finish := by
  refine ⟨?_, tiled.world, tiled.memory⟩
  intro reg other
  apply tiled.regs reg
  intro member
  exact other (only reg member)

theorem append {first second : List UInt8} (before : machine.Tiled scratch start first middle)
    (after : middle.Tiled scratch (start + first.length) second finish) (kept : .frame ∉ scratch)
    (fits : first.length + second.length ≤ 2 ^ 32) :
    machine.Tiled scratch start (first ++ second) finish := by
  have frame := before.regs _ kept
  obtain ⟨events, trace, tiles⟩ := before.shown
  obtain ⟨events', trace', tiles'⟩ := after.shown
  rw [frame] at tiles'
  refine ⟨fun reg free => (after.regs reg free).trans (before.regs reg free),
    after.world.trans before.world, ?_, events ++ events', ?_, ?_⟩
  · rw [after.memory, before.memory, frame, ← Memory.address_add, Memory.write_append _ _ fits]
  · rw [trace', trace, List.append_assoc]
  · rw [List.length_append]
    exact tiles.append tiles' fits

end Machine.Tiled

namespace Block

open Symbolic

variable {World : Type} {env : Environment World} {machine : Machine World}

theorem address_frame (machine : Machine World) {start : Int} (low : -0x8000 ≤ start)
    (high : start < 0x8000) :
    machine.address .frame (Int16.ofInt start) =
      machine.regs .frame + UInt64.ofInt start := by
  rw [Machine.address, Int16.toInt_ofInt_of_le low (by omega)]

/-- One store of the bytes of a value. -/
theorem tiled_store {start : Int} {width : Width} (low : -0x8000 ≤ start) (high : start < 0x8000)
    (multiple : (width.bytes : Int) ∣ start) {value : UInt64} {bytes : List UInt8}
    (holds : littleEndian width.bytes value.toNat = bytes) :
    machine.Tiled [] start bytes
      (machine.store width (machine.regs .frame + UInt64.ofInt start) value) := by
  refine ⟨fun _ _ => rfl, rfl, ?_, [.store width (machine.regs .frame + UInt64.ofInt start) value],
    rfl, ?_⟩
  · rw [← holds]
    rfl
  · rw [← holds, length_littleEndian]
    exact .store low high multiple value

theorem tiled_zeros (env : Environment World) (machine : Machine World) {start : Int}
    {widths : List Width} (low : -0x8000 ≤ start)
    (high : start + extent widths ≤ 0x8000) (fitted : Fitted start widths) :
    ∃ finish, Runs env (zeros start widths) machine finish ∧
      machine.Tiled [] start (List.replicate (extent widths) 0) finish := by
  induction widths generalizing start machine with
  | nil => exact ⟨machine, .nil machine, .nil machine [] start⟩
  | cons width widths ih =>
      rw [extent] at high
      have positive := width.bytes_pos
      have here := address_frame machine low (by omega)
      let stored := machine.store width (machine.regs .frame + UInt64.ofInt start) 0
      have first : machine.Tiled [] start (List.replicate width.bytes 0) stored :=
        tiled_store low (by omega) fitted.1 (littleEndian_zero _)
      obtain ⟨finish, runs, rest⟩ :=
        ih stored (by omega) (by omega) fitted.2
      refine ⟨finish, ?_, ?_⟩
      · rw [zeros, Runs, run_storeImm, here]
        exact runs
      · rw [extent, List.replicate_add]
        refine first.append (by rwa [List.length_replicate]) (by decide) ?_
        simp only [List.length_replicate]
        omega

theorem tiled_clear (env : Environment World) (machine : Machine World) {offset : Int16}
    {size : Nat} (inside : offset.toInt + size ≤ 0x8000) :
    ∃ finish, Runs env (clear offset size) machine finish ∧
      machine.Tiled [] offset.toInt (List.replicate size 0) finish := by
  have low := offset.le_toInt
  have whole := extent_cut (show 0 < 8 by decide) offset.toInt offset.toInt size
  obtain ⟨fitted, -⟩ := fitted_cut 8 offset.toInt offset.toInt size
  have found := tiled_zeros env machine low (by omega) fitted
  rwa [whole] at found

theorem runs_clear (env : Environment World) (machine : Machine World) {offset : Int16}
    {size : Nat} (inside : offset.toInt + size ≤ 0) :
    ∃ finish, Runs env (clear offset size) machine finish ∧
      machine.Wrote offset.toInt (List.replicate size 0) finish := by
  have small : offset.toInt + size ≤ 0x8000 := by omega
  obtain ⟨finish, runs, tiled⟩ := tiled_clear env machine small
  exact ⟨finish, runs, tiled.wrote (by decide)⟩

theorem littleEndian_loaded (machine : Machine World) (width : Width) (address : UInt64) :
    littleEndian width.bytes (machine.loaded width address).toNat =
      machine.memory.read address width.bytes := by
  have length := machine.memory.length_read address width.bytes
  have bound := fromLittleEndian_lt (machine.memory.read address width.bytes)
  have small : 256 ^ width.bytes ≤ 2 ^ 64 := by cases width <;> decide
  rw [length] at bound
  rw [Machine.loaded, UInt64.toNat_ofNat', Nat.mod_eq_of_lt (by omega)]
  have whole := littleEndian_fromLittleEndian (machine.memory.read address width.bytes)
  rwa [length] at whole

/-- A load through `r0` and a store of what it found. -/
theorem tiled_transfer {dst src : Int} {width : Width} (low : -0x8000 ≤ dst) (high : dst < 0x8000)
    (srcLow : -0x8000 ≤ src) (srcHigh : src < 0x8000) (multiple : (width.bytes : Int) ∣ dst)
    (srcMultiple : (width.bytes : Int) ∣ src) :
    machine.Tiled [.r0] dst
      (machine.memory.read (machine.regs .frame + UInt64.ofInt src) width.bytes)
      ((machine.load width .r0 (machine.regs .frame + UInt64.ofInt src)).store width
        (machine.regs .frame + UInt64.ofInt dst)
        (machine.loaded width (machine.regs .frame + UInt64.ofInt src))) := by
  let address := machine.regs .frame + UInt64.ofInt src
  have value := littleEndian_loaded machine width address
  refine ⟨?_, rfl, ?_, [.load width address,
    .store width (machine.regs .frame + UInt64.ofInt dst) (machine.loaded width address)], ?_, ?_⟩
  · intro reg other
    exact Machine.regs_load_of_ne machine width _ fun same => other (List.mem_singleton.mpr same)
  · rw [← value]
    rfl
  · exact List.append_assoc machine.trace [.load width address] _
  · rw [Memory.length_read]
    exact .load (.store low high multiple _) (Event.aligned_load srcLow srcHigh srcMultiple)

/-- Loads and stores move bytes upwards only to where they do not overlap. -/
theorem tiled_transfers (env : Environment World) (machine : Machine World) {dst src : Int}
    {widths : List Width} (low : -0x8000 ≤ dst)
    (high : dst + extent widths ≤ 0x8000) (srcLow : -0x8000 ≤ src)
    (srcHigh : src + extent widths ≤ 0x8000) (apart : dst ≤ src ∨ src + extent widths ≤ dst)
    (fitted : Fitted dst widths) (srcFitted : Fitted src widths) :
    ∃ finish, Runs env (transfers dst src widths) machine finish ∧
      machine.Tiled [.r0] dst
        (machine.memory.read (machine.regs .frame + UInt64.ofInt src) (extent widths)) finish := by
  induction widths generalizing dst src machine with
  | nil => exact ⟨machine, .nil machine, .nil machine [.r0] dst⟩
  | cons width widths ih =>
      rw [extent] at high srcHigh apart
      have positive := width.bytes_pos
      let frame := machine.regs .frame
      let loaded := machine.load width .r0 (frame + UInt64.ofInt src)
      let bytes := machine.memory.read (frame + UInt64.ofInt src) width.bytes
      let stored := loaded.store width (frame + UInt64.ofInt dst) (loaded.regs .r0)
      have length : bytes.length = width.bytes := Memory.length_read _ _ _
      have first : machine.Tiled [.r0] dst bytes stored :=
        tiled_transfer low (by omega) srcLow (by omega) fitted.1 srcFitted.1
      obtain ⟨finish, runs, rest⟩ := @ih stored (dst + width.bytes) (src + width.bytes) (by omega)
        (by omega) (by omega) (by omega) (by omega) fitted.2 srcFitted.2
      -- What is still to be read lies above what was written, or below all of it.
      have same : stored.memory.read (frame + UInt64.ofInt (src + width.bytes)) (extent widths) =
          machine.memory.read (frame + UInt64.ofInt (src + width.bytes)) (extent widths) := by
        rw [first.memory]
        refine Memory.read_write_of_apart _ _ ?_ ?_
        · omega
        · omega
      refine ⟨finish, ?_, ?_⟩
      · rw [transfers, Runs, run_load, address_frame machine srcLow (by omega), run_store]
        have there : loaded.address .frame (Int16.ofInt dst) = frame + UInt64.ofInt dst :=
          address_frame _ low (by omega)
        rw [there]
        exact runs
      · rw [extent, Memory.read_append, Memory.address_add]
        rw [first.regs _ (by decide), same] at rest
        refine first.append (by rwa [length]) (by decide) ?_
        rw [length, Memory.length_read]
        omega

theorem tiled_copy (env : Environment World) (machine : Machine World) {dst src : Int16}
    {size : Nat} (high : dst.toInt + size ≤ 0x8000)
    (srcHigh : src.toInt + size ≤ 0x8000)
    (apart : dst.toInt ≤ src.toInt ∨ src.toInt + size ≤ dst.toInt) (different : dst ≠ src) :
    ∃ finish, Runs env (copy dst src size) machine finish ∧
      machine.Tiled [.r0] dst.toInt (machine.slot src size) finish := by
  have low := dst.le_toInt
  have srcLow := src.le_toInt
  have whole := extent_cut (show 0 < 8 by decide) dst.toInt src.toInt size
  obtain ⟨fitted, srcFitted⟩ := fitted_cut 8 dst.toInt src.toInt size
  have found := tiled_transfers env machine low (by omega) srcLow (by omega) (by omega) fitted
    srcFitted
  rw [whole] at found
  rw [copy, if_neg different]
  exact found

theorem runs_copy (env : Environment World) (machine : Machine World) {dst src : Int16}
    {size : Nat} (high : dst.toInt + size ≤ 0)
    (srcHigh : src.toInt + size ≤ 0)
    (apart : dst.toInt + size ≤ src.toInt ∨ src.toInt + size ≤ dst.toInt) (different : dst ≠ src) :
    ∃ finish, Runs env (copy dst src size) machine finish ∧
      machine.Wrote dst.toInt (machine.slot src size) finish := by
  have small : dst.toInt + size ≤ 0x8000 := by omega
  have srcSmall : src.toInt + size ≤ 0x8000 := by omega
  obtain ⟨finish, runs, tiled⟩ := tiled_copy env machine small srcSmall (by omega) different
  exact ⟨finish, runs, tiled.wrote (by decide)⟩

/-- Stores of immediates write the bytes they were made from. -/
theorem tiled_fills {start : Int} {bytes : List UInt8} {widths : List Width}
    (low : -0x8000 ≤ start) (high : start + bytes.length ≤ 0x8000)
    (covers : extent widths = bytes.length) (narrow : ∀ width ∈ widths, width.bytes ≤ 4)
    (fitted : Fitted start widths) :
    ∃ finish, Runs env (fills start bytes widths) machine finish ∧
      machine.Tiled [] start bytes finish := by
  induction widths generalizing start bytes machine with
  | nil =>
      obtain rfl := List.eq_nil_of_length_eq_zero covers.symm
      exact ⟨machine, .nil machine, .nil machine [] start⟩
  | cons width widths ih =>
      rw [extent] at covers
      have positive := width.bytes_pos
      have here := address_frame machine low (by omega)
      have length : (bytes.take width.bytes).length = width.bytes := by
        rw [List.length_take]
        omega
      have short := narrow width List.mem_cons_self
      let value := Opcode.immediate (immediate (bytes.take width.bytes))
      let stored := machine.store width (machine.regs .frame + UInt64.ofInt start) value
      have holds : littleEndian width.bytes value.toNat = bytes.take width.bytes := by
        have low := littleEndian_immediate (length ▸ short)
        rwa [length] at low
      have first : machine.Tiled [] start (bytes.take width.bytes) stored :=
        tiled_store low (by omega) fitted.1 holds
      obtain ⟨finish, runs, rest⟩ := @ih stored (start + width.bytes) (bytes.drop width.bytes)
        (by omega) (by rw [List.length_drop]; omega) (by rw [List.length_drop]; omega)
        (fun other member => narrow other (List.mem_cons_of_mem _ member)) fitted.2
      refine ⟨finish, ?_, ?_⟩
      · rw [fills, Runs, run_storeImm, here]
        exact runs
      · rw [← List.take_append_drop width.bytes bytes]
        refine first.append (by rwa [length]) (by decide) ?_
        rw [length, List.length_drop]
        omega

theorem tiled_fill (env : Environment World) (machine : Machine World) {offset : Int16}
    {bytes : List UInt8} (inside : offset.toInt + bytes.length ≤ 0x8000) :
    ∃ finish, Runs env (fill offset bytes) machine finish ∧
      machine.Tiled [] offset.toInt bytes finish := by
  have low := offset.le_toInt
  apply tiled_fills (by omega) inside (extent_cut (by decide) _ _ _)
  · intro _ member
    exact bytes_le_of_mem_cut (by decide) member
  · exact (fitted_cut _ _ _ _).1

theorem runs_fill (env : Environment World) (machine : Machine World) {offset : Int16}
    {bytes : List UInt8} (inside : offset.toInt + bytes.length ≤ 0) :
    ∃ finish, Runs env (fill offset bytes) machine finish ∧
      machine.Wrote offset.toInt bytes finish := by
  have small : offset.toInt + bytes.length ≤ 0x8000 := by omega
  obtain ⟨finish, runs, tiled⟩ := tiled_fill env machine small
  exact ⟨finish, runs, tiled.wrote (by decide)⟩

theorem immediate_offset (offset : Int16) :
    Opcode.immediate (Int32.ofInt offset.toInt) = UInt64.ofInt offset.toInt := by
  have low := offset.le_toInt
  have high := offset.toInt_lt
  rw [Opcode.immediate, Int32.toInt_ofInt_of_le (by omega) (by omega)]

theorem run_address (env : Environment World) (machine : Machine World) (dst : Reg)
    (offset : Int16) (rest : List Insn) :
    run env (address dst offset ++ rest) ⟨.running, machine⟩ =
      run env rest ⟨.running, machine.set dst (machine.address .frame offset)⟩ := by
  simp only [address, List.cons_append, List.nil_append, run_move, run_addImm,
    Machine.regs_set_self, Machine.set_set, immediate_offset]
  rfl

end Block

end TraceProbe
