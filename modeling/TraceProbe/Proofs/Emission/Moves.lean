import TraceProbe.Proofs.Stream.Steps
import TraceProbe.Stream.Moves

/-!
# The code of moves

A move between storages that ends without a fault has appended one piece of
code.  Which one depends on the places of both storages.
-/

namespace TraceProbe.Emit

variable {stream finish : Stream} {result : Unit}

theorem append_nil (stream : Stream) : stream.append [] = stream :=
  rfl

theorem append_append (stream : Stream) (first second : List Insn) :
    (stream.append first).append second = stream.append (first ++ second) := by
  simp only [Stream.append, List.foldl_append]

theorem yields_accessWidth_iff {size : Nat} {otherwise : String} {width : Width} :
    Yields (accessWidth size otherwise) stream width finish ↔
      Width.ofBytes? size = some width ∧ stream = finish := by
  unfold accessWidth
  cases found : Width.ofBytes? size with
  | none => simp
  | some known => simp

section Store

variable {src : Reg} {size : Nat}

theorem yields_storeReg_slot_iff {offset : Int16} :
    Yields (storeReg ⟨.slot offset, size⟩ src) stream result finish ↔
      ∃ width, Width.ofBytes? size = some width ∧
        stream.append [.store width.bits .frame src offset] = finish := by
  simp only [storeReg, yields_bind_iff, yields_accessWidth_iff, yields_insn_iff]
  constructor
  · rintro ⟨width, _, ⟨known, rfl⟩, same⟩
    exact ⟨width, known, same⟩
  · rintro ⟨width, known, same⟩
    exact ⟨width, stream, ⟨known, rfl⟩, same⟩

theorem yields_storeReg_register_iff {reg : Reg} :
    Yields (storeReg ⟨.register reg, size⟩ src) stream result finish ↔
      stream.append (if reg = src then [] else [.move reg src]) = finish := by
  simp only [storeReg]
  by_cases same : reg = src
  · simp [same, append_nil]
  · simp [same]

theorem not_yields_storeReg_unassigned :
    ¬ Yields (storeReg ⟨.unassigned, size⟩ src) stream result finish := by
  simp [storeReg]

end Store

section Constant

variable {value : UInt64} {size : Nat}

/-- The code that puts a constant into a slot. -/
def constantCode (width : Width) (offset : Int16) (value : UInt64) : List Insn :=
  match smallImmediate? value with
  | some imm => [.storeImm width.bits .frame offset imm]
  | none => [.wide .r0 value, .store width.bits .frame .r0 offset]

theorem yields_constant_slot_iff {offset : Int16} :
    Yields (constant ⟨.slot offset, size⟩ value) stream result finish ↔
      ∃ width, Width.ofBytes? size = some width ∧
        stream.append (constantCode width offset value) = finish := by
  unfold constant constantCode
  cases small : smallImmediate? value with
  | some imm =>
      simp only [yields_bind_iff, yields_accessWidth_iff, yields_insn_iff]
      constructor
      · rintro ⟨width, _, ⟨known, rfl⟩, same⟩
        exact ⟨width, known, same⟩
      · rintro ⟨width, known, same⟩
        exact ⟨width, stream, ⟨known, rfl⟩, same⟩
  | none =>
      simp only [yields_bind_iff, yields_insn_iff, yields_storeReg_slot_iff]
      constructor
      · rintro ⟨_, _, rfl, width, known, same⟩
        rw [append_append] at same
        exact ⟨width, known, same⟩
      · rintro ⟨width, known, same⟩
        refine ⟨(), _, rfl, width, known, ?_⟩
        rw [append_append]
        exact same

theorem yields_constant_register_iff {reg : Reg} :
    Yields (constant ⟨.register reg, size⟩ value) stream result finish ↔
      stream.append (match smallImmediate? value with
        | some imm => [.movImm reg imm]
        | none => [.wide reg value]) = finish := by
  unfold constant
  cases small : smallImmediate? value <;> simp

theorem not_yields_constant_unassigned :
    ¬ Yields (constant ⟨.unassigned, size⟩ value) stream result finish := by
  simp [constant]

end Constant

section Load

variable {dst : Reg} {size : Nat}

theorem yields_loadReg_slot_iff {offset : Int16} :
    Yields (loadReg dst ⟨.slot offset, size⟩) stream result finish ↔
      ∃ width, Width.ofBytes? size = some width ∧
        stream.append [.load width.bits dst .frame offset] = finish := by
  simp only [loadReg, yields_bind_iff, yields_accessWidth_iff, yields_insn_iff]
  constructor
  · rintro ⟨width, _, ⟨known, rfl⟩, same⟩
    exact ⟨width, known, same⟩
  · rintro ⟨width, known, same⟩
    exact ⟨width, stream, ⟨known, rfl⟩, same⟩

theorem yields_loadReg_register_iff {reg : Reg} :
    Yields (loadReg dst ⟨.register reg, size⟩) stream result finish ↔
      stream.append (if reg = dst then [] else [.move dst reg]) = finish := by
  simp only [loadReg]
  by_cases same : reg = dst
  · simp [same, append_nil]
  · simp [same]

theorem not_yields_loadReg_unassigned :
    ¬ Yields (loadReg dst ⟨.unassigned, size⟩) stream result finish := by
  simp [loadReg]

/-- The code that widens a loaded value of a size by its sign, if it has one. -/
def wideningCode (dst : Reg) (size : Nat) (signed : Bool) : List Insn :=
  if signed && size < 8 then signExtension dst size else []

theorem yields_loadWidened_iff {src : Storage} {signed : Bool} :
    Yields (loadWidened dst src signed) stream result finish ↔
      ∃ middle, Yields (loadReg dst src) stream () middle ∧
        middle.append (wideningCode dst src.size signed) = finish := by
  simp only [loadWidened, yields_bind_iff, wideningCode]
  constructor
  · rintro ⟨_, middle, loaded, widened⟩
    refine ⟨middle, loaded, ?_⟩
    split at widened
    · rename_i wide
      rw [if_pos wide]
      exact yields_code_iff.mp widened
    · rename_i narrow
      rw [if_neg narrow]
      exact (yields_pure_iff.mp widened).2
  · rintro ⟨middle, loaded, rfl⟩
    refine ⟨(), middle, loaded, ?_⟩
    split
    · simp
    · simp [append_nil]

end Load

section Walk

variable {offset : Int16} {size : Nat} {stop : Int} {bytes : List UInt8}

theorem yields_reach_iff :
    Yields (reach stop) stream result finish ↔ stop < 0x80000000 ∧ stream = finish := by
  unfold reach
  split
  · rename_i inside
    simp [inside]
  · rename_i outside
    simp [outside]

theorem yields_clear_iff :
    Yields (clear offset size) stream result finish ↔
      offset.toInt + size < 0x80000000 ∧ stream.append (Block.clear offset size) = finish := by
  simp only [clear, yields_bind_iff, yields_reach_iff, yields_code_iff]
  constructor
  · rintro ⟨_, _, ⟨inside, rfl⟩, same⟩
    exact ⟨inside, same⟩
  · rintro ⟨inside, same⟩
    exact ⟨(), stream, ⟨inside, rfl⟩, same⟩

theorem yields_fill_iff :
    Yields (fill offset bytes) stream result finish ↔
      offset.toInt + bytes.length < 0x80000000 ∧
        stream.append (Block.fill offset bytes) = finish := by
  simp only [fill, Block.sliced_cut, if_true, yields_bind_iff, yields_reach_iff, yields_code_iff]
  constructor
  · rintro ⟨_, _, ⟨inside, rfl⟩, same⟩
    exact ⟨inside, same⟩
  · rintro ⟨inside, same⟩
    exact ⟨(), stream, ⟨inside, rfl⟩, same⟩

end Walk

section Copy

variable {size : Nat}

theorem yields_copyToSlot_slot_iff {offset start : Int16} :
    Yields (copyToSlot offset ⟨.slot start, size⟩) stream result finish ↔
      stream.append (Block.copy offset start size) = finish := by
  simp [copyToSlot]

theorem yields_copyToSlot_register_iff {offset : Int16} {reg : Reg} :
    Yields (copyToSlot offset ⟨.register reg, size⟩) stream result finish ↔
      ∃ width, Width.ofBytes? size = some width ∧
        stream.append [.store width.bits .frame reg offset] = finish := by
  simp only [copyToSlot, yields_bind_iff, yields_accessWidth_iff, yields_insn_iff]
  constructor
  · rintro ⟨width, _, ⟨known, rfl⟩, same⟩
    exact ⟨width, known, same⟩
  · rintro ⟨width, known, same⟩
    exact ⟨width, stream, ⟨known, rfl⟩, same⟩

theorem not_yields_copyToSlot_unassigned {offset : Int16} :
    ¬ Yields (copyToSlot offset ⟨.unassigned, size⟩) stream result finish := by
  simp [copyToSlot]

theorem copyTo_slot {offset : Int16} {src : Storage} :
    copyTo ⟨.slot offset, size⟩ src = copyToSlot offset src :=
  rfl

theorem not_yields_copyTo_unassigned {src : Storage} :
    ¬ Yields (copyTo ⟨.unassigned, size⟩ src) stream result finish := by
  simp [copyTo]

theorem assigned_of_copyTo {dst src : Storage}
    (found : Yields (copyTo dst src) stream result finish) :
    dst.isAssigned = true := by
  obtain ⟨place, size⟩ := dst
  cases place with
  | unassigned => exact absurd found not_yields_copyTo_unassigned
  | register _ | slot _ => rfl

end Copy

/-- The code that reads memory at the address in a register into a slot. -/
def readCode (offset : Int16) (size : Nat) (src : Reg) : List Insn :=
  (if src = .r3 then [] else [.move .r3 src]) ++
    (.movImm .r2 (Int32.ofNat size) :: (Block.address .r1 offset ++ [.callOf .probeRead]))

theorem yields_readFrom_iff {dst : Storage} {src : Reg} :
    Yields (readFrom dst src) stream result finish ↔
      ∃ offset, dst.place = .slot offset ∧
        stream.append (readCode offset dst.size src) = finish := by
  obtain ⟨place, size⟩ := dst
  cases place with
  | unassigned => simp [readFrom, Storage.slot?]
  | register reg => simp [readFrom, Storage.slot?]
  | slot offset =>
      simp only [readFrom, Storage.slot?, readCode]
      by_cases same : src = .r3
      · simp [same, yields_bind_iff, append_append]
      · simp [same, yields_bind_iff, append_append]

end TraceProbe.Emit
