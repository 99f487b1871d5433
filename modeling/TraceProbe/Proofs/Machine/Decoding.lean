import TraceProbe.Bytecode.Verification
import TraceProbe.Proofs.Machine.Memory
import TraceProbe.Proofs.Machine.Placement

/-!
# Decoding

Reading an instruction back from the bytes at a slot.  The decoder takes two
slots exactly for the opcode of the wide load, so an upper immediate with any
other opcode is lost: it stays behind in the bytes as a slot of its own.
-/

namespace TraceProbe

namespace MachineInsn

/-- The instruction that the first bytes of a list stand for. -/
def decode? : List UInt8 → Option MachineInsn
  | opcode :: registers :: o₀ :: o₁ :: i₀ :: i₁ :: i₂ :: i₃ :: rest =>
      let insn : MachineInsn :=
        { opcode := opcode
          dst := registers &&& 0xf
          src := registers >>> 4
          offset := (UInt16.ofNat (fromLittleEndian [o₀, o₁])).toInt16
          imm := (UInt32.ofNat (fromLittleEndian [i₀, i₁, i₂, i₃])).toInt32 }
      if opcode = Opcode.lddw then
        match rest with
        | _ :: _ :: _ :: _ :: u₀ :: u₁ :: u₂ :: u₃ :: _ =>
            some { insn with upper := some (UInt32.ofNat (fromLittleEndian [u₀, u₁, u₂, u₃])) }
        | _ => none
      else some insn
  | _ => none

/-- What the bytes of an instruction can hold: register numbers of four bits,
and the upper immediate that a wide load needs. -/
structure Readable (insn : MachineInsn) : Prop where
  dst : insn.dst ≤ 15
  src : insn.src ≤ 15
  wide : insn.opcode = Opcode.lddw → insn.upper.isSome = true

/-- An instruction as it is found at its first slot. -/
def seen (insn : MachineInsn) : MachineInsn :=
  { insn with upper := if insn.opcode = Opcode.lddw then insn.upper else none }

theorem seen_eq_self {insn : MachineInsn}
    (upper : insn.upper.isSome = true → insn.opcode = Opcode.lddw) : insn.seen = insn := by
  obtain ⟨opcode, dst, src, off, value, high⟩ := insn
  cases high with
  | none => simp [seen]
  | some high =>
      obtain rfl : opcode = Opcode.lddw := upper rfl
      simp [seen]

theorem nibbles_registerByte {insn : MachineInsn} (dst : insn.dst ≤ 15) (src : insn.src ≤ 15) :
    insn.registerByte &&& 0xf = insn.dst ∧ insn.registerByte >>> 4 = insn.src := by
  have all : ∀ low high : Fin 16,
      ((UInt8.ofNat low &&& (0xf : UInt8)) |||
        ((UInt8.ofNat high &&& (0xf : UInt8)) <<< (4 : UInt8)))
            &&& (0xf : UInt8) = UInt8.ofNat low ∧
        ((UInt8.ofNat low &&& (0xf : UInt8)) |||
            ((UInt8.ofNat high &&& (0xf : UInt8)) <<< (4 : UInt8)))
            >>> (4 : UInt8) = UInt8.ofNat high := by
    decide
  have low : insn.dst.toNat < 16 := Nat.lt_succ_of_le (UInt8.le_iff_toNat_le.mp dst)
  have high : insn.src.toNat < 16 := Nat.lt_succ_of_le (UInt8.le_iff_toNat_le.mp src)
  simpa [registerByte] using all ⟨insn.dst.toNat, low⟩ ⟨insn.src.toNat, high⟩

theorem offset_bytes (offset : Int16) :
    (UInt16.ofNat (fromLittleEndian (littleEndian 2 offset.toUInt16.toNat))).toInt16 = offset := by
  have small : offset.toUInt16.toNat < 256 ^ 2 := offset.toUInt16.toNat_lt
  rw [fromLittleEndian_littleEndian, Nat.mod_eq_of_lt small]
  simp

theorem imm_bytes (imm : Int32) :
    (UInt32.ofNat (fromLittleEndian (littleEndian 4 imm.toUInt32.toNat))).toInt32 = imm := by
  have small : imm.toUInt32.toNat < 256 ^ 4 := imm.toUInt32.toNat_lt
  rw [fromLittleEndian_littleEndian, Nat.mod_eq_of_lt small]
  simp

theorem upper_bytes (upper : UInt32) :
    UInt32.ofNat (fromLittleEndian (littleEndian 4 upper.toNat)) = upper := by
  have small : upper.toNat < 256 ^ 4 := upper.toNat_lt
  rw [fromLittleEndian_littleEndian, Nat.mod_eq_of_lt small, UInt32.ofNat_toNat]

theorem decode?_encode_append {insn : MachineInsn} (readable : insn.Readable)
    (rest : List UInt8) : decode? (insn.encode ++ rest) = some insn.seen := by
  obtain ⟨low, high⟩ := nibbles_registerByte readable.dst readable.src
  have offset := offset_bytes insn.offset
  have imm := imm_bytes insn.imm
  have wide := readable.wide
  obtain ⟨opcode, dst, src, off, value, upper⟩ := insn
  simp only [littleEndian] at offset imm
  by_cases double : opcode = Opcode.lddw
  · subst double
    cases upper with
    | none => simp at wide
    | some upper =>
        have top := upper_bytes upper
        simp only [littleEndian] at top
        simp only [encode, littleEndian, List.cons_append, List.nil_append, decode?, if_true, low,
          high, offset, imm, top, seen]
  · simp only [encode, littleEndian, List.cons_append, List.nil_append, decode?, double, if_false,
      low, high, offset, imm, seen]

theorem slots_pos (insn : MachineInsn) : 0 < insn.slots := by
  unfold slots
  split <;> decide

end MachineInsn

namespace Program

/-- The instructions of a program with their slots. -/
abbrev placed (program : List MachineInsn) : List (Nat × MachineInsn) :=
  placeFrom MachineInsn.slots 0 program

theorem eq_of_placed {program : List MachineInsn} {slot : Nat} {insn insn' : MachineInsn}
    (first : (slot, insn) ∈ placed program) (first' : (slot, insn') ∈ placed program) :
    insn = insn' := by
  obtain ⟨before, rest, split, place⟩ := mem_placeFrom_iff.mp first
  obtain ⟨before', rest', split', place'⟩ := mem_placeFrom_iff.mp first'
  have same : before ++ insn :: rest = before' ++ insn' :: rest' := split ▸ split'
  have totals : totalOf MachineInsn.slots before = totalOf MachineInsn.slots before' := by omega
  rcases List.append_eq_append_iff.mp same with ⟨middle, left, right⟩ | ⟨middle, left, right⟩
  all_goals
    cases middle with
    | nil =>
        have heads := (List.cons.inj right).1
        simp_all
    | cons next middle =>
        rw [left, totalOf_append, totalOf] at totals
        have positive := next.slots_pos
        omega

/-- The instruction of a program at a slot. -/
def fetch (program : List MachineInsn) (slot : Nat) : Option MachineInsn :=
  (placed program).lookup slot

theorem fetch_eq_some_iff {program : List MachineInsn} {slot : Nat} {insn : MachineInsn} :
    fetch program slot = some insn ↔ (slot, insn) ∈ placed program := by
  constructor
  · intro found
    obtain ⟨before, after, split, -⟩ := List.lookup_eq_some_iff.mp found
    exact split ▸ List.mem_append_right before List.mem_cons_self
  · intro first
    cases found : fetch program slot with
    | none =>
        have missing := List.lookup_eq_none_iff.mp found (slot, insn) first
        simp at missing
    | some other =>
        obtain ⟨before, after, split, -⟩ := List.lookup_eq_some_iff.mp found
        have member : (slot, other) ∈ placed program :=
          split ▸ List.mem_append_right before List.mem_cons_self
        rw [eq_of_placed member first]

end Program

namespace Bytecode

/-- The instruction at a slot of encoded instructions. -/
def fetch (bytes : List UInt8) (slot : Nat) : Option MachineInsn :=
  MachineInsn.decode? (bytes.drop (8 * slot))

theorem length_encodeProgram (program : List MachineInsn) :
    (encodeProgram program).length = 8 * Program.slots program := by
  induction program with
  | nil => rfl
  | cons insn program ih =>
      simp only [encodeProgram, List.flatMap_cons, List.length_append, Program.slots, totalOf,
        MachineInsn.length_encode, MachineInsn.size] at ih ⊢
      omega

theorem drop_encodeProgram {program : List MachineInsn} {slot : Nat} {insn : MachineInsn}
    (placed : (slot, insn) ∈ placeFrom MachineInsn.slots 0 program) :
    ∃ rest, (encodeProgram program).drop (8 * slot) = insn.encode ++ rest := by
  obtain ⟨before, after, split, place⟩ := mem_placeFrom_iff.mp placed
  refine ⟨encodeProgram after, ?_⟩
  have start : 8 * slot = (encodeProgram before).length := by
    rw [length_encodeProgram, place, Nat.zero_add, Program.slots]
  have bytes : encodeProgram program =
      encodeProgram before ++ (insn.encode ++ encodeProgram after) := by
    simp only [split, encodeProgram, List.flatMap_append, List.flatMap_cons]
  rw [bytes, start, List.drop_left]

theorem fetch_encodeProgram {program : List MachineInsn} {slot : Nat} {insn : MachineInsn}
    (placed : (slot, insn) ∈ placeFrom MachineInsn.slots 0 program)
    (readable : insn.Readable) : fetch (encodeProgram program) slot = some insn.seen := by
  obtain ⟨rest, bytes⟩ := drop_encodeProgram placed
  rw [fetch, bytes, MachineInsn.decode?_encode_append readable]

end Bytecode

end TraceProbe
