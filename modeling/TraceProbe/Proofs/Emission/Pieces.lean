import TraceProbe.Emission.Strings
import TraceProbe.Proofs.Emission.MapCode

/-!
# Pieces of emitted code

Emission is made of a few kinds of pieces.  Each reads values that are stored
already, and most of them fill one storage.  What holds of all emitted code is
proved piece by piece; how the pieces come about is left to emission.
-/

namespace TraceProbe

namespace Emit

open Insn

/-- Code that puts a stored value into a register. -/
inductive Loads (reg : Reg) : Storage → List Insn → Prop
  | here (size : Nat) : Loads reg ⟨.register reg, size⟩ []
  | move {src : Reg} (size : Nat) : src ≠ reg → Loads reg ⟨.register src, size⟩ [move reg src]
  | slot (offset : Int16) (width : Width) :
      Loads reg ⟨.slot offset, width.bytes⟩ [load width.bits reg .frame offset]

/-- Code that puts a register into a storage. -/
inductive Stores (reg : Reg) : Storage → List Insn → Prop
  | here (size : Nat) : Stores reg ⟨.register reg, size⟩ []
  | move {dst : Reg} (size : Nat) : dst ≠ reg → Stores reg ⟨.register dst, size⟩ [move dst reg]
  | slot (offset : Int16) (width : Width) :
      Stores reg ⟨.slot offset, width.bytes⟩ [store width.bits .frame reg offset]

/-- Code that puts a stored value into a slot. -/
inductive Copies (offset : Int16) : Storage → List Insn → Prop
  | register (reg : Reg) (width : Width) :
      Copies offset ⟨.register reg, width.bytes⟩ [store width.bits .frame reg offset]
  | slot (start : Int16) (size : Nat) :
      Copies offset ⟨.slot start, size⟩ (Block.copy offset start size)

/-- Code that puts an address into a register, made from stored values. -/
inductive Points : List Storage → Reg → List Insn → Prop
  | value {src : Storage} {reg : Reg} {code : List Insn} :
      reg = .r0 ∨ reg = .r3 → Loads reg src code → Points [src] reg code
  | moved {src : Storage} {code : List Insn} (distance : Int32) :
      Loads .r3 src code → Points [src] .r3 (code ++ [alu64Imm Opcode.add .r3 distance])
  | scaled {src index : Storage} {code code' : List Insn} (size : Int32) :
      Loads .r3 src code → Loads .r0 index code' →
        Points [src, index] .r3
          (code ++ (code' ++ [alu64Imm Opcode.mul .r0 size, alu64Reg Opcode.add .r3 .r0]))
  | frame (offset : Int16) : Points [] .r3 (Block.address .r3 offset)
  | context (distance : Int32) :
      Points [] .r3 [.move .r3 .context, alu64Imm Opcode.add .r3 distance]

end Emit

/-- The storages in which the second operand of a comparison is read: a literal is
part of the code. -/
inductive Comparand.Stored (length : Nat) : Comparand → List Storage → Prop
  | slot (offset : Int16) {size : Nat} :
      length ≤ size → Stored length (.slot offset) [⟨.slot offset, size⟩]
  | literal (bytes : List UInt8) : Stored length (.literal bytes) []

open Insn Emit AtSite in
/-- The kinds of pieces, by the storage that they fill and those that they
read. -/
inductive Piece : Option Storage → List Storage → List Insn → Prop
  | numberRegister (reg : Reg) (size : Nat) (imm : Int32) :
      Piece (some ⟨.register reg, size⟩) [] [movImm reg imm]
  | wideRegister (reg : Reg) (size : Nat) (value : UInt64) :
      Piece (some ⟨.register reg, size⟩) [] [wide reg value]
  | numberSlot (offset : Int16) (width : Width) (value : UInt64) :
      Piece (some ⟨.slot offset, width.bytes⟩) [] (constantCode width offset value)
  | fill (offset : Int16) (bytes : List UInt8) :
      Piece (some ⟨.slot offset, bytes.length⟩) [] (Block.fill offset bytes)
  | clear (offset : Int16) (size : Nat) :
      Piece (some ⟨.slot offset, size⟩) [] (Block.clear offset size)
  | contextRegister (reg : Reg) (width : Width) (offset : Int16) :
      Piece (some ⟨.register reg, width.bytes⟩) [] [load width.bits reg .context offset]
  | contextSlot (slot : Int16) (width : Width) (offset : Int16) :
      Piece (some ⟨.slot slot, width.bytes⟩) []
        [load width.bits .r0 .context offset, store width.bits .frame .r0 slot]
  | load {reg : Reg} {src : Storage} {code : List Insn} (size : Nat) :
      Loads reg src code → Piece (some ⟨.register reg, size⟩) [src] code
  | copy {offset : Int16} {src : Storage} {code : List Insn} :
      Copies offset src code → Piece (some ⟨.slot offset, src.size⟩) [src] code
  | convert {dst src : Storage} {code code' : List Insn} (signed : Bool) :
      Loads .r0 src code → Stores .r0 dst code' →
        Piece (some dst) [src] (code ++ (wideningCode .r0 src.size signed ++ code'))
  | read {srcs : List Storage} {reg : Reg} {code : List Insn} (offset : Int16) (size : Nat) :
      Points srcs reg code →
        Piece (some ⟨.slot offset, size⟩) srcs (code ++ readCode offset size reg)
  | readText {src : Storage} {code : List Insn} (offset : Int16) (size : Nat) :
      Loads .r3 src code →
        Piece (some ⟨.slot offset, size⟩) [src]
          (code ++ (Block.address .r1 offset ++
            [movImm .r2 (Int32.ofNat size), callOf .probeReadStr]))
  | lookup (number : Nat) (key : Int16) (keySize : Nat) (offset : Int16) (size : Nat)
      {miss hit : Label} :
      miss ≠ hit → Piece (some ⟨.slot offset, size⟩) [⟨.slot key, keySize⟩]
        (lookupCode number key offset size miss hit)
  | update (number : Nat) (key : Int16) (keySize : Nat) (value : Int16) (valueSize : Nat) :
      Piece none [⟨.slot key, keySize⟩, ⟨.slot value, valueSize⟩] (updateCode number key value)
  | delete (number : Nat) (key : Int16) (keySize : Nat) :
      Piece none [⟨.slot key, keySize⟩] (deleteCode number key)
  | compare {own : Storage} {comparand : Comparand} {base : Int16} {done : Label} {length : Nat}
      {code code' : List Insn} {size : Nat} {others : List Storage} (swapped : Bool) :
      0 < length → length ≤ size → comparand.Stored length others →
        comparand.compareFrom (own.register?.getD .r0) base done 0 length = .ok code →
          Stores (own.register?.getD .r0) own code' →
            Piece (some own) (⟨.slot base, size⟩ :: others)
              (code ++ (label done ::
                ((if swapped then [alu64Imm Opcode.neg (own.register?.getD .r0) 0] else []) ++
                  code')))

namespace Emit

variable {reg : Reg} {src : Storage} {code : List Insn}

theorem Loads.assigned (loads : Loads reg src code) : src.isAssigned = true := by
  cases loads <;> rfl

end Emit

open Emit in
theorem Piece.assigned {dst : Option Storage} {srcs : List Storage} {code : List Insn}
    (piece : Piece dst srcs code) : ∀ src ∈ srcs, src.isAssigned = true := by
  have one {src : Storage} (assigned : src.isAssigned = true) :
      ∀ other ∈ [src], other.isAssigned = true := by
    intro other member
    rwa [List.mem_singleton.mp member]
  cases piece with
  | load _ loads => exact one loads.assigned
  | copy copies => cases copies <;> exact one rfl
  | convert _ loads _ => exact one loads.assigned
  | read _ _ points =>
      cases points with
      | value _ loads => exact one loads.assigned
      | moved _ loads => exact one loads.assigned
      | scaled _ loads loads' =>
          intro src member
          rcases List.mem_cons.mp member with rfl | last
          · exact loads.assigned
          · exact one loads'.assigned src last
      | frame _ | context _ => exact fun _ member => by cases member
  | readText _ _ loads => exact one loads.assigned
  | lookup | delete => exact one rfl
  | update => simp [Storage.isAssigned]
  | compare _ _ _ stored _ _ =>
      cases stored <;> simp [Storage.isAssigned]
  | _ => exact fun _ member => by cases member

/-- A piece with what it fills and reads. -/
structure Move where
  dst : Option Storage
  srcs : List Storage
  code : List Insn

/-- A stream with the code of pieces at its end. -/
structure Stream.Moved (stream finish : Stream) (moves : List Move) : Prop where
  extended : stream.Extends finish (moves.flatMap Move.code)
  pieces : ∀ move ∈ moves, Piece move.dst move.srcs move.code

namespace Stream

variable {stream middle finish : Stream} {moves : List Move}

theorem Moved.refl (stream : Stream) : stream.Moved stream [] :=
  ⟨.refl stream, fun _ member => by cases member⟩

theorem Moved.trans {later : List Move} (first : stream.Moved middle moves)
    (second : middle.Moved finish later) : stream.Moved finish (moves ++ later) := by
  constructor
  · rw [List.flatMap_append]
    exact first.extended.trans second.extended
  · intro move member
    exact (List.mem_append.mp member).elim (first.pieces move) (second.pieces move)

theorem moved_nil (extended : stream.Extends finish []) : stream.Moved finish [] :=
  ⟨extended, fun _ member => by cases member⟩

theorem Moved.later (moved : middle.Moved finish moves) (extended : stream.Extends middle []) :
    stream.Moved finish moves :=
  (moved_nil extended).trans moved

theorem moved_one {dst : Option Storage} {srcs : List Storage} {code : List Insn}
    (extended : stream.Extends finish code) (piece : Piece dst srcs code) :
    stream.Moved finish [⟨dst, srcs, code⟩] := by
  constructor
  · rwa [List.flatMap_singleton]
  · intro move member
    obtain rfl := List.mem_singleton.mp member
    exact piece

end Stream

namespace Emit

open Insn

variable {stream finish : Stream} {result : Unit} {dst src : Storage} {reg : Reg}
  {code : List Insn} {offset : Int16}

theorem Loads.noLabels (loads : Loads reg src code) : boundLabels code = [] := by
  cases loads <;> rfl

theorem Stores.noLabels (stores : Stores reg dst code) : boundLabels code = [] := by
  cases stores <;> rfl

theorem noLabels_transfers (first second : Int) (widths : List Width) :
    boundLabels (Block.transfers first second widths) = [] := by
  induction widths generalizing first second with
  | nil => rfl
  | cons width widths ih => exact ih _ _

theorem Copies.noLabels (copies : Copies offset src code) : boundLabels code = [] := by
  cases copies with
  | register reg width => rfl
  | slot start size =>
      unfold Block.copy
      split
      · rfl
      · exact noLabels_transfers _ _ _

theorem Points.noLabels {srcs : List Storage} (points : Points srcs reg code) :
    boundLabels code = [] := by
  cases points with
  | value _ loads => exact loads.noLabels
  | moved distance loads => rw [boundLabels_append, loads.noLabels]; rfl
  | scaled size loads loads' =>
      rw [boundLabels_append, boundLabels_append, loads.noLabels, loads'.noLabels]
      rfl
  | frame _ | context _ => rfl

theorem noLabels_readCode (offset : Int16) (size : Nat) (src : Reg) :
    boundLabels (readCode offset size src) = [] := by
  unfold readCode
  split <;> rfl

theorem loads_of_yields (found : Yields (loadReg reg src) stream result finish) :
    ∃ code, Loads reg src code ∧ stream.append code = finish := by
  obtain ⟨place, size⟩ := src
  cases place with
  | unassigned => exact absurd found not_yields_loadReg_unassigned
  | register source =>
      rw [yields_loadReg_register_iff] at found
      by_cases same : source = reg
      · subst same
        exact ⟨_, .here size, by simpa using found⟩
      · exact ⟨_, .move size same, by simpa [same] using found⟩
  | slot offset =>
      obtain ⟨width, known, rfl⟩ := yields_loadReg_slot_iff.mp found
      rw [← Width.bytes_of_ofBytes? known]
      exact ⟨_, .slot offset width, rfl⟩

theorem stores_of_yields (found : Yields (storeReg dst reg) stream result finish) :
    ∃ code, Stores reg dst code ∧ stream.append code = finish := by
  obtain ⟨place, size⟩ := dst
  cases place with
  | unassigned => exact absurd found not_yields_storeReg_unassigned
  | register target =>
      rw [yields_storeReg_register_iff] at found
      by_cases same : target = reg
      · subst same
        exact ⟨_, .here size, by simpa using found⟩
      · exact ⟨_, .move size same, by simpa [same] using found⟩
  | slot offset =>
      obtain ⟨width, known, rfl⟩ := yields_storeReg_slot_iff.mp found
      rw [← Width.bytes_of_ofBytes? known]
      exact ⟨_, .slot offset width, rfl⟩

theorem copies_of_yields (found : Yields (copyToSlot offset src) stream result finish) :
    ∃ code, Copies offset src code ∧ stream.append code = finish := by
  obtain ⟨place, size⟩ := src
  cases place with
  | unassigned => exact absurd found not_yields_copyToSlot_unassigned
  | register source =>
      obtain ⟨width, known, rfl⟩ := yields_copyToSlot_register_iff.mp found
      rw [← Width.bytes_of_ofBytes? known]
      exact ⟨_, .register source width, rfl⟩
  | slot start =>
      rw [yields_copyToSlot_slot_iff] at found
      exact ⟨_, .slot start size, found⟩

theorem moved_copyTo (same : src.size = dst.size)
    (found : Yields (copyTo dst src) stream result finish) :
    ∃ code, stream.Moved finish [⟨some dst, [src], code⟩] := by
  obtain ⟨place, size⟩ := dst
  cases place with
  | unassigned => exact absurd found not_yields_copyTo_unassigned
  | register target =>
      obtain ⟨code, loads, rfl⟩ := loads_of_yields found
      exact ⟨code, Stream.moved_one (Stream.extends_append loads.noLabels) (.load size loads)⟩
  | slot offset =>
      obtain ⟨code, copies, rfl⟩ := copies_of_yields found
      obtain rfl : src.size = size := same
      exact ⟨code, Stream.moved_one (Stream.extends_append copies.noLabels) (.copy copies)⟩

theorem moved_constant {value : UInt64} (found : Yields (constant dst value) stream result finish) :
    ∃ code, stream.Moved finish [⟨some dst, [], code⟩] := by
  obtain ⟨place, size⟩ := dst
  cases place with
  | unassigned => exact absurd found not_yields_constant_unassigned
  | register target =>
      rw [yields_constant_register_iff] at found
      subst found
      split
      · exact ⟨_, Stream.moved_one (Stream.extends_append rfl) (.numberRegister target size _)⟩
      · exact ⟨_, Stream.moved_one (Stream.extends_append rfl) (.wideRegister target size _)⟩
  | slot offset =>
      obtain ⟨width, known, rfl⟩ := yields_constant_slot_iff.mp found
      rw [← Width.bytes_of_ofBytes? known]
      have noLabels : boundLabels (constantCode width offset value) = [] := by
        unfold constantCode
        split <;> rfl
      exact ⟨_, Stream.moved_one (Stream.extends_append noLabels) (.numberSlot offset width value)⟩

theorem moved_read {srcs : List Storage} (points : Points srcs reg code)
    (found : Yields (readFrom dst reg) (stream.append code) result finish) :
    ∃ whole, stream.Moved finish [⟨some dst, srcs, whole⟩] := by
  obtain ⟨offset, placed, rfl⟩ := yields_readFrom_iff.mp found
  obtain ⟨place, size⟩ := dst
  obtain rfl : place = .slot offset := placed
  rw [append_append]
  have noLabels : boundLabels (code ++ readCode offset size reg) = [] := by
    rw [boundLabels_append, points.noLabels, noLabels_readCode]
    rfl
  exact ⟨_, Stream.moved_one (Stream.extends_append noLabels) (.read offset size points)⟩

end Emit

end TraceProbe
