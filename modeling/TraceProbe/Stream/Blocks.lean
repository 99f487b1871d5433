import TraceProbe.Insn.Basic

/-!
# Blocks of the frame

Code that clears, copies and fills byte ranges of the frame.  A range is cut
into accesses from left to right, each as wide as the alignment of its offsets
and the bytes that are left allow.
-/

namespace TraceProbe.Block

/-- Whether an access of some width may stand at two offsets with so many bytes
left. -/
def fits (first second : Int) (left : Nat) (width : Width) : Bool :=
  width.bytes ≤ left && first % width.bytes = 0 && second % width.bytes = 0

/-- The widest access that may stand at two offsets with so many bytes left. -/
def widest (first second : Int) (left : Nat) : Width :=
  ([Width.double, .word, .half].find? (fits first second left)).getD .byte

theorem bytes_widest_le (first second : Int) {left : Nat} (some : 0 < left) :
    (widest first second left).bytes ≤ left := by
  unfold widest
  cases found : [Width.double, .word, .half].find? (fits first second left) with
  | none => exact some
  | some width =>
      have holds := List.find?_some found
      simp [fits] at holds
      exact holds.1.1

theorem bytes_widest_pos (first second : Int) (left : Nat) :
    0 < (widest first second left).bytes :=
  Width.bytes_pos _

/-- The widths of the accesses that cover a range, each of at most `most`
bytes. -/
def cut (most : Nat) (first second : Int) (left : Nat) : List Width :=
  if left = 0 then []
  else
    let width := widest first second (min left most)
    width :: cut most (first + width.bytes) (second + width.bytes) (left - width.bytes)
termination_by left
decreasing_by
  have positive := bytes_widest_pos first second (min left most)
  omega

/-- Stores of zero, one after the other from an offset on. -/
def zeros (offset : Int) : List Width → List Insn
  | [] => []
  | width :: widths =>
      .storeImm width.bits .frame (Int16.ofInt offset) 0 :: zeros (offset + width.bytes) widths

/-- Clears bytes of the frame. -/
def clear (offset : Int16) (size : Nat) : List Insn :=
  zeros offset.toInt (cut 8 offset.toInt offset.toInt size)

/-- Loads and stores through `r0`, one after the other from two offsets on. -/
def transfers (dst src : Int) : List Width → List Insn
  | [] => []
  | width :: widths =>
      .load width.bits .r0 .frame (Int16.ofInt src) ::
        .store width.bits .frame .r0 (Int16.ofInt dst) ::
        transfers (dst + width.bytes) (src + width.bytes) widths

/-- Copies bytes within the frame; a range stays as it is when copied onto
itself. -/
def copy (dst src : Int16) (size : Nat) : List Insn :=
  if dst = src then []
  else transfers dst.toInt src.toInt (cut 8 dst.toInt src.toInt size)

/-- The immediate whose low bytes are the given ones, lowest first. -/
def immediate (bytes : List UInt8) : Int32 :=
  (bytes.foldr (fun byte higher => higher * 256 + byte.toNat) 0 |> Int32.ofNat)

/-- Stores of immediates, one after the other from an offset on. -/
def fills (offset : Int) (bytes : List UInt8) : List Width → List Insn
  | [] => []
  | width :: widths =>
      .storeImm width.bits .frame (Int16.ofInt offset) (immediate (bytes.take width.bytes)) ::
        fills (offset + width.bytes) (bytes.drop width.bytes) widths

/-- Whether every access finds its bytes, of which an immediate has four. -/
def sliced (bytes : List UInt8) : List Width → Bool
  | [] => true
  | width :: widths =>
      width.bytes ≤ 4 && width.bytes ≤ bytes.length && sliced (bytes.drop width.bytes) widths

theorem sliced_cut (first second : Int) (bytes : List UInt8) :
    sliced bytes (cut 4 first second bytes.length) = true := by
  generalize same : bytes.length = left
  induction left using Nat.strongRecOn generalizing first second bytes with
  | ind left ih =>
      rw [cut]
      split
      · rfl
      · rename_i some
        have fits := bytes_widest_le first second (show 0 < min left 4 by omega)
        have positive := bytes_widest_pos first second (min left 4)
        have rest := ih (left - (widest first second (min left 4)).bytes) (by omega)
          (first + (widest first second (min left 4)).bytes)
          (second + (widest first second (min left 4)).bytes)
          (bytes.drop (widest first second (min left 4)).bytes) (by rw [List.length_drop, same])
        simp only [sliced, rest, Bool.and_true, Bool.and_eq_true, decide_eq_true_eq]
        omega

/-- Fills a part of the frame with given bytes, at most four at a time. -/
def fill (offset : Int16) (bytes : List UInt8) : List Insn :=
  fills offset.toInt bytes (cut 4 offset.toInt offset.toInt bytes.length)

/-- Sets a register to an address in the frame. -/
def address (dst : Reg) (offset : Int16) : List Insn :=
  [.move dst .frame, .alu64Imm Opcode.add dst (Int32.ofInt offset.toInt)]

end TraceProbe.Block
