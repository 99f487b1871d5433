import TraceProbe.Proofs.Machine.Basic
import TraceProbe.Stream.Moves

/-!
# Values of another width

Scalars are kept as their bytes, lowest first.  At a narrower width the high
bytes are cut off; at a wider one, bytes are added that repeat the sign of a
signed value and are zero otherwise.
-/

namespace TraceProbe

/-- Whether bytes are those of a negative number. -/
def isNegative (bytes : List UInt8) : Bool :=
  bytes.getLast?.any (128 ≤ ·)

/-- The bytes of a scalar at another width. -/
def resize (signed : Bool) (size : Nat) (bytes : List UInt8) : List UInt8 :=
  bytes.take size ++
    List.replicate (size - bytes.length) (if signed && isNegative bytes then 255 else 0)

theorem resize_self (signed : Bool) (bytes : List UInt8) :
    resize signed bytes.length bytes = bytes := by
  simp [resize]

theorem resize_of_length_eq {signed : Bool} {size : Nat} {bytes : List UInt8}
    (same : bytes.length = size) : resize signed size bytes = bytes :=
  same ▸ resize_self signed bytes

@[simp] theorem length_resize (signed : Bool) (size : Nat) (bytes : List UInt8) :
    (resize signed size bytes).length = size := by
  simp only [resize, List.length_append, List.length_take, List.length_replicate]
  omega

theorem littleEndian_add (low high value : Nat) :
    littleEndian (low + high) value =
      littleEndian low value ++ littleEndian high (value / 256 ^ low) := by
  induction low generalizing value with
  | zero => simp [littleEndian]
  | succ low ih =>
      rw [Nat.succ_add, littleEndian, littleEndian, ih, Nat.div_div_eq_div_mul, Nat.pow_succ,
        Nat.mul_comm 256]
      rfl

/-- The low bytes of a number do not depend on what is above them. -/
theorem littleEndian_add_mul (count low high : Nat) :
    littleEndian count (low + 256 ^ count * high) = littleEndian count low := by
  induction count generalizing low high with
  | zero => rfl
  | succ count ih =>
      have first : UInt8.ofNat (low + 256 ^ (count + 1) * high) = UInt8.ofNat low := by
        apply UInt8.toNat_inj.mp
        rw [UInt8.toNat_ofNat', UInt8.toNat_ofNat', Nat.pow_succ, Nat.mul_comm (256 ^ count),
          Nat.mul_assoc]
        exact Nat.add_mul_mod_self_left _ _ _
      have others : (low + 256 ^ (count + 1) * high) / 256 = low / 256 + 256 ^ count * high := by
        rw [Nat.pow_succ, Nat.mul_comm (256 ^ count), Nat.mul_assoc]
        exact Nat.add_mul_div_left _ _ (by decide)
      rw [littleEndian, littleEndian, first, others, ih]

theorem littleEndian_zero (count : Nat) : littleEndian count 0 = List.replicate count 0 := by
  induction count with
  | zero => rfl
  | succ count ih =>
      rw [littleEndian, Nat.zero_div, ih]
      rfl

theorem littleEndian_ones {count bytes : Nat} (fits : count ≤ bytes) :
    littleEndian count (256 ^ bytes - 1) = List.replicate count 255 := by
  induction count generalizing bytes with
  | zero => rfl
  | succ count ih =>
      obtain ⟨bytes, rfl⟩ := Nat.exists_eq_succ_of_ne_zero (Nat.ne_of_gt (Nat.lt_of_lt_of_le
        (Nat.succ_pos count) fits))
      have positive : 0 < 256 ^ bytes := Nat.pow_pos (by decide)
      have first : UInt8.ofNat (256 ^ (bytes + 1) - 1) = 255 := by
        apply UInt8.toNat_inj.mp
        rw [UInt8.toNat_ofNat', Nat.pow_succ]
        show (256 ^ bytes * 256 - 1) % 256 = 255
        omega
      have others : (256 ^ (bytes + 1) - 1) / 256 = 256 ^ bytes - 1 := by
        rw [Nat.pow_succ]
        omega
      rw [littleEndian, first, others, ih (Nat.le_of_succ_le_succ fits)]
      rfl

theorem littleEndian_mod (count value : Nat) :
    littleEndian count (value % 256 ^ count) = littleEndian count value := by
  induction count generalizing value with
  | zero => rfl
  | succ count ih =>
      have first : UInt8.ofNat (value % 256 ^ (count + 1)) = UInt8.ofNat value := by
        apply UInt8.toNat_inj.mp
        rw [UInt8.toNat_ofNat', UInt8.toNat_ofNat', Nat.pow_succ]
        exact Nat.mod_mul_left_mod _ _ _
      have others : value % 256 ^ (count + 1) / 256 = value / 256 % 256 ^ count := by
        rw [Nat.pow_succ, Nat.mul_comm, Nat.mod_mul_right_div_self]
      rw [littleEndian, littleEndian, first, others, ih]

theorem littleEndian_congr {count left right : Nat}
    (same : left % 256 ^ count = right % 256 ^ count) :
    littleEndian count left = littleEndian count right := by
  rw [← littleEndian_mod, same, littleEndian_mod]

theorem toInt_toInt64 (value : UInt64) :
    value.toInt64.toInt = if 2 * value.toNat < 2 ^ 64 then (value.toNat : Int)
      else value.toNat - 2 ^ 64 :=
  BitVec.toInt_eq_toNat_cond value.toBitVec

theorem toNat_ofInt (value : Int) : (UInt64.ofInt value).toNat = (value % 2 ^ 64).toNat := by
  rw [UInt64.ofInt, UInt64.toNat_ofNat']
  omega

/-- A number of so many bits, shifted up to the highest bit and back. -/
theorem toNat_shift_back {bits shift value : Nat} (sum : bits + shift = 64) (some : 0 < bits)
    (positive : 0 < shift) (bound : value < 2 ^ bits) :
    (UInt64.ofInt ((UInt64.ofNat value <<< UInt64.ofNat shift).toInt64.toInt /
        2 ^ shift)).toNat =
      if 2 ^ bits ≤ 2 * value then value + 2 ^ bits * (2 ^ shift - 1) else value := by
  have power : 2 ^ bits * 2 ^ shift = 2 ^ 64 := by rw [← Nat.pow_add, sum]
  have whole : 0 < 2 ^ shift := Nat.pow_pos (by decide)
  have up : (UInt64.ofNat value <<< UInt64.ofNat shift).toNat = value * 2 ^ shift := by
    have lt : value * 2 ^ shift < 2 ^ 64 := by
      rw [← power]
      exact Nat.mul_lt_mul_of_pos_right bound whole
    have le : value < 2 ^ 64 := Nat.lt_of_le_of_lt (Nat.le_mul_of_pos_right _ whole) lt
    have small : shift % 2 ^ 64 % 64 = shift := by omega
    rw [UInt64.toNat_shiftLeft, UInt64.toNat_ofNat', UInt64.toNat_ofNat', Nat.mod_eq_of_lt le,
      small, Nat.shiftLeft_eq, Nat.mod_eq_of_lt lt]
  have half : 2 * (value * 2 ^ shift) < 2 ^ 64 ↔ ¬ 2 ^ bits ≤ 2 * value := by
    rw [← power, ← Nat.mul_assoc, Nat.mul_lt_mul_right whole, Nat.not_le]
  have power' : (2 : Int) ^ bits * 2 ^ shift = 2 ^ 64 := by exact_mod_cast power
  have whole' : (2 : Int) ^ shift ≠ 0 := Int.ne_of_gt (Int.pow_pos (by decide))
  rw [toNat_ofInt, toInt_toInt64, up]
  by_cases negative : 2 ^ bits ≤ 2 * value
  · rw [if_neg (fun small => half.mp small negative), if_pos negative]
    have back : (((value * 2 ^ shift : Nat) : Int) - 2 ^ 64) / 2 ^ shift = value - 2 ^ bits := by
      rw [← power']
      push_cast
      rw [← Int.sub_mul, Int.mul_ediv_cancel _ whole']
    rw [back]
    have up : 2 ^ bits * (2 ^ shift - 1) = 2 ^ 64 - 2 ^ bits := by
      rw [Nat.mul_sub, power, Nat.mul_one]
    rw [up]
    have cast : ((2 ^ bits : Nat) : Int) = 2 ^ bits := by push_cast; rfl
    have lt : 2 ^ bits < 2 ^ 64 := Nat.pow_lt_pow_right (by decide) (by omega)
    rw [← cast]
    generalize 2 ^ bits = top at *
    omega
  · rw [if_pos (half.mpr negative), if_neg negative]
    push_cast
    rw [Int.mul_ediv_cancel _ whole']
    have lt : 2 ^ bits < 2 ^ 64 := Nat.pow_lt_pow_right (by decide) (by omega)
    omega

section Conversion

variable {bytes : List UInt8}

theorem littleEndian_narrow {size : Nat} (narrower : size ≤ bytes.length) (signed : Bool) :
    littleEndian size (fromLittleEndian bytes) = resize signed size bytes := by
  have whole := littleEndian_fromLittleEndian bytes
  obtain ⟨more, length⟩ := Nat.exists_eq_add_of_le narrower
  rw [length, littleEndian_add] at whole
  have front := congrArg (List.take size) whole
  rw [List.take_left' (length_littleEndian _ _)] at front
  rw [front, resize, Nat.sub_eq_zero_of_le narrower]
  simp

theorem littleEndian_wide {size : Nat} (wider : bytes.length ≤ size) :
    littleEndian size (fromLittleEndian bytes) = resize false size bytes := by
  obtain ⟨more, rfl⟩ := Nat.exists_eq_add_of_le wider
  have above : fromLittleEndian bytes / 256 ^ bytes.length = 0 :=
    Nat.div_eq_of_lt (fromLittleEndian_lt bytes)
  rw [littleEndian_add, littleEndian_fromLittleEndian, above, littleEndian_zero, resize,
    List.take_of_length_le wider]
  simp

/-- The highest byte tells whether a number is in the upper half of its range. -/
theorem isNegative_iff (some : bytes ≠ []) :
    isNegative bytes = true ↔ 256 ^ bytes.length ≤ 2 * fromLittleEndian bytes := by
  induction bytes with
  | nil => exact absurd rfl some
  | cons byte bytes ih =>
      have small := byte.toNat_lt
      cases bytes with
      | nil =>
          simp only [isNegative, List.getLast?_singleton, Option.any_some, decide_eq_true_eq,
            fromLittleEndian, List.length_singleton]
          rw [UInt8.le_iff_toNat_le]
          show 128 ≤ byte.toNat ↔ _
          omega
      | cons next bytes =>
          have later := ih (List.cons_ne_nil _ _)
          have same : isNegative (byte :: next :: bytes) = isNegative (next :: bytes) := by
            simp [isNegative]
          have even : 256 ^ (next :: bytes).length % 2 = 0 := by
            rw [List.length_cons, Nat.pow_succ, Nat.mul_mod]
            simp
          have power : 256 ^ (byte :: next :: bytes).length =
              256 ^ (next :: bytes).length * 256 := by
            rw [List.length_cons, Nat.pow_succ]
          have value : fromLittleEndian (byte :: next :: bytes) =
              byte.toNat + 256 * fromLittleEndian (next :: bytes) := rfl
          rw [same, later, value, power]
          generalize fromLittleEndian (next :: bytes) = value
          generalize 256 ^ (next :: bytes).length = top at even ⊢
          omega

/-- The distance that brings a narrow value up to the highest bit. -/
theorem immediate_shift {width : Width} (narrow : width ≠ .double) :
    Opcode.immediate (Int32.ofInt (64 - 8 * width.bytes)) =
        UInt64.ofNat (64 - 8 * width.bytes) ∧
      8 * width.bytes + (64 - 8 * width.bytes) = 64 ∧ 0 < 8 * width.bytes ∧
      0 < 64 - 8 * width.bytes := by
  cases width with
  | double => exact absurd rfl narrow
  | byte | half | word => decide

/-- Shifting a value up to the highest bit and back repeats its sign. -/
theorem littleEndian_signed {width : Width} {size : Nat} (length : bytes.length = width.bytes)
    (narrow : width ≠ .double) (wider : width.bytes ≤ size) (fits : size ≤ 8) :
    let shift := Opcode.immediate (Int32.ofInt (64 - 8 * width.bytes))
    littleEndian size (UInt64.ofInt ((UInt64.ofNat (fromLittleEndian bytes) <<< shift).toInt64.toInt
      / 2 ^ (shift.toNat % 64))).toNat = resize true size bytes := by
  obtain ⟨distance, sum, some, positive⟩ := immediate_shift narrow
  obtain ⟨more, rfl⟩ := Nat.exists_eq_add_of_le wider
  have bytesPower : 2 ^ (8 * width.bytes) = 256 ^ width.bytes := Nat.pow_mul 2 8 width.bytes
  have restPower : 2 ^ (64 - 8 * width.bytes) = 256 ^ (8 - width.bytes) := by
    rw [show 64 - 8 * width.bytes = 8 * (8 - width.bytes) by omega]
    exact Nat.pow_mul 2 8 _
  have bound : fromLittleEndian bytes < 256 ^ width.bytes := length ▸ fromLittleEndian_lt bytes
  have small : (UInt64.ofNat (64 - 8 * width.bytes)).toNat % 64 = 64 - 8 * width.bytes := by
    rw [UInt64.toNat_ofNat']
    omega
  intro shift
  have shifted : shift = UInt64.ofNat (64 - 8 * width.bytes) := distance
  rw [shifted, small, toNat_shift_back sum some positive (bytesPower ▸ bound),
    bytesPower, restPower]
  have someBytes : bytes ≠ [] := by
    rintro rfl
    have zero : width.bytes = 0 := length.symm
    omega
  have whole : 0 < 256 ^ width.bytes := Nat.pow_pos (by decide)
  have low : littleEndian width.bytes (fromLittleEndian bytes) = bytes := by
    rw [← length]
    exact littleEndian_fromLittleEndian bytes
  rw [littleEndian_add, resize, List.take_of_length_le (by omega), length,
    Nat.add_sub_cancel_left]
  have sign := isNegative_iff someBytes
  rw [length] at sign
  split
  · rename_i negative
    rw [littleEndian_add_mul, low, Nat.add_mul_div_left _ _ whole, Nat.div_eq_of_lt bound,
      Nat.zero_add, littleEndian_ones (by omega), sign.mpr negative]
    rfl
  · rename_i positive
    have plain : isNegative bytes = false := by
      cases known : isNegative bytes with
      | true => exact absurd (sign.mp known) positive
      | false => rfl
    rw [low, Nat.div_eq_of_lt bound, littleEndian_zero, plain]
    rfl

end Conversion

end TraceProbe
