import Mathlib.Algebra.Group.Int.Defs
import Mathlib.Algebra.Group.Nat.Defs
import TraceProbe.Bytecode.Encoding

/-!
# Byte memory

Memory gives a byte to every 64-bit address, and addresses wrap around.  A
range of bytes is read and written from its first address on; whether an
address lies in a range is decided by its distance from that first address.
-/

namespace TraceProbe

/-- The number that bytes stand for, lowest first. -/
def fromLittleEndian : List UInt8 → Nat
  | [] => 0
  | byte :: bytes => byte.toNat + 256 * fromLittleEndian bytes

theorem fromLittleEndian_lt (bytes : List UInt8) :
    fromLittleEndian bytes < 256 ^ bytes.length := by
  induction bytes with
  | nil => simp [fromLittleEndian]
  | cons byte bytes ih =>
      have small := byte.toNat_lt
      simp only [fromLittleEndian, List.length_cons, Nat.pow_succ]
      omega

theorem fromLittleEndian_littleEndian (count value : Nat) :
    fromLittleEndian (littleEndian count value) = value % 256 ^ count := by
  induction count generalizing value with
  | zero => simp [littleEndian, fromLittleEndian, Nat.mod_one]
  | succ count ih =>
      have low : (UInt8.ofNat value).toNat = value % 256 := UInt8.toNat_ofNat'
      rw [littleEndian, fromLittleEndian, ih, low, Nat.pow_succ, Nat.mul_comm (256 ^ count),
        Nat.mod_mul]

theorem littleEndian_fromLittleEndian (bytes : List UInt8) :
    littleEndian bytes.length (fromLittleEndian bytes) = bytes := by
  induction bytes with
  | nil => rfl
  | cons byte bytes ih =>
      have small := byte.toNat_lt
      have low : (byte.toNat + 256 * fromLittleEndian bytes) % 256 = byte.toNat := by omega
      have high : (byte.toNat + 256 * fromLittleEndian bytes) / 256 =
          fromLittleEndian bytes := by omega
      have head : UInt8.ofNat (byte.toNat + 256 * fromLittleEndian bytes) = byte := by
        apply UInt8.toNat_inj.mp
        rw [UInt8.toNat_ofNat', low]
      simp only [List.length_cons, fromLittleEndian, littleEndian, head, high, ih]

/-- A byte at every address. -/
@[ext] structure Memory where
  byte : UInt64 → UInt8

namespace Memory

/-- The bytes from an address on. -/
def read (memory : Memory) (address : UInt64) : Nat → List UInt8
  | 0 => []
  | count + 1 => memory.byte address :: memory.read (address + 1) count

/-- Changes one byte. -/
def put (memory : Memory) (address : UInt64) (byte : UInt8) : Memory :=
  ⟨fun other => if other = address then byte else memory.byte other⟩

/-- Writes bytes from an address on. -/
def write (memory : Memory) (address : UInt64) : List UInt8 → Memory
  | [] => memory
  | byte :: bytes => (memory.write (address + 1) bytes).put address byte

@[simp] theorem length_read (memory : Memory) (address : UInt64) (count : Nat) :
    (memory.read address count).length = count := by
  induction count generalizing address with
  | zero => rfl
  | succ count ih => simp [read, ih]

theorem getElem?_read (memory : Memory) (address : UInt64) {count index : Nat}
    (inside : index < count) :
    (memory.read address count)[index]? = some (memory.byte (address + UInt64.ofNat index)) := by
  induction count generalizing address index with
  | zero => omega
  | succ count ih =>
      cases index with
      | zero => simp [read]
      | succ index =>
          have later := @ih (address + 1) index (by omega)
          simp only [read, List.getElem?_cons_succ, later, UInt64.ofNat_add, UInt64.add_assoc,
            UInt64.ofNat_one, UInt64.add_comm 1]

theorem read_append (memory : Memory) (address : UInt64) (first second : Nat) :
    memory.read address (first + second) =
      memory.read address first ++ memory.read (address + UInt64.ofNat first) second := by
  induction first generalizing address with
  | zero => simp [read]
  | succ first ih =>
      rw [Nat.add_right_comm]
      simp only [read, ih, List.cons_append, UInt64.ofNat_add, UInt64.add_assoc, UInt64.ofNat_one,
        UInt64.add_comm 1]

/-- Two memories that agree on a range give the same bytes there. -/
theorem read_congr {left right : Memory} {address : UInt64} {count : Nat}
    (agree : ∀ index < count, left.byte (address + UInt64.ofNat index) =
      right.byte (address + UInt64.ofNat index)) :
    left.read address count = right.read address count := by
  apply List.ext_getElem?
  intro index
  rcases Nat.lt_or_ge index count with inside | outside
  · rw [getElem?_read _ _ inside, getElem?_read _ _ inside, agree index inside]
  · rw [List.getElem?_eq_none (by simpa using outside),
      List.getElem?_eq_none (by simpa using outside)]

/-- A written byte is the one at its distance; all others stay. -/
theorem byte_write (memory : Memory) (address other : UInt64) {bytes : List UInt8}
    (fits : bytes.length ≤ 2 ^ 64) :
    (memory.write address bytes).byte other =
      (bytes[(other - address).toNat]?).getD (memory.byte other) := by
  induction bytes generalizing address with
  | nil => simp [write]
  | cons byte bytes ih =>
      have shorter : bytes.length ≤ 2 ^ 64 := Nat.le_of_succ_le fits
      simp only [write, put, ih (address + 1) shorter]
      by_cases same : other = address
      · simp [same]
      · rw [if_neg same]
        have apart : (other - address).toNat ≠ 0 := by
          intro zero
          apply same
          have equal : other - address = 0 := UInt64.toNat_inj.mp zero
          rw [← UInt64.sub_add_cancel other address, equal, UInt64.zero_add]
        obtain ⟨distance, found⟩ := Nat.exists_eq_succ_of_ne_zero apart
        have before : (other - (address + 1)).toNat = distance := by
          have shifted : other - (address + 1) = (other - address) - 1 := by
            simp only [UInt64.sub_eq_add_neg, UInt64.neg_add, UInt64.add_assoc]
          rw [shifted, UInt64.toNat_sub_of_le]
          · rw [found]; rfl
          · rw [UInt64.le_iff_toNat_le, found]
            exact Nat.succ_le_succ (Nat.zero_le _)
        rw [before, found, List.getElem?_cons_succ]

end Memory

end TraceProbe
