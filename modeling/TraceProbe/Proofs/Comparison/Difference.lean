import Mathlib.Data.List.Basic
import Mathlib.Tactic.SplitIfs
import TraceProbe.Proofs.Machine.Memory

/-!
# Bounded comparison of strings

A comparison of two byte arrays ends at the first position at which they differ
or both end, and no later than with the shorter array.  Its sign is the
lexicographic order of the strings, which end before their first zero byte.
-/

namespace TraceProbe.Comparison

/-- At a position the bytes differ, or both are zero. -/
def Decided (left right : List UInt8) (index : Nat) : Prop :=
  left.getD index 0 ≠ right.getD index 0 ∨ left.getD index 0 = 0 ∧ right.getD index 0 = 0

instance (left right : List UInt8) : DecidablePred (Decided left right) :=
  fun _ => inferInstanceAs (Decidable (_ ∨ _))

/-- The difference of the bytes at the first position that decides, or zero. -/
def difference (left right : List UInt8) : Int :=
  match (List.range (min left.length right.length)).find? (Decided left right) with
  | some index => (left.getD index 0).toNat - (right.getD index 0).toNat
  | none => 0

/-- The string that begins a byte array: everything before the first zero. -/
def cString (bytes : List UInt8) : List UInt8 :=
  bytes.takeWhile (· ≠ 0)

/-- The order of two strings. -/
def strcmp (left right : List UInt8) : Ordering :=
  compare (cString left) (cString right)

/-- The order of two strings, as far as so many bytes show it. -/
def strncmp (count : Nat) (left right : List UInt8) : Ordering :=
  strcmp (left.take count) (right.take count)

variable (first second : UInt8) (left right : List UInt8)

@[simp] theorem difference_nil_left : difference [] right = 0 := by
  simp [difference]

@[simp] theorem difference_nil_right : difference left [] = 0 := by
  simp [difference]

theorem difference_cons : difference (first :: left) (second :: right) =
    if first ≠ second ∨ first = 0 ∧ second = 0 then (first.toNat : Int) - second.toNat
    else difference left right := by
  unfold difference
  rw [List.length_cons, List.length_cons, Nat.add_min_add_right, List.range_succ_eq_map,
    List.find?_cons]
  by_cases here : first ≠ second ∨ first = 0 ∧ second = 0
  · have decided : Decided (first :: left) (second :: right) 0 := here
    rw [if_pos here, decide_eq_true decided]
    rfl
  · have undecided : ¬ Decided (first :: left) (second :: right) 0 := here
    have later : (fun index => decide (Decided (first :: left) (second :: right) index)) ∘
        Nat.succ =
        fun index => decide (Decided left right index) := by
      funext index
      simp [Decided]
    rw [if_neg here, decide_eq_false undecided, List.find?_map, later]
    cases (List.range (min left.length right.length)).find? (Decided left right) <;> simp

theorem difference_same {byte : UInt8} (some : byte ≠ 0) :
    difference (byte :: left) (byte :: right) = difference left right := by
  rw [difference_cons, if_neg (by simp [some])]

theorem difference_comm (left right : List UInt8) :
    difference right left = -difference left right := by
  induction left generalizing right with
  | nil => simp
  | cons first left ih =>
      cases right with
      | nil => simp
      | cons second right =>
          rw [difference_cons, difference_cons, ih right]
          by_cases decides : first ≠ second ∨ first = 0 ∧ second = 0
          · rw [if_pos decides, if_pos (decides.imp Ne.symm And.symm)]
            omega
          · rw [if_neg decides, if_neg fun decides' => decides (decides'.imp Ne.symm And.symm)]

theorem difference_bounds (left right : List UInt8) :
    -255 ≤ difference left right ∧ difference left right ≤ 255 := by
  induction left generalizing right with
  | nil => simp
  | cons first left ih =>
      cases right with
      | nil => simp
      | cons second right =>
          have low := first.toNat_lt
          have high := second.toNat_lt
          rw [difference_cons]
          split
          · omega
          · exact ih right

section Order

theorem cString_zero (bytes : List UInt8) : cString (0 :: bytes) = [] := by
  simp [cString]

theorem cString_cons {byte : UInt8} (some : byte ≠ 0) (bytes : List UInt8) :
    cString (byte :: bytes) = byte :: cString bytes := by
  simp [cString, some]

theorem compare_bytes (first second : UInt8) :
    compare ((first.toNat : Int) - second.toNat) 0 = compare first second := by
  simp only [compare, compareOfLessAndEq, UInt8.lt_iff_toNat_lt, ← UInt8.toNat_inj]
  split_ifs <;> first | rfl | omega

theorem strcmp_of_ne {first second : UInt8} (different : first ≠ second) (left right : List UInt8) :
    strcmp (first :: left) (second :: right) = compare first second := by
  have positive {byte : UInt8} (some : byte ≠ 0) : 0 < byte.toNat :=
    Nat.pos_of_ne_zero fun zero => some (UInt8.toNat_inj.mp zero)
  unfold strcmp
  by_cases ends : first = 0
  · subst ends
    rw [cString_zero, cString_cons different.symm, List.compare_nil_cons, ← compare_bytes]
    have some := positive different.symm
    exact (Int.compare_eq_lt.mpr (by simpa using some)).symm
  · by_cases ends' : second = 0
    · subst ends'
      rw [cString_zero, cString_cons ends, List.compare_cons_nil, ← compare_bytes]
      have some := positive ends
      exact (Int.compare_eq_gt.mpr (by simpa using some)).symm
    · rw [cString_cons ends, cString_cons ends', List.compare_cons_cons]
      cases order : compare first second with
      | lt | gt => rfl
      | eq => exact absurd (Std.LawfulEqOrd.eq_of_compare order) different

/-- The first bytes decide the sign as they decide the order, or the others do. -/
theorem sign_cons {first second : UInt8} {left right others others' : List UInt8}
    (later : first = second → first ≠ 0 →
      compare (difference left right) 0 = strcmp others others') :
    compare (difference (first :: left) (second :: right)) 0 =
      strcmp (first :: others) (second :: others') := by
  by_cases same : first = second
  · subst same
    by_cases ends : first = 0
    · subst ends
      rw [difference_cons, if_pos (by simp), strcmp, cString_zero, cString_zero, Int.sub_self]
      rfl
    · rw [difference_same _ _ ends, later rfl ends, strcmp, strcmp, cString_cons ends,
        cString_cons ends, List.compare_cons_cons, Std.ReflOrd.compare_self]
      rfl
  · rw [difference_cons, if_pos (.inl same), compare_bytes, strcmp_of_ne same]

/-- The sign of the difference is the order of the strings, as far as both arrays
reach. -/
theorem sign_eq_strncmp (left right : List UInt8) :
    compare (difference left right) 0 =
      strncmp (min left.length right.length) left right := by
  induction left generalizing right with
  | nil => simp [strncmp, strcmp, cString]
  | cons first left ih =>
      cases right with
      | nil => simp [strncmp, strcmp, cString]
      | cons second right =>
          rw [List.length_cons, List.length_cons, Nat.add_min_add_right]
          exact sign_cons fun _ _ => ih right

/-- Strings that end within their arrays are compared as a whole. -/
theorem sign_eq_strcmp {left right : List UInt8} (ends : 0 ∈ left) (ends' : 0 ∈ right) :
    compare (difference left right) 0 = strcmp left right := by
  induction left generalizing right with
  | nil => cases ends
  | cons first left ih =>
      cases right with
      | nil => cases ends'
      | cons second right =>
          refine sign_cons fun same some => ih ?_ ?_
          · exact (List.mem_cons.mp ends).resolve_left some.symm
          · exact (List.mem_cons.mp ends').resolve_left (same ▸ some.symm)

end Order

end TraceProbe.Comparison
