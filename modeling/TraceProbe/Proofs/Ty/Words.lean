import TraceProbe.Proofs.Ty.Alignment
import TraceProbe.Stream.Basic

/-!
# Layout in machine words

A machine computes layouts in words of 64 bits, where sums and products may
overflow.  Here every operation notices that.  A type that stays small at every
level, down to elements and members, is laid out without an overflow, and so is
its slot in the frame.
-/

namespace TraceProbe

/-- A number as a word of 64 bits, unless it is too large. -/
def word? (number : Nat) : Option Nat :=
  if number < UInt64.size then some number else none

/-- `alignUp` in words. -/
def wordAlignUp? (position alignment : Nat) : Option Nat :=
  if alignment ≤ 1 then some position
  else word? ((position + (alignment - 1)) / alignment * alignment)

mutual

/-- `Ty.size` in words. -/
def Ty.wordSize? : Ty → Option Nat
  | .void | .map _ _ _ | .function _ => some 0
  | .scalar kind => some kind.width
  | .pointer _ => some pointerSize
  | .array element length => element.wordSize?.bind fun size => word? (size * length)
  | .record ⟨name, fields, union, packed⟩ =>
      (if union then Field.wordLargest? fields else Field.wordExtent? packed 0 fields).bind
        (wordAlignUp? · (Ty.record ⟨name, fields, union, packed⟩).align)
termination_by structural type => type

/-- `Field.largest` in words. -/
def Field.wordLargest? : List Field → Option Nat
  | [] => some 0
  | ⟨_, type⟩ :: fields =>
      type.wordSize?.bind fun size => (Field.wordLargest? fields).map (max size)
termination_by structural fields => fields

/-- `Field.extent` in words, which finds the offset of every member on the way. -/
def Field.wordExtent? (packed : Bool) (start : Nat) : List Field → Option Nat
  | [] => some start
  | ⟨_, type⟩ :: fields =>
      (if packed then some start else wordAlignUp? start type.align).bind fun offset =>
        type.wordSize?.bind fun size =>
          (word? (offset + size)).bind (Field.wordExtent? packed · fields)
termination_by structural fields => fields

end

/-- `Emit.frameEnd` in words. -/
def Emit.wordFrameEnd? (used size alignment : Nat) : Option Nat :=
  (word? (used + max size 1)).bind (wordAlignUp? · (min (max alignment 1) 8))

namespace Ty

/-- What a type is built of, itself included.  Values of functions are stored
nowhere, so functions have no further components. -/
inductive Component (part : Ty) : Ty → Prop
  | whole : Component part part
  | target {target : Ty} : Component part target → Component part (.pointer target)
  | element {element : Ty} {length : Nat} :
      Component part element → Component part (.array element length)
  | member {shape : Record} {field : Field} :
      field ∈ shape.fields → Component part field.type → Component part (.record shape)
  | key {key value : Ty} {kind : MapKind} :
      Component part key → Component part (.map key value kind)
  | value {key value : Ty} {kind : MapKind} :
      Component part value → Component part (.map key value kind)

/-- A type that is smaller than a bound at every level. -/
def Below (bound : Nat) (type : Ty) : Prop :=
  ∀ part, Component part type → part.size < bound

/-- Nothing overflows in the layout of a type, nor in that of its slot in the
frame. -/
structure Measured (type : Ty) : Prop where
  size : type.wordSize? = some type.size
  slot : ∀ used ≤ 32767, Emit.wordFrameEnd? used type.size type.align =
    some (Emit.frameEnd used type.size type.align)

section Below

variable {bound more length : Nat} {type element key value : Ty} {kind : MapKind} {shape : Record}

theorem Component.trans {part middle : Ty} (inner : Component part middle)
    (outer : Component middle type) : Component part type := by
  induction outer with
  | whole => exact inner
  | target _ ih => exact .target ih
  | element _ ih => exact .element ih
  | member among _ ih => exact .member among ih
  | key _ ih => exact .key ih
  | value _ ih => exact .value ih

theorem Below.size_lt (below : type.Below bound) : type.size < bound :=
  below type .whole

theorem Below.component {part : Ty} (below : type.Below bound) (inside : Component part type) :
    part.Below bound := by
  intro smaller within
  exact below smaller (within.trans inside)

theorem Below.mono (below : type.Below bound) (le : bound ≤ more) : type.Below more := by
  intro part inside
  exact Nat.lt_of_lt_of_le (below part inside) le

theorem below_void (positive : 0 < bound) : Ty.void.Below bound := by
  intro part inside
  cases inside
  exact positive

theorem below_scalar (large : 8 < bound) (kind : Scalar) : (Ty.scalar kind).Below bound := by
  intro part inside
  cases inside
  have width : kind.width ≤ 8 := by cases kind <;> decide
  exact Nat.lt_of_le_of_lt width large

theorem below_array (below : element.Below bound) (fits : element.size * length < bound) :
    (Ty.array element length).Below bound := by
  intro part inside
  cases inside with
  | whole => exact fits
  | element within => exact below part within

theorem below_map (keys : key.Below bound) (values : value.Below bound) :
    (Ty.map key value kind).Below bound := by
  intro part inside
  cases inside with
  | whole => exact Nat.lt_of_le_of_lt (Nat.zero_le _) keys.size_lt
  | key within => exact keys part within
  | value within => exact values part within

theorem below_record (fits : (Ty.record shape).size < bound)
    (members : ∀ field ∈ shape.fields, field.type.Below bound) : (Ty.record shape).Below bound := by
  intro part inside
  cases inside with
  | whole => exact fits
  | member among within => exact members _ among part within

theorem Below.members (below : (Ty.record shape).Below bound) {field : Field}
    (among : field ∈ shape.fields) : field.type.Below bound :=
  below.component (.member among .whole)

end Below

end Ty

section Measures

variable {position alignment number : Nat}

theorem word?_eq_some (fits : number < UInt64.size) : word? number = some number :=
  if_pos fits

theorem wordAlignUp?_eq_some (fits : alignUp position alignment < UInt64.size) :
    wordAlignUp? position alignment = some (alignUp position alignment) := by
  unfold alignUp at fits ⊢
  unfold wordAlignUp?
  split
  · rfl
  · rename_i some
    rw [if_neg some] at fits
    exact word?_eq_some fits

theorem Field.le_extent (packed : Bool) (start : Nat) (fields : List Field) :
    start ≤ Field.extent packed start fields :=
  (Field.laid_offsets (Nat.le_refl _)).le_size

mutual

theorem Ty.wordSize?_eq_some : ∀ {type : Ty}, type.Below UInt64.size →
    type.wordSize? = some type.size
  | .void, _ | .map _ _ _, _ | .function _, _ => rfl
  | .scalar _, _ => rfl
  | .pointer _, _ => rfl
  | .array element length, below => by
      have inner := Ty.wordSize?_eq_some (below.component (.element .whole) : element.Below _)
      rw [Ty.wordSize?, inner]
      exact word?_eq_some below.size_lt
  | .record ⟨name, fields, union, packed⟩, below => by
      have members : ∀ field ∈ fields, field.type.Below UInt64.size :=
        fun field among => below.members among
      have fits := below.size_lt
      rw [Ty.size] at fits
      rw [Ty.wordSize?, Ty.size]
      cases union with
      | true =>
          rw [if_pos rfl, Field.wordLargest?_eq_some members]
          exact wordAlignUp?_eq_some fits
      | false =>
          have inside := Nat.lt_of_le_of_lt (le_alignUp _ _) fits
          rw [if_neg Bool.false_ne_true] at inside
          rw [if_neg Bool.false_ne_true, Field.wordExtent?_eq_some members inside]
          exact wordAlignUp?_eq_some fits

theorem Field.wordLargest?_eq_some : ∀ {fields : List Field},
    (∀ field ∈ fields, field.type.Below UInt64.size) →
      Field.wordLargest? fields = some (Field.largest fields)
  | [], _ => rfl
  | ⟨name, type⟩ :: fields, members => by
      have first : type.Below UInt64.size := members ⟨name, type⟩ List.mem_cons_self
      have others := Field.wordLargest?_eq_some fun field among =>
        members field (List.mem_cons_of_mem _ among)
      rw [Field.wordLargest?, Ty.wordSize?_eq_some first, others]
      rfl

theorem Field.wordExtent?_eq_some : ∀ {packed : Bool} {start : Nat} {fields : List Field},
    (∀ field ∈ fields, field.type.Below UInt64.size) →
      Field.extent packed start fields < UInt64.size →
        Field.wordExtent? packed start fields = some (Field.extent packed start fields)
  | _, _, [], _, _ => rfl
  | packed, start, ⟨name, type⟩ :: fields, members, fits => by
      have first : type.Below UInt64.size := members ⟨name, type⟩ List.mem_cons_self
      rw [Field.extent] at fits ⊢
      have stop := Nat.lt_of_le_of_lt (Field.le_extent _ _ _) fits
      have others := Field.wordExtent?_eq_some
        (fun field among => members field (List.mem_cons_of_mem _ among)) fits
      have placed : (if packed then some start else wordAlignUp? start type.align) =
          some (if packed then start else alignUp start type.align) := by
        split
        · rfl
        · rename_i padded
          rw [if_neg padded] at stop
          exact wordAlignUp?_eq_some (Nat.lt_of_le_of_lt (Nat.le_add_right _ _) stop)
      rw [Field.wordExtent?, placed, Option.bind_some, Ty.wordSize?_eq_some first,
        Option.bind_some, word?_eq_some stop]
      exact others

end

/-- A slot ends little behind the bytes that are in use and those of the value. -/
theorem Emit.wordFrameEnd?_eq_some {used size : Nat} (small : used ≤ 32767) (fits : size < 2 ^ 63)
    (alignment : Nat) :
    Emit.wordFrameEnd? used size alignment = some (Emit.frameEnd used size alignment) := by
  have rounded : alignUp (used + max size 1) (min (max alignment 1) 8) <
      used + max size 1 + min (max alignment 1) 8 := alignUp_lt (by omega)
  have words : UInt64.size = 2 ^ 64 := rfl
  rw [Emit.wordFrameEnd?, word?_eq_some (by omega), Option.bind_some]
  exact wordAlignUp?_eq_some (by omega)

theorem Ty.Below.measured {type : Ty} (below : type.Below (2 ^ 63)) : type.Measured := by
  constructor
  · exact Ty.wordSize?_eq_some (below.mono (by decide))
  · intro _ small
    exact Emit.wordFrameEnd?_eq_some small below.size_lt _

end Measures

/-- Elements may be too large where the array itself has none of them. -/
example : (Ty.array (.array .u64 (2 ^ 61)) 0).wordSize? = none ∧
    (Ty.array (.array .u64 (2 ^ 61)) 0).size = 0 := by
  decide

end TraceProbe
