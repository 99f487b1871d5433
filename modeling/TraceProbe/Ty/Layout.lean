import TraceProbe.Ty.Basic

/-!
# Layout

Every type has a size and an alignment in bytes.  A record places each member
at the next multiple of the member's alignment and rounds its size up to its
widest member.  Packing leaves both steps out, and the members of a union all
stand at offset zero.  Sizes are natural numbers here; a machine finds the same
ones as long as they fit its words (`Ty.wordSize?`).
-/

namespace TraceProbe

/-- The least multiple of `alignment` that is at least `position`; alignments
zero and one leave the position as it is. -/
def alignUp (position alignment : Nat) : Nat :=
  if alignment ≤ 1 then position
  else (position + (alignment - 1)) / alignment * alignment

theorem le_alignUp (position alignment : Nat) : position ≤ alignUp position alignment := by
  unfold alignUp
  split
  · exact Nat.le_refl _
  · rename_i large
    have positive : 0 < alignment := by omega
    have divided := Nat.div_add_mod (position + (alignment - 1)) alignment
    have remainder := Nat.mod_lt (position + (alignment - 1)) positive
    rw [Nat.mul_comm] at divided
    omega

theorem dvd_alignUp {position alignment : Nat} (positive : 0 < alignment) :
    alignment ∣ alignUp position alignment := by
  unfold alignUp
  split
  · have unit : alignment = 1 := by omega
    exact unit ▸ Nat.one_dvd _
  · exact Nat.dvd_mul_left _ _

/-- Size of a pointer on the target machine. -/
def pointerSize : Nat := 8

mutual

/-- Alignment in bytes. -/
def Ty.align : Ty → Nat
  | .scalar kind => kind.width
  | .pointer _ => pointerSize
  | .array element _ => element.align
  | .record ⟨_, fields, _, packed⟩ => if packed then 1 else Field.widestAlign fields
  | .void | .map _ _ _ | .function _ => 1
termination_by structural type => type

/-- The largest alignment of any member, and one without members. -/
def Field.widestAlign : List Field → Nat
  | [] => 1
  | ⟨_, type⟩ :: fields => max type.align (Field.widestAlign fields)
termination_by structural fields => fields

end

mutual

/-- Size in bytes; void, maps and functions have no storage of their own. -/
def Ty.size : Ty → Nat
  | .void | .map _ _ _ | .function _ => 0
  | .scalar kind => kind.width
  | .pointer _ => pointerSize
  | .array element length => element.size * length
  | .record ⟨name, fields, union, packed⟩ =>
      alignUp (if union then Field.largest fields else Field.extent packed 0 fields)
        (Ty.record ⟨name, fields, union, packed⟩).align
termination_by structural type => type

/-- The size of the largest member. -/
def Field.largest : List Field → Nat
  | [] => 0
  | ⟨_, type⟩ :: fields => max type.size (Field.largest fields)
termination_by structural fields => fields

/-- Where members laid out one after the other from `start` end. -/
def Field.extent (packed : Bool) (start : Nat) : List Field → Nat
  | [] => start
  | ⟨_, type⟩ :: fields =>
      Field.extent packed ((if packed then start else alignUp start type.align) + type.size)
        fields
termination_by structural fields => fields

end

namespace Ty

variable (kind : Scalar) (target element : Ty) (length : Nat)

@[simp] theorem align_scalar : (scalar kind).align = kind.width := rfl

@[simp] theorem align_pointer : (pointer target).align = pointerSize := rfl

@[simp] theorem align_array : (array element length).align = element.align := rfl

@[simp] theorem size_scalar : (scalar kind).size = kind.width := rfl

@[simp] theorem size_pointer : (pointer target).size = pointerSize := rfl

@[simp] theorem size_array : (array element length).size = element.size * length := rfl

end Ty

/-- Where the next member starts when the members before it end at `start`. -/
def Field.position (packed : Bool) (start : Nat) (field : Field) : Nat :=
  if packed then start else alignUp start field.type.align

/-- Offsets of members laid out one after the other from `start`. -/
def Field.offsets (packed : Bool) (start : Nat) : List Field → List Nat
  | [] => []
  | field :: fields =>
      let offset := field.position packed start
      offset :: Field.offsets packed (offset + field.type.size) fields

namespace Record

/-- Offset of every member, in declaration order. -/
def offsets (shape : Record) : List Nat :=
  if shape.union then shape.fields.map fun _ => 0
  else Field.offsets shape.packed 0 shape.fields

theorem length_fieldOffsets (packed : Bool) (start : Nat) (fields : List Field) :
    (Field.offsets packed start fields).length = fields.length := by
  induction fields generalizing start with
  | nil => rfl
  | cons field fields ih => simp [Field.offsets, ih]

@[simp] theorem length_offsets (shape : Record) :
    shape.offsets.length = shape.fields.length := by
  unfold offsets
  split
  · exact List.length_map _
  · exact length_fieldOffsets _ _ _

/-- Offset of the first member of a given name. -/
def offsetOf? (shape : Record) (name : String) : Option Nat :=
  (shape.fields.findIdx? (·.name = name)).bind (shape.offsets[·]?)

end Record

/-- Offset of a member, for structs and unions. -/
def Ty.offsetOf? (type : Ty) (member : String) : Option Nat :=
  type.record?.bind (·.offsetOf? member)

end TraceProbe
