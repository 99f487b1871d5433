import Mathlib.Algebra.Ring.Nat
import TraceProbe.Proofs.Ty.Conformity
import TraceProbe.Proofs.Ty.Members

/-!
# Aligned layouts

Alignments are powers of two up to the size of a pointer, and every type fills
whole multiples of its own.  A struct leaves no more room between two members
than the alignment of the second one asks for, and none when it is packed.
-/

namespace TraceProbe

section Rounding

variable {position alignment total : Nat}

theorem alignUp_lt (positive : 0 < alignment) :
    alignUp position alignment < position + alignment := by
  unfold alignUp
  split
  · omega
  · have rounded := Nat.div_mul_le_self (position + (alignment - 1)) alignment
    omega

theorem alignUp_le (multiple : alignment ∣ total) (large : position ≤ total) :
    alignUp position alignment ≤ total := by
  unfold alignUp
  split
  · exact large
  · rename_i some
    obtain ⟨count, rfl⟩ := multiple
    have quotient : (position + (alignment - 1)) / alignment ≤ count := by
      apply Nat.le_of_lt_succ
      rw [Nat.div_lt_iff_lt_mul (by omega), Nat.succ_mul, Nat.mul_comm count]
      omega
    rw [Nat.mul_comm alignment]
    exact Nat.mul_le_mul_right alignment quotient

end Rounding

/-- The alignments of the machine. -/
def alignments : List Nat := [1, 2, 4, 8]

section Alignments

variable {left right : Nat}

theorem pos_of_mem_alignments (member : left ∈ alignments) : 0 < left := by
  simp only [alignments, List.mem_cons, List.not_mem_nil, or_false] at member
  omega

theorem max_mem_alignments (first : left ∈ alignments) (second : right ∈ alignments) :
    max left right ∈ alignments := by
  rcases Nat.le_total left right with less | more
  · rwa [Nat.max_eq_right less]
  · rwa [Nat.max_eq_left more]

theorem dvd_of_le_alignments (first : left ∈ alignments) (second : right ∈ alignments)
    (ordered : left ≤ right) : left ∣ right := by
  simp only [alignments, List.mem_cons, List.not_mem_nil, or_false] at first second
  rcases first with rfl | rfl | rfl | rfl <;> rcases second with rfl | rfl | rfl | rfl <;> omega

end Alignments

mutual

theorem Ty.align_mem : ∀ type : Ty, type.align ∈ alignments
  | .scalar kind => by cases kind <;> decide
  | .pointer _ => by simp [Ty.align, pointerSize, alignments]
  | .array element _ => element.align_mem
  | .record ⟨_, fields, _, packed⟩ => by
      simp only [Ty.align]
      split
      · exact List.mem_cons_self
      · exact Field.widestAlign_mem fields
  | .void | .map _ _ _ | .function _ => List.mem_cons_self

theorem Field.widestAlign_mem : ∀ fields : List Field, Field.widestAlign fields ∈ alignments
  | [] => List.mem_cons_self
  | ⟨_, type⟩ :: fields => max_mem_alignments type.align_mem (Field.widestAlign_mem fields)

end

theorem Ty.align_pos (type : Ty) : 0 < type.align :=
  pos_of_mem_alignments type.align_mem

theorem Ty.align_dvd_size : ∀ type : Ty, type.align ∣ type.size
  | .scalar _ => Nat.dvd_refl _
  | .pointer _ => Nat.dvd_refl _
  | .array element _ => Nat.dvd_mul_right_of_dvd element.align_dvd_size _
  | .record shape => by
      obtain ⟨name, fields, union, packed⟩ := shape
      rw [Ty.size]
      exact dvd_alignUp (Ty.align_pos _)
  | .void | .map _ _ _ | .function _ => Nat.dvd_zero _

namespace Field

variable {packed : Bool} {start total : Nat} {field : Field} {fields : List Field}

theorem le_widestAlign (member : field ∈ fields) : field.type.align ≤ widestAlign fields := by
  induction fields with
  | nil => cases member
  | cons head fields ih =>
      obtain ⟨name, type⟩ := head
      rw [widestAlign]
      rcases List.mem_cons.mp member with rfl | later
      · exact Nat.le_max_left _ _
      · exact Nat.le_trans (ih later) (Nat.le_max_right _ _)

/-- Members that end at a size or before reach no further than the size. -/
theorem extent_le (begun : start ≤ total)
    (inside : ∀ member ∈ fields.zip (offsets packed start fields),
      member.2 + member.1.type.size ≤ total) :
    extent packed start fields ≤ total := by
  induction fields generalizing start with
  | nil => exact begun
  | cons head fields ih =>
      obtain ⟨name, type⟩ := head
      exact ih (inside (⟨name, type⟩, _) List.mem_cons_self)
        fun member later => inside member (List.mem_cons_of_mem _ later)

theorem largest_le (inside : ∀ field ∈ fields, field.type.size ≤ total) :
    largest fields ≤ total := by
  induction fields with
  | nil => exact Nat.zero_le _
  | cons head fields ih =>
      obtain ⟨name, type⟩ := head
      rw [largest]
      exact Nat.max_le.mpr ⟨inside ⟨name, type⟩ List.mem_cons_self,
        ih fun field later => inside field (List.mem_cons_of_mem _ later)⟩

theorem position_zero (packed : Bool) (field : Field) : field.position packed 0 = 0 := by
  unfold position
  split
  · rfl
  · exact Nat.le_zero.mp (alignUp_le (Nat.dvd_zero _) (Nat.le_refl 0))

theorem offset_zero {offset : Nat}
    (found : (fields.zip (offsets packed start fields))[0]? = some (field, offset)) :
    offset = field.position packed start := by
  cases fields with
  | nil => cases found
  | cons head fields =>
      cases found
      rfl

/-- The offset of a member follows from where the one before it ends. -/
theorem offset_succ {next : Field} {offset behind index : Nat}
    (found : (fields.zip (offsets packed start fields))[index]? = some (field, offset))
    (later : (fields.zip (offsets packed start fields))[index + 1]? = some (next, behind)) :
    behind = next.position packed (offset + field.type.size) := by
  induction fields generalizing start index with
  | nil => cases found
  | cons head fields ih =>
      cases index with
      | zero =>
          cases found
          exact offset_zero later
      | succ index => exact ih found later

theorem extent_packed (fields : List Field) (start : Nat) :
    extent true start fields = start + (fields.map (·.type.size)).sum := by
  induction fields generalizing start with
  | nil => rfl
  | cons head fields ih =>
      obtain ⟨name, type⟩ := head
      rw [extent, if_pos rfl, ih, List.map_cons, List.sum_cons, Nat.add_assoc]

theorem align_dvd_offset {offset : Nat}
    (member : (field, offset) ∈ fields.zip (offsets false start fields)) :
    field.type.align ∣ offset := by
  induction fields generalizing start with
  | nil => cases member
  | cons head fields ih =>
      rcases List.mem_cons.mp member with here | later
      · cases here
        exact dvd_alignUp field.type.align_pos
      · exact ih later

end Field

/-- A member of a record, with its place in the declaration and its offset. -/
structure Record.Member (shape : Record) where
  index : Nat
  field : Field
  offset : Nat
  declared : shape.fields[index]? = some field
  placed : shape.offsets[index]? = some offset

namespace Record

section Members

variable {shape : Record}

/-- Where a member ends. -/
def Member.stop (member : shape.Member) : Nat :=
  member.offset + member.field.type.size

theorem Member.getElem? (member : shape.Member) :
    (shape.fields.zip shape.offsets)[member.index]? = some (member.field, member.offset) :=
  List.getElem?_zip_eq_some.mpr ⟨member.declared, member.placed⟩

theorem Member.among (member : shape.Member) :
    (member.field, member.offset) ∈ shape.fields.zip shape.offsets :=
  List.mem_of_getElem? member.getElem?

theorem exists_member {index : Nat} (inside : index < shape.fields.length) :
    ∃ member : shape.Member, member.index = index ∧ member.field = shape.fields[index] :=
  ⟨⟨index, _, _, List.getElem?_eq_getElem inside,
    List.getElem?_eq_getElem (shape.length_offsets ▸ inside)⟩, rfl, rfl⟩

theorem exists_member_of_mem {entry : Field × Nat}
    (among : entry ∈ shape.fields.zip shape.offsets) :
    ∃ member : shape.Member, member.field = entry.1 ∧ member.offset = entry.2 := by
  obtain ⟨index, found⟩ := List.mem_iff_getElem?.mp among
  obtain ⟨declared, placed⟩ := List.getElem?_zip_eq_some.mp found
  exact ⟨⟨index, _, _, declared, placed⟩, rfl, rfl⟩

end Members

/-- The layout of every record: each declared member has a place, the size is the
least multiple of the alignment that covers all of them, and a name stands for
the first member that has it. -/
structure Covers (shape : Record) : Prop where
  each : ∀ index < shape.fields.length, ∃ member : shape.Member, member.index = index
  inside : ∀ member : shape.Member, member.stop ≤ (Ty.record shape).size
  least : ∀ total, (Ty.record shape).align ∣ total →
    (∀ member : shape.Member, member.stop ≤ total) → (Ty.record shape).size ≤ total
  named : ∀ name offset, (Ty.record shape).offsetOf? name = some offset ↔
    ∃ member : shape.Member, member.field.name = name ∧ member.offset = offset ∧
      ∀ earlier : shape.Member, earlier.index < member.index → earlier.field.name ≠ name

/-- Members lie one behind the other, in declaration order and from the start of
the record on. -/
structure InOrder (shape : Record) : Prop where
  first : ∀ member : shape.Member, member.index = 0 → member.offset = 0
  apart : ∀ member later : shape.Member, member.index < later.index →
    member.stop ≤ later.offset

/-- The layout of a struct that is not packed: members stand at multiples of their
own alignment, which divides that of the struct, and no gap is as long as the
alignment of the member behind it. -/
structure Natural (shape : Record) : Prop extends shape.InOrder where
  aligned : ∀ member : shape.Member, member.field.type.align ∣ member.offset
  divides : ∀ member : shape.Member, member.field.type.align ∣ (Ty.record shape).align
  gap : ∀ member next : shape.Member, next.index = member.index + 1 →
    next.offset < member.stop + next.field.type.align

/-- The layout of a packed struct: every member stands where the one before it
ends, and the struct takes no more than its members do. -/
structure Gapless (shape : Record) : Prop extends shape.InOrder where
  next : ∀ member next : shape.Member, next.index = member.index + 1 →
    next.offset = member.stop
  size : (Ty.record shape).size = (shape.fields.map (·.type.size)).sum

variable {shape : Record}

/-- A multiple of the alignment that covers all members covers the record. -/
theorem size_le {total : Nat} (multiple : (Ty.record shape).align ∣ total)
    (inside : ∀ member : shape.Member, member.stop ≤ total) : (Ty.record shape).size ≤ total := by
  have each (entry : Field × Nat) (among : entry ∈ shape.fields.zip shape.offsets) :
      entry.2 + entry.1.type.size ≤ total := by
    obtain ⟨member, field, offset⟩ := exists_member_of_mem among
    exact field ▸ offset ▸ inside member
  obtain ⟨name, fields, union, packed⟩ := shape
  rw [Ty.size]
  apply alignUp_le multiple
  cases union with
  | false => exact Field.extent_le (Nat.zero_le _) each
  | true =>
      apply Field.largest_le
      intro field among
      obtain ⟨index, within, rfl⟩ := List.getElem_of_mem among
      obtain ⟨member, -, same⟩ := @exists_member ⟨name, fields, true, packed⟩ index within
      exact same ▸ Nat.le_trans (Nat.le_add_left _ _) (inside member)

theorem offsetOf?_eq_some_iff {name : String} {offset : Nat} :
    shape.offsetOf? name = some offset ↔
      ∃ member : shape.Member, member.field.name = name ∧ member.offset = offset ∧
        ∀ earlier : shape.Member, earlier.index < member.index → earlier.field.name ≠ name := by
  constructor
  · intro found
    obtain ⟨index, first, placed⟩ := Option.bind_eq_some_iff.mp found
    obtain ⟨inside, matching, before⟩ := List.findIdx?_eq_some_iff_getElem.mp first
    refine ⟨⟨index, _, _, List.getElem?_eq_getElem inside, placed⟩,
      by simpa using matching, rfl, ?_⟩
    intro earlier less
    obtain ⟨_, same⟩ := List.getElem?_eq_some_iff.mp earlier.declared
    simpa [same] using before earlier.index less
  · rintro ⟨⟨index, field, _, declared, placed⟩, rfl, rfl, before⟩
    obtain ⟨inside, rfl⟩ := List.getElem?_eq_some_iff.mp declared
    have first : shape.fields.findIdx? (·.name = shape.fields[index].name) = some index := by
      refine List.findIdx?_eq_some_iff_getElem.mpr ⟨inside, by simp, fun earlier less => ?_⟩
      obtain ⟨member, rfl, same⟩ := exists_member (Nat.lt_trans less inside)
      simpa [same] using before member less
    rw [offsetOf?, first]
    exact placed

theorem covers (shape : Record) : shape.Covers where
  each := fun _ inside =>
    let ⟨member, here, _⟩ := exists_member inside
    ⟨member, here⟩
  inside := fun member => bounds_of_mem member.among
  least := fun _ multiple inside => size_le multiple inside
  named := fun _ _ => offsetOf?_eq_some_iff

theorem offset_of_union (union : shape.union = true) (member : shape.Member) :
    member.offset = 0 := by
  have among := (List.of_mem_zip member.among).2
  rw [offsets, if_pos union] at among
  obtain ⟨_, -, zero⟩ := List.mem_map.mp among
  exact zero.symm

section Structs

variable (struct : shape.union = false)

include struct

theorem offsets_struct : shape.offsets = Field.offsets shape.packed 0 shape.fields := by
  rw [offsets, struct, if_neg Bool.false_ne_true]

theorem inOrder : shape.InOrder where
  first := by
    intro member zero
    have found := member.getElem?
    rw [zero, offsets_struct struct] at found
    rw [Field.offset_zero found, Field.position_zero]
  apart := fun member later order =>
    (laid_of_struct struct).ordered order member.getElem? later.getElem?

theorem offset_next {member next : shape.Member} (follows : next.index = member.index + 1) :
    next.offset = next.field.position shape.packed member.stop := by
  have found := member.getElem?
  have later := next.getElem?
  rw [follows] at later
  rw [offsets_struct struct] at found later
  exact Field.offset_succ found later

theorem natural (padded : shape.packed = false) : shape.Natural where
  toInOrder := inOrder struct
  aligned := by
    intro member
    have among := member.among
    rw [offsets_struct struct, padded] at among
    exact Field.align_dvd_offset among
  divides := by
    intro member
    have among := (List.of_mem_zip member.among).1
    obtain ⟨name, fields, union, packed⟩ := shape
    obtain rfl : packed = false := padded
    simp only [Ty.align, Bool.false_eq_true, if_false]
    exact dvd_of_le_alignments (Ty.align_mem _) (Field.widestAlign_mem fields)
      (Field.le_widestAlign among)
  gap := by
    intro member next follows
    rw [offset_next struct follows, padded]
    exact alignUp_lt next.field.type.align_pos

theorem gapless (dense : shape.packed = true) : shape.Gapless where
  toInOrder := inOrder struct
  next := by
    intro member next follows
    rw [offset_next struct follows, dense]
    rfl
  size := by
    obtain ⟨name, fields, union, packed⟩ := shape
    obtain rfl : union = false := struct
    obtain rfl : packed = true := dense
    rw [Ty.size, if_neg Bool.false_ne_true, Field.extent_packed, Nat.zero_add]
    rfl

end Structs

end Record

theorem Ty.elementOffset?_single {element : Ty} {length index : Nat} (inside : index < length) :
    (array element length).elementOffset? [index] = some (index * element.size) := by
  rw [elementOffset?, if_pos inside, elementOffset?]
  rfl

/-- What users of a layout rely on. -/
structure Ty.WellLaid (type : Ty) : Prop where
  align : type.align ∈ alignments
  whole : type.align ∣ type.size
  record : ∀ shape, type = .record shape → shape.Covers
  union : ∀ shape, type = .record shape → shape.union = true →
    ∀ member : shape.Member, member.offset = 0
  natural : ∀ shape, type = .record shape → shape.union = false → shape.packed = false →
    shape.Natural
  gapless : ∀ shape, type = .record shape → shape.union = false → shape.packed = true →
    shape.Gapless
  elements : ∀ element length, type = .array element length → ∀ index < length, ∃ offset,
    type.elementOffset? [index] = some offset ∧ offset = index * element.size ∧
      element.align ∣ offset ∧ offset + element.size ≤ type.size

/-- Built-in scalars, pointers, arrays, structs and unions are well laid out, in
any nesting. -/
theorem Ty.wellLaid (type : Ty) : type.WellLaid where
  align := type.align_mem
  whole := type.align_dvd_size
  record := fun shape _ => shape.covers
  union := fun _ _ union member => Record.offset_of_union union member
  natural := fun _ _ struct padded => Record.natural struct padded
  gapless := fun _ _ struct dense => Record.gapless struct dense
  elements := by
    rintro element length rfl index inside
    refine ⟨_, elementOffset?_single inside, rfl,
      Nat.dvd_mul_left_of_dvd element.align_dvd_size _, ?_⟩
    rw [← Nat.succ_mul, Ty.size, Nat.mul_comm element.size]
    exact Nat.mul_le_mul_right _ inside

/-- A packed struct of five bytes between a byte and a word. -/
example :
    let inner := Ty.record ⟨"inner", [⟨"tag", .scalar .u8⟩, ⟨"value", .scalar .u32⟩], false, true⟩
    let outer :=
      Record.mk "outer" [⟨"flag", .scalar .u8⟩, ⟨"inner", inner⟩, ⟨"count", .scalar .u32⟩]
    (outer false false).offsets = [0, 1, 8] ∧ (Ty.record (outer false false)).size = 12 := by
  decide

end TraceProbe
