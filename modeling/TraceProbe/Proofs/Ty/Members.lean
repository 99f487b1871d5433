import TraceProbe.Ty.Layout

/-!
# Members of records

Members lie inside their record, and those of a struct one behind the other.
-/

namespace TraceProbe

namespace Field

theorem le_position (packed : Bool) (start : Nat) (field : Field) :
    start ≤ field.position packed start := by
  unfold position
  split
  · exact Nat.le_refl _
  · exact le_alignUp _ _

/-- Members laid out from a start on, each behind the one before it, end at a
size or before. -/
def Laid (size : Nat) : Nat → List (Field × Nat) → Prop
  | stop, [] => stop ≤ size
  | stop, (field, offset) :: members =>
      stop ≤ offset ∧ Laid size (offset + field.type.size) members

theorem Laid.le_size {size stop : Nat} {members : List (Field × Nat)}
    (laid : Laid size stop members) :
    stop ≤ size := by
  induction members generalizing stop with
  | nil => exact laid
  | cons member members ih =>
      obtain ⟨behind, rest⟩ := laid
      have later := ih rest
      omega

theorem Laid.bounds {size stop : Nat} {members : List (Field × Nat)} (laid : Laid size stop members)
    {field : Field} {offset : Nat} (member : (field, offset) ∈ members) :
    stop ≤ offset ∧ offset + field.type.size ≤ size := by
  induction members generalizing stop with
  | nil => cases member
  | cons head members ih =>
      obtain ⟨behind, rest⟩ := laid
      rcases List.mem_cons.mp member with rfl | later
      · exact ⟨behind, rest.le_size⟩
      · obtain ⟨low, high⟩ := ih rest later
        omega

/-- A member ends before a later one begins. -/
theorem Laid.ordered {size stop : Nat} {members : List (Field × Nat)}
    (laid : Laid size stop members)
    {index later : Nat} (order : index < later) {field field' : Field} {offset offset' : Nat}
    (found : members[index]? = some (field, offset))
    (found' : members[later]? = some (field', offset')) :
    offset + field.type.size ≤ offset' := by
  induction members generalizing stop index later with
  | nil => cases found
  | cons head members ih =>
      obtain ⟨behind, rest⟩ := laid
      cases later with
      | zero => cases order
      | succ later =>
          cases index with
          | zero =>
              cases found
              exact (rest.bounds (List.mem_of_getElem? found')).1
          | succ index => exact ih rest (Nat.lt_of_succ_lt_succ order) found found'

theorem laid_offsets {packed : Bool} {size start : Nat} {fields : List Field}
    (fits : extent packed start fields ≤ size) :
    Laid size start (fields.zip (offsets packed start fields)) := by
  induction fields generalizing start with
  | nil => exact fits
  | cons field fields ih =>
      obtain ⟨name, type⟩ := field
      exact ⟨le_position packed start ⟨name, type⟩, ih fits⟩

theorem le_largest {field : Field} {fields : List Field} (member : field ∈ fields) :
    field.type.size ≤ largest fields := by
  induction fields with
  | nil => cases member
  | cons head fields ih =>
      obtain ⟨name, type⟩ := head
      rw [largest]
      rcases List.mem_cons.mp member with rfl | later
      · exact Nat.le_max_left _ _
      · exact Nat.le_trans (ih later) (Nat.le_max_right _ _)

end Field

theorem Ty.eq_of_record? {type : Ty} {shape : Record} (found : type.record? = some shape) :
    type = .record shape := by
  cases type with
  | record _ =>
      cases found
      rfl
  | _ => cases found

namespace Record

open TraceProbe.Field

theorem laid_of_struct {shape : Record} (struct : shape.union = false) :
    Laid (Ty.record shape).size 0 (shape.fields.zip shape.offsets) := by
  obtain ⟨name, fields, union, packed⟩ := shape
  obtain rfl : union = false := struct
  simp only [offsets, Bool.false_eq_true, if_false]
  apply laid_offsets
  rw [Ty.size]
  exact le_alignUp _ _

theorem bounds_of_mem {shape : Record} {field : Field} {offset : Nat}
    (member : (field, offset) ∈ shape.fields.zip shape.offsets) :
    offset + field.type.size ≤ (Ty.record shape).size := by
  obtain ⟨name, fields, union, packed⟩ := shape
  cases union with
  | false => exact ((@laid_of_struct ⟨name, fields, false, packed⟩ rfl).bounds member).2
  | true =>
      simp only [offsets, if_true] at member
      obtain ⟨among, zero⟩ := List.of_mem_zip member
      obtain ⟨_, -, rfl⟩ := List.mem_map.mp zero
      rw [Ty.size, if_pos rfl, Nat.zero_add]
      exact Nat.le_trans (le_largest among) (le_alignUp _ _)

theorem le_size_of_mem {shape : Record} {offset : Nat} (member : offset ∈ shape.offsets) :
    offset ≤ (Ty.record shape).size := by
  obtain ⟨index, there⟩ := List.mem_iff_getElem?.mp member
  have inside : index < shape.fields.length :=
    shape.length_offsets ▸ (List.getElem?_eq_some_iff.mp there).1
  have both : (shape.fields.zip shape.offsets)[index]? = some (shape.fields[index], offset) :=
    List.getElem?_zip_eq_some.mpr ⟨List.getElem?_eq_getElem inside, there⟩
  exact Nat.le_trans (Nat.le_add_right _ _) (bounds_of_mem (List.mem_of_getElem? both))

/-- The first member of a name is the one whose offset is found. -/
theorem bounds_of_offsetOf? {shape : Record} {name : String} {field : Field} {offset : Nat}
    (found : shape.field? name = some field) (placed : shape.offsetOf? name = some offset) :
    offset + field.type.size ≤ (Ty.record shape).size := by
  obtain ⟨index, first, there⟩ := Option.bind_eq_some_iff.mp placed
  obtain ⟨inside, matching, earlier⟩ := List.findIdx?_eq_some_iff_getElem.mp first
  have same : field = shape.fields[index] := by
    unfold field? at found
    obtain ⟨_, place, inside', here, before⟩ := List.find?_eq_some_iff_getElem.mp found
    rcases Nat.lt_trichotomy place index with less | rfl | more
    · have failed := earlier place less
      rw [here] at failed
      simp_all
    · exact here.symm
    · have failed := before index more
      simp_all
  subst same
  apply bounds_of_mem
  apply List.mem_iff_getElem?.mpr
  refine ⟨index, ?_⟩
  rw [List.getElem?_zip_eq_some]
  exact ⟨List.getElem?_eq_getElem inside, there⟩

theorem exists_offsetOf? {shape : Record} {name : String} {field : Field}
    (found : shape.field? name = some field) : ∃ offset, shape.offsetOf? name = some offset := by
  have member := List.mem_of_find?_eq_some found
  have matching := List.find?_some found
  cases first : shape.fields.findIdx? (·.name = name) with
  | none => exact absurd matching (by simpa using List.findIdx?_eq_none_iff.mp first field member)
  | some index =>
      have inside : index < shape.offsets.length :=
        shape.length_offsets ▸ (List.findIdx?_eq_some_iff_getElem.mp first).1
      exact ⟨_, by rw [offsetOf?, first, Option.bind_some, List.getElem?_eq_getElem inside]⟩

end Record

end TraceProbe
