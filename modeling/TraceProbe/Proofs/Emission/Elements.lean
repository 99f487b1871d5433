import TraceProbe.Proofs.Emission.Plans
import TraceProbe.Proofs.Ty.Members
import TraceProbe.Proofs.Typing.Rules

/-!
# Members and elements

What is appended for a member, an element or a value behind a pointer once the
arguments are stored.
-/

namespace TraceProbe

/-- What is known about the storage and the type of an argument. -/
structure Node.Stored (tree : Node) : Prop where
  sized : ∀ type, tree.type? = some type → type ≠ .void → tree.storage.isAssigned = true →
    tree.storage.size = type.size
  literal : ∀ value, tree.str? = some value → tree.type? = some (Node.literalType value)

theorem toInt_of_movedOffset {base place : Int16} {distance : Nat} (small : distance ≤ 32767)
    (found : movedOffset base distance = .ok place) : place.toInt = base.toInt + distance := by
  have narrow : (Int16.ofNat distance).toInt = distance := Int16.toInt_ofNat_of_lt (by omega)
  simp only [movedOffset, narrow] at found
  split at found
  · rename_i inside
    cases found
    exact Int16.toInt_ofInt_of_le inside.1 (by omega)
  · cases found

section Parts

variable {trees : List Node} {stream : Stream} {base place : Int16} {size part distance : Nat}

theorem InFrame.size_le (frame : InFrame trees stream)
    (operand : Operand trees ⟨.slot base, size⟩) : size ≤ 32767 := by
  have reached := Storage.size_le (frame.covers _ operand)
  have limited := Nat.le_trans frame.fits frame.small
  exact Nat.le_trans reached limited

theorem covers_of_part (moved : movedOffset base distance = .ok place)
    (inside : distance + part ≤ size)
    (small : size ≤ 32767) {position : Int} (covers : Storage.Covers ⟨.slot place, part⟩ position) :
    Storage.Covers ⟨.slot base, size⟩ position := by
  have same := toInt_of_movedOffset (by omega) moved
  obtain ⟨low, high⟩ := Storage.covers_slot.mp covers
  exact Storage.covers_slot.mpr ⟨by omega, by omega⟩

theorem readable_operand {sure : Prop} {middle finish : Stream} {src : Storage}
    (operand : Operand trees src) : Readable sure trees middle finish src :=
  .inl operand

theorem readable_part {sure : Prop} {middle finish : Stream}
    (operand : Operand trees ⟨.slot base, size⟩)
    (moved : movedOffset base distance = .ok place) (inside : sure → distance + part ≤ size)
    (later : middle.used ≤ finish.used) :
    Readable sure trees middle finish ⟨.slot place, part⟩ := by
  refine .inr ⟨fun reg placed => (by cases placed), ?_⟩
  intro sure frame position covers
  have whole := covers_of_part moved (inside sure) (frame.size_le operand) covers
  obtain ⟨low, high⟩ := frame.covers _ operand position whole
  exact ⟨by omega, high⟩

end Parts

namespace Node

open Insn AtSite

variable {symbols : Symbols} {request : Request} {middle finish : Stream} {own : Storage}
  {sure : Prop} {type : Ty} {literal : List Ty → Ty → Prop} {info : Info}

theorem slot_of_storage {node : Node} {offset : Int16} {site finish : Site}
    (found : Yields (slotOfNode node) site offset finish) :
    node.storage = ⟨.slot offset, node.storage.size⟩ ∧ site = finish := by
  obtain ⟨placed, same⟩ := yields_slotOf_iff.mp found
  refine ⟨?_, same⟩
  rw [← placed]

theorem assigned_of_slot {storage : Storage} {offset : Int16}
    (same : storage = ⟨.slot offset, storage.size⟩) :
    storage.isAssigned = true := by
  rw [same]
  rfl

theorem finishes_read {trees : List Node} {stream : Stream} {chosen : Option Int16}
    (read : ReadBehind trees own stream finish) (extended : middle.Extends stream [])
    (owns : Owns type chosen middle stream own) :
    ∃ moves, Finishes sure type chosen trees middle finish own moves := by
  obtain ⟨srcs, code, moved, operands⟩ := read.moved
  exact ⟨_, .one extended owns moved fun src member => readable_operand (operands src member)⟩

/-- A dereference reads what its pointer points to, unless its parent does or
overwrites it. -/
theorem yields_deref {pointer : Node} (typed : (apply "u*" [pointer] info).type? = some type)
    (found : Yields ((apply "u*" [pointer] info).finishApplication symbols request) ⟨middle, {}⟩ ()
      ⟨finish, own⟩) :
    finish = middle ∧ own = {} ∨ ∃ stream, middle.Extends stream [] ∧
      Owns type request.slot middle stream own ∧
      (request.inFrame = true → ∀ reg, own.place ≠ .register reg) ∧
      if request.target then finish = stream else ReadBehind [pointer] own stream finish := by
  have found := finished_by rfl found
  simp only [Operator.emit, emitDeref] at found
  split at found
  · cases (yields_pure_iff.mp found).2
    exact .inl ⟨rfl, rfl⟩
  · obtain ⟨storage, ⟨stream, own'⟩, allocated, found⟩ := yields_bind_iff.mp found
    obtain ⟨same, extended, owns, framed⟩ := owns_of_allocateFor typed allocated
    obtain rfl : own' = storage := same
    split at found
    · rename_i target
      cases (yields_pure_iff.mp found).2
      exact .inr ⟨finish, extended, owns, framed, by rw [if_pos target]⟩
    · rename_i untargeted
      have first : (apply "u*" [pointer] info).argument 0 = .ok pointer := rfl
      simp only [first, yields_bind_iff, yields_liftExcept_iff, yields_lift_iff] at found
      obtain ⟨_, _, ⟨same, rfl⟩, _, _, ⟨_, loaded, rfl⟩, _, read, same'⟩ := found
      cases same
      cases same'
      obtain ⟨code, loads, rfl⟩ := Emit.loads_of_yields loaded
      refine .inr ⟨stream, extended, owns, framed, ?_⟩
      rw [if_neg untargeted]
      exact ⟨_, _, code, .value (.inl rfl) loads, operands_of_mem List.mem_cons_self, read⟩

theorem finishes_deref {pointer : Node} (typed : (apply "u*" [pointer] info).type? = some type)
    (inFrame : request.inFrame = true)
    (found : Yields ((apply "u*" [pointer] info).finishApplication symbols request) ⟨middle, {}⟩ ()
      ⟨finish, own⟩) :
    ∃ moves, Finishes sure type request.slot [pointer] middle finish own moves := by
  rcases yields_deref typed found with ⟨rfl, rfl⟩ | ⟨stream, extended, owns, framed, read⟩
  · exact ⟨[], .none (.refl finish) owns_unassigned fun reg placed => by cases placed⟩
  · split at read
    · subst read
      exact ⟨[], .none extended owns (framed inFrame)⟩
    · exact finishes_read read extended owns

/-- What a dot does once it has storage. -/
theorem yields_emitDot {base member : Node} {object : Ty} {name : String} {site : Site}
    (typed : (apply "." [base, member] info).type? = some type) (based : base.type? = some object)
    (named : member.str? = some name)
    (found : Yields (emitDot (apply "." [base, member] info) request) ⟨middle, {}⟩ () site) :
    ∃ own stream offset, object.offsetOf? name = some offset ∧ middle.Extends stream [] ∧
      Owns type request.slot middle stream own ∧
      Yields (if !base.storage.isAssigned && base.applies "u*" then readMember base own offset
        else takeMember base own offset) ⟨stream, own⟩ () site := by
  have first : (apply "." [base, member] info).argument 0 = .ok base := rfl
  have known : base.knownType = .ok object := knownType_eq_ok_iff.mpr based
  have second : (apply "." [base, member] info).memberName = .ok name := by
    simp [memberName, args, named]
  simp only [emitDot, yields_bind_iff, first, second, yields_liftExcept_iff] at found
  obtain ⟨storage, ⟨stream, own⟩, allocated, _, _, ⟨same, rfl⟩, _, _, ⟨same', rfl⟩, _, _,
    ⟨same'', rfl⟩, found⟩ := found
  cases same
  rw [known] at same'
  cases same'
  cases same''
  obtain ⟨same, extended, owns, -⟩ := owns_of_allocateFor typed allocated
  obtain rfl : own = storage := same
  split at found
  · exact absurd found not_yields_throw
  · rename_i offset placed
    exact ⟨own, stream, offset, placed, extended, owns, found⟩

theorem yields_readMember {base : Node} {trees : List Node} {storage : Storage}
    {offset : Nat} {stream : Stream} (member : base ∈ trees)
    (found : Yields (readMember base storage offset) ⟨stream, storage⟩ () ⟨finish, own⟩) :
    own = storage ∧ ReadBehind trees own stream finish := by
  unfold readMember at found
  split at found
  · exact absurd found not_yields_throw
  · rename_i pointer others arguments
    simp only [yields_bind_iff, yields_lift_iff] at found
    obtain ⟨_, _, ⟨_, loaded, rfl⟩, found⟩ := found
    obtain ⟨code, loads, rfl⟩ := Emit.loads_of_yields loaded
    have operands : ∀ src ∈ [pointer.storage], Operand trees src := by
      intro src among
      obtain rfl := List.mem_singleton.mp among
      exact operand_of_args member (arguments ▸ List.mem_cons_self)
    split at found
    · simp only [yields_bind_iff, yields_lift_iff, Emit.yields_insn_iff] at found
      obtain ⟨_, _, ⟨_, rfl, rfl⟩, _, read, same⟩ := found
      cases same
      rw [Emit.append_append] at read
      exact ⟨rfl, _, _, _, .moved _ loads, operands, read⟩
    · obtain ⟨_, read, same⟩ := yields_lift_iff.mp found
      cases same
      exact ⟨rfl, _, _, _, .value (.inr rfl) loads, operands, read⟩

/-- A member of a record in the frame is loaded if it has a register, and else read at
its place. -/
theorem yields_takeMember {base : Node} (trees : List Node) {storage : Storage}
    {offset : Nat} {stream : Stream}
    (found : Yields (takeMember base storage offset) ⟨stream, storage⟩ () ⟨finish, own⟩) :
    own = storage ∧ ((∃ start place reg width, base.storage = ⟨.slot start, base.storage.size⟩ ∧
        movedOffset start offset = .ok place ∧ own = ⟨.register reg, Width.bytes width⟩ ∧
        finish = stream.append [load width.bits reg .frame place]) ∨
      ReadBehind trees own stream finish) := by
  simp only [takeMember, yields_bind_iff, yields_liftExcept_iff] at found
  obtain ⟨start, _, sited, place, _, ⟨reached, rfl⟩, found⟩ := found
  obtain ⟨slot, rfl⟩ := slot_of_storage sited
  split at found
  · rename_i reg atRegister
    simp only [yields_bind_iff, yields_lift_iff, Emit.yields_accessWidth_iff,
      Emit.yields_insn_iff] at found
    obtain ⟨width, _, ⟨_, ⟨access, rfl⟩, rfl⟩, _, rfl, same⟩ := found
    cases same
    exact ⟨rfl,
      .inl ⟨start, place, reg, width, slot, reached, width_of_ofBytes? atRegister access, rfl⟩⟩
  · simp only [yields_bind_iff, yields_lift_iff, Emit.yields_code_iff] at found
    obtain ⟨_, _, ⟨_, rfl, rfl⟩, _, read, same⟩ := found
    cases same
    exact ⟨rfl, .inr ⟨_, _, _, .frame place, fun _ none => (by cases none), read⟩⟩

/-- A member behind a pointer, or one of a record in the frame. -/
theorem finishes_dot {base member : Node}
    (typed : (apply "." [base, member] info).type? = some type)
    (rule : Rule literal "." [base, member] type) (stored : base.Stored)
    (found : Yields ((apply "." [base, member] info).finishApplication symbols request) ⟨middle, {}⟩
      () ⟨finish, own⟩) :
    ∃ moves, Finishes sure type request.slot [base, member] middle finish own moves := by
  obtain ⟨shape, name, field, based, named, member?, rfl⟩ := rule.member rfl rfl
  have found := finished_by rfl found
  obtain ⟨own', stream, offset, placed, extended, owns, found⟩ :=
    yields_emitDot typed based named found
  split at found
  · obtain ⟨rfl, read⟩ := yields_readMember List.mem_cons_self found
    exact finishes_read read extended owns
  · obtain ⟨rfl, ⟨start, place, reg, width, slot, reached, whole, rfl⟩ | read⟩ :=
      yields_takeMember [base, member] found
    · have operand : Operand [base, member] ⟨.slot start, base.storage.size⟩ :=
        slot ▸ operand_of_mem List.mem_cons_self
      have sized : base.storage.size = (Ty.record shape).size :=
        stored.sized _ based (fun same => by cases same) (assigned_of_slot slot)
      have inside : sure → offset + width.bytes ≤ base.storage.size := by
        intro _
        have bound := Record.bounds_of_offsetOf? member? placed
        have wide := owns.sized (by rw [whole]; rfl)
        rw [whole] at wide
        rw [show width.bytes = field.type.size from wide, sized]
        exact bound
      have moved : stream.Moved (stream.append [load width.bits reg .frame place])
          [⟨some ⟨.register reg, width.bytes⟩, [⟨.slot place, width.bytes⟩],
            [load width.bits reg .frame place]⟩] :=
        Stream.moved_one (Stream.extends_append rfl) (.load width.bytes (.slot place width))
      rw [← whole] at moved
      refine ⟨_, .one extended owns moved ?_⟩
      intro src among
      obtain rfl := List.mem_singleton.mp among
      exact readable_part operand reached inside extended.used
    · exact finishes_read read extended owns

/-- The element of an array is copied from its distance in the array. -/
theorem copied_of_arrayElement {array index : Node} {storage : Storage} {stream : Stream}
    (found : Yields (emitArrayElement (apply "[]" [array, index] info) storage) ⟨stream, storage⟩ ()
      ⟨finish, own⟩) :
    ∃ position base place, index.num? = some position ∧
      array.storage = ⟨.slot base, array.storage.size⟩ ∧ own = storage ∧
      movedOffset base (position.toNat * storage.size) = .ok place ∧
      Yields (Emit.copyTo storage ⟨.slot place, storage.size⟩) stream () finish := by
  simp only [emitArrayElement, subscriptParts, args, yields_bind_iff, yields_pure_iff] at found
  obtain ⟨_, _, ⟨same, rfl⟩, found⟩ := found
  cases same
  simp only at found
  split at found
  · exact absurd found not_yields_throw
  · rename_i position number
    simp only [yields_bind_iff, yields_liftExcept_iff, yields_lift_iff, elementOffset_eq_ok_iff,
      Emit.yields_reach_iff] at found
    obtain ⟨base, _, sited, _, _, ⟨⟨-, rfl⟩, rfl⟩, place, _, ⟨reached, rfl⟩, _, _,
      ⟨_, ⟨-, rfl⟩, rfl⟩, _, copied, same⟩ := found
    obtain ⟨slot, rfl⟩ := slot_of_storage sited
    cases same
    exact ⟨position, base, place, number, slot, rfl, reached, copied⟩

/-- An element of an array in the frame.  It lies in the array if its type is the
element type and its index is in range. -/
theorem finishes_array {array index : Node} {arrayType : Ty} {storage : Storage} {stream : Stream}
    {chosen : Option Int16} (known : array.type? = some arrayType) (real : arrayType ≠ .void)
    (within : sure → ∀ position, index.num? = some position →
      position.toNat * type.size + type.size ≤ arrayType.size)
    (stored : array.Stored) (extended : middle.Extends stream [])
    (owns : Owns type chosen middle stream storage)
    (found : Yields (emitArrayElement (apply "[]" [array, index] info) storage) ⟨stream, storage⟩ ()
      ⟨finish, own⟩) :
    ∃ moves, Finishes sure type chosen [array, index] middle finish own moves := by
  obtain ⟨position, base, place, number, slot, rfl, reached, copied⟩ := copied_of_arrayElement found
  have equal : (⟨.slot place, own.size⟩ : Storage).size = own.size := rfl
  obtain ⟨code, moved⟩ := Emit.moved_copyTo equal copied
  have assigned := Emit.assigned_of_copyTo copied
  have sized : array.storage.size = arrayType.size :=
    stored.sized _ known real (assigned_of_slot slot)
  have operand : Operand [array, index] ⟨.slot base, array.storage.size⟩ :=
    slot ▸ operand_of_mem List.mem_cons_self
  refine ⟨_, .one extended owns moved ?_⟩
  intro src member
  obtain rfl := List.mem_singleton.mp member
  refine readable_part operand reached ?_ (Nat.le_trans extended.used moved.extended.used)
  intro sure
  rw [sized, owns.sized assigned]
  exact within sure position number

/-- An element behind a pointer is read at its distance from there. -/
theorem yields_pointerElement {pointer index : Node} {storage : Storage} {stream : Stream}
    (found : Yields (emitPointerElement (apply "[]" [pointer, index] info) storage)
      ⟨stream, storage⟩ () ⟨finish, own⟩) :
    own = storage ∧ ReadBehind [pointer, index] own stream finish := by
  have operands : ∀ src ∈ [pointer.storage], Operand [pointer, index] src :=
    operands_of_mem List.mem_cons_self
  simp only [emitPointerElement, subscriptParts, args, yields_bind_iff, yields_pure_iff,
    yields_lift_iff] at found
  obtain ⟨_, _, ⟨same, rfl⟩, _, _, ⟨_, loaded, rfl⟩, found⟩ := found
  cases same
  obtain ⟨code, loads, rfl⟩ := Emit.loads_of_yields loaded
  simp only at found
  split at found
  · split at found
    · exact absurd found not_yields_throw
    · split at found
      · simp only [yields_bind_iff, yields_lift_iff, Emit.yields_insn_iff] at found
        obtain ⟨_, _, ⟨_, rfl, rfl⟩, _, read, same⟩ := found
        cases same
        rw [Emit.append_append] at read
        exact ⟨rfl, _, _, _, .moved _ loads, operands, read⟩
      · obtain ⟨_, read, same⟩ := yields_lift_iff.mp found
        cases same
        exact ⟨rfl, _, _, _, .value (.inr rfl) loads, operands, read⟩
  · simp only [yields_bind_iff, yields_lift_iff, Emit.yields_insn_iff] at found
    obtain ⟨_, _, ⟨_, indexed, rfl⟩, _, _, ⟨_, rfl, rfl⟩, _, _, ⟨_, rfl, rfl⟩, _,
      read, same⟩ := found
    cases same
    obtain ⟨code', loads', rfl⟩ := Emit.loads_of_yields indexed
    simp only [Emit.append_append, List.append_assoc] at read
    refine ⟨rfl, _, _, _, .scaled _ loads loads', ?_, read⟩
    intro src member
    rcases List.mem_cons.mp member with rfl | last
    · exact operand_of_mem List.mem_cons_self
    · obtain rfl := List.mem_singleton.mp last
      exact operand_of_mem (List.mem_cons_of_mem _ List.mem_cons_self)

end Node

end TraceProbe
