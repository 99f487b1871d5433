import TraceProbe.Proofs.Emission.AuditedCalls
import TraceProbe.Proofs.Emission.Reserving

/-!
# Elements under audit

What is emitted for elements that are read, assigned to and removed.  An element
that is a target is not read, so its slot is written only once something is
assigned to it.
-/

namespace TraceProbe.Node

open Insn AtSite

variable {good : Helper → Facts → Prop} {written : Int → Prop} {symbols : Symbols}
  {slots : Int16 → Nat → Prop} {targets : Node → Prop} {request : Request}
  {stream middle finish : Stream} {own : Storage} {info : Info} {type : Ty}
  {literal : List Ty → Ty → Prop}

/-- An element of an array that has been written.  It may be where it is copied
to. -/
theorem audits_array {array index : Node} {storage : Storage} (fillable : own.Fillable)
    (held : array.storage.Fillable)
    (ready : ∀ position, array.storage.Covers position → written position)
    (within : ∀ position, index.num? = some position → storage.isAssigned = true →
      array.storage.isAssigned = true →
      position.toNat * storage.size + storage.size ≤ array.storage.size)
    (found : Yields (emitArrayElement (apply "[]" [array, index] info) storage) ⟨stream, storage⟩ ()
      ⟨finish, own⟩) : stream.Audits good written finish own.Covers := by
  obtain ⟨position, base, place, number, slot, rfl, reached, copied⟩ := copied_of_arrayElement found
  have sizes : (⟨.slot place, own.size⟩ : Storage).size = own.size := rfl
  refine Emit.audits_copyTo fillable sizes ?_ copied
  intro at' same covers
  -- A copy onto itself: the element is where its array is.
  have same : Place.slot place = own.place := same
  have assigned : own.isAssigned = true := by simp [Storage.isAssigned, ← same]
  have inside := within position number assigned (assigned_of_slot slot)
  rw [slot] at held
  have room := Emit.size_le_of_below held.slot
  obtain ⟨low, high⟩ := Storage.covers_slot.mp covers
  have start := toInt_of_movedOffset (by omega) reached
  refine ready at' ?_
  rw [slot]
  exact Storage.covers_slot.mpr ⟨by omega, by omega⟩

/-- An element of a map, an array or behind a pointer is put in its slot. -/
theorem audits_subscript {collection key : Node}
    (typed : (apply "[]" [collection, key] info).type? = some type)
    (rule : Rule literal "[]" [collection, key] type)
    (element : Element symbols slots written (apply "[]" [collection, key] info))
    (small : middle.limit ≤ 32767)
    (handed : ∀ offset size, middle.HandsOut finish offset size → slots offset size)
    (stored : collection.Stored) (held : collection.storage.Fillable) (fillable : own.Fillable)
    (ready : ∀ position, collection.storage.Covers position → written position)
    (found : Yields ((apply "[]" [collection, key] info).finishApplication symbols request)
      ⟨middle, {}⟩ () ⟨finish, own⟩) :
    middle.Audits (Facts.Agrees symbols slots targets) written finish fun position =>
      request.target = false ∧ own.Covers position := by
  obtain ⟨collectionType, storage, stream, known, extended, owns, -, found⟩ :=
    yields_subscript typed found
  cases collectionType with
  | map wanted value kind =>
      dsimp only at found
      split at found
      · rename_i target
        cases found
        refine (Stream.Audits.same (by rw [extended.code, List.append_nil])).weaken
          (fun _ none => none) ?_
        rintro position ⟨read, -⟩
        rw [target] at read
        cases read
      · obtain ⟨_, _, _, _, _, _, -, stored, -, -, -, -, same⟩ := emitLookup_code found
        obtain ⟨same', -⟩ := keyed_of_keySlot stored
        obtain rfl : own = storage := same.trans same'
        have handed' : ∀ offset size, stream.HandsOut finish offset size → slots offset size := by
          intro offset size hands
          exact handed offset size (hands.mono extended (.refl finish))
        refine Stream.Audits.later (.weaken ?_ (fun _ => id) fun _ => And.right) extended
        exact audits_lookup element (extended.limit ▸ small) handed' fillable found
  | array item length =>
      obtain ⟨-, found⟩ := found
      refine Stream.Audits.later ((audits_array fillable held ready ?_ found).weaken (fun _ => id)
        fun _ => And.right) extended
      intro position number assigned taken
      obtain ⟨_, _, same, -, items⟩ := rule.subscript rfl rfl
      rw [known] at same
      cases same
      obtain ⟨rfl, -, inside⟩ := items
      have less := inside position number
      rw [stored.sized _ known (fun same => by cases same) taken, owns.sized assigned, Ty.size,
        Nat.mul_comm type.size, ← Nat.succ_mul]
      exact Nat.mul_le_mul_right _ less
  | pointer target =>
      obtain ⟨-, read⟩ := yields_pointerElement found.2
      exact ((read.audits fillable).weaken (fun _ => id) fun _ => And.right).later extended
  | void | scalar _ | record _ | function _ => exact found.elim

/-- The slot of an assignment is written before the map is updated with it: the
value is there, or it is converted into it. -/
theorem audits_assign {target value : Node} (element : Element symbols slots written target)
    (small : middle.limit ≤ 32767)
    (handed : ∀ offset size, middle.HandsOut finish offset size → slots offset size)
    (among : targets target) (typed : target.type? = some type) {storage : Storage}
    (fillable : own.Fillable) (sized : storage.size = type.size)
    (stored : target.storage.isAssigned = true → target.storage = storage)
    (ready : ∀ position, value.storage.Covers position → written position)
    (found : Yields ((apply "=" [target, value] info).finishApplication symbols request)
      ⟨middle, storage⟩ () ⟨finish, own⟩) :
    middle.Audits (Facts.Agrees symbols slots targets) written finish own.Covers := by
  obtain ⟨between, converts, updated⟩ := yields_assign element.applies found
  obtain ⟨same, _, moved⟩ := moved_convert converts
  obtain ⟨_, _, place, _, -, keyed, placed, whole⟩ := emitUpdate_code updated
  obtain rfl : own = storage :=
    (congrArg Site.own whole).trans ((keyed_of_keySlot keyed).1.trans same)
  obtain rfl := stored (by simp [Storage.isAssigned, placed])
  have converted : middle.Audits (Facts.Agrees symbols slots targets) written between.stream
      target.storage.Covers :=
    audits_convert fillable (fun position _ => ready position) converts
  have stored : target.storage = ⟨.slot place, type.size⟩ := by rw [← placed, ← sized]
  have filled : ∀ position, Slot place type.size position → target.storage.Covers position := by
    rw [stored]
    intro _
    exact Storage.covers_slot.mpr
  have update : between.stream.Audits (Facts.Agrees symbols slots targets)
      (fun position => written position ∨ target.storage.Covers position) finish fun _ => False :=
    audits_update (element.mono fun _ => .inl) (moved.extended.limit ▸ small)
      (fun offset size hands => handed offset size (hands.mono moved.extended (.refl finish))) among
      typed stored
      (fun position inside => .inr (filled position inside)) updated
  exact (converted.append update).weaken (fun _ => id) fun _ => .inl

/-- What is removed is named by its key, and nothing is written. -/
theorem audits_delete {target : Node} (element : Element symbols slots written target)
    (small : middle.limit ≤ 32767)
    (handed : ∀ offset size, middle.HandsOut finish offset size → slots offset size)
    (found : Yields ((apply "delete" [target] info).finishApplication symbols request)
      ⟨middle, {}⟩ () ⟨finish, own⟩) :
    middle.Audits (Facts.Agrees symbols slots targets) written finish own.Covers := by
  have found := finished_by rfl found
  obtain ⟨_, _, _, -, keyed, same⟩ := emitDelete_code rfl found
  obtain rfl : own = {} := (congrArg Site.own same).trans (keyed_of_keySlot keyed).1
  exact (AtSite.audits_delete rfl element small handed found).weaken (fun _ => id) fun _ covers =>
    absurd covers Storage.not_covers_unassigned

end TraceProbe.Node
