import TraceProbe.Proofs.Emission.Keys

/-!
# Subscripts and assignments

What is appended for subscripts of maps, arrays and pointers, for the removal of
a key and for an assignment, once the arguments are stored.
-/

namespace TraceProbe.Node

open Insn AtSite

variable {symbols : Symbols} {request : Request} {middle finish : Stream} {own : Storage}
  {sure : Prop} {type : Ty} {literal : List Ty → Ty → Prop} {info : Info}

/-- A read of an element, behind its key. -/
theorem finishes_lookup {map key : Node} {storage : Storage} {stream : Stream}
    {chosen : Option Int16} (extended : middle.Extends stream [])
    (owns : Owns type chosen middle stream storage)
    (found : Yields (emitLookup symbols (apply "[]" [map, key] info) storage) ⟨stream, storage⟩ ()
      ⟨finish, own⟩) :
    ∃ moves, Finishes sure type chosen [map, key] middle finish own moves := by
  obtain ⟨number, slot, between, offset, miss, hit, -, stored, placed, different, grows, -, same⟩ :=
    emitLookup_code found
  obtain ⟨same', _, _, keySize, moves, arguments, keyed⟩ := keyed_of_keySlot stored
  cases arguments
  obtain rfl : own = storage := same.trans same'
  have equal : own = ⟨.slot offset, own.size⟩ := by rw [← placed]
  have looked : between.stream.Moved finish [⟨some own, [⟨.slot slot, keySize⟩],
      lookupCode number slot offset own.size miss hit⟩] := by
    rw [equal]
    exact Stream.moved_one grows.toExtends (.lookup number slot keySize offset own.size different)
  have moved := keyed.moved.trans looked
  have operand : Operand [map, key] key.storage :=
    operand_of_mem (List.mem_cons_of_mem _ List.mem_cons_self)
  refine ⟨_, moved.later extended, owns.grown moved.extended, ?_, ?_, ?_⟩
  · intro move member src among
    rcases List.mem_append.mp member with first | last
    · exact keyed.reads operand move first src among
    · obtain rfl := List.mem_singleton.mp last
      obtain rfl := List.mem_singleton.mp among
      exact keyed.readable operand extended looked.extended
  · intro move member dst filled
    rcases List.mem_append.mp member with first | last
    · exact .inr (keyed.writes extended looked.extended move first dst filled)
    · obtain rfl := List.mem_singleton.mp last
      exact .inl (Option.some.inj filled).symm
  · intro reg atRegister
    rw [placed] at atRegister
    cases atRegister

/-- A subscript gets storage and then its element, unless it is a target: that is
an element of a map, which is not read. -/
theorem yields_subscript {collection key : Node} {site : Site}
    (typed : (apply "[]" [collection, key] info).type? = some type)
    (found : Yields ((apply "[]" [collection, key] info).finishApplication symbols request)
      ⟨middle, {}⟩ () site) :
    ∃ collectionType storage stream, collection.type? = some collectionType ∧
      middle.Extends stream [] ∧ Owns type request.slot middle stream storage ∧
      (request.inFrame = true → ∀ reg, storage.place ≠ .register reg) ∧
      match collectionType with
      | .map _ _ _ =>
          if request.target then site = ⟨stream, storage⟩
          else Yields (emitLookup symbols (apply "[]" [collection, key] info) storage)
              ⟨stream, storage⟩ () site
      | .array _ _ => request.target = false ∧
          Yields (emitArrayElement (apply "[]" [collection, key] info) storage)
          ⟨stream, storage⟩ () site
      | .pointer _ => request.target = false ∧
          Yields (emitPointerElement (apply "[]" [collection, key] info) storage)
          ⟨stream, storage⟩ () site
      | _ => False := by
  have found := finished_by rfl found
  have first : (apply "[]" [collection, key] info).argument 0 = .ok collection := rfl
  simp only [Operator.emit, emitSubscript, first, yields_bind_iff, yields_liftExcept_iff] at found
  obtain ⟨_, _, ⟨same, rfl⟩, collectionType, _, ⟨known, rfl⟩, found⟩ := found
  cases same
  have known := knownType_eq_ok_iff.mp known
  split at found
  · simp only [yields_bind_iff, not_yields_throw, false_and, exists_false] at found
  · rename_i allowed
    have untargeted (other : collectionType.isMap = false) : request.target = false := by
      cases target : request.target with
      | false => rfl
      | true => exact absurd (by simp [target, other]) allowed
    cases collectionType with
    | void | scalar _ | record _ | function _ => exact absurd found not_yields_throw
    | map _ _ _ | array _ _ | pointer _ =>
        simp only [yields_bind_iff] at found
        obtain ⟨storage, ⟨stream, own'⟩, allocated, found⟩ := found
        obtain ⟨same, extended, owns, framed⟩ := owns_of_allocateFor typed allocated
        obtain rfl : own' = storage := same
        refine ⟨_, own', stream, known, extended, owns, framed, ?_⟩
        first
        | exact ⟨untargeted rfl, found⟩
        | split at found
          · rename_i read
            simpa [show request.target = false by simpa using read] using found
          · rename_i target
            rw [if_pos (by simpa using target)]
            exact (yields_pure_iff.mp found).2.symm

/-- A subscript that is a target appends nothing. -/
theorem finishes_subscript {collection key : Node}
    (typed : (apply "[]" [collection, key] info).type? = some type)
    (rule : sure → Rule literal "[]" [collection, key] type) (stored : collection.Stored)
    (inFrame : ∀ wanted value kind, collection.type? = some (.map wanted value kind) →
      request.inFrame = true)
    (found : Yields ((apply "[]" [collection, key] info).finishApplication symbols request)
      ⟨middle, {}⟩ () ⟨finish, own⟩) :
    ∃ moves, Finishes sure type request.slot [collection, key] middle finish own moves ∧
      (request.target = true → moves = []) := by
  obtain ⟨collectionType, storage, stream, known, extended, owns, framed, found⟩ :=
    yields_subscript typed found
  cases collectionType with
  | map wanted value kind =>
      dsimp only at found
      split at found
      · cases found
        exact ⟨[], .none extended owns (framed (inFrame _ _ _ known)), fun _ => rfl⟩
      · rename_i read
        obtain ⟨moves, finishes⟩ := finishes_lookup extended owns found
        exact ⟨moves, finishes, fun target => absurd target read⟩
  | array element length =>
      obtain ⟨untargeted, found⟩ := found
      have within : sure → ∀ position, key.num? = some position →
          position.toNat * type.size + type.size ≤ (Ty.array element length).size := by
        intro sure position number
        obtain ⟨_, _, same, -, elements⟩ := (rule sure).subscript rfl rfl
        rw [known] at same
        cases same
        obtain ⟨rfl, -, inside⟩ := elements
        have less := inside position number
        rw [Ty.size, Nat.mul_comm type.size, ← Nat.succ_mul]
        exact Nat.mul_le_mul_right _ less
      obtain ⟨moves, finishes⟩ := finishes_array known (fun same => by cases same) within stored
        extended owns found
      exact ⟨moves, finishes, fun target => by simp [target] at untargeted⟩
  | pointer target =>
      obtain ⟨untargeted, found⟩ := found
      obtain ⟨rfl, read⟩ := yields_pointerElement found
      obtain ⟨moves, finishes⟩ := finishes_read read extended owns
      exact ⟨moves, finishes, fun target => by simp [target] at untargeted⟩
  | void | scalar _ | record _ | function _ => exact found.elim

theorem finishes_delete {target : Node}
    (found : Yields ((apply "delete" [target] info).finishApplication symbols request) ⟨middle, {}⟩
      () ⟨finish, own⟩) :
    ∃ moves, Finishes sure type request.slot [target] middle finish own moves := by
  have found := finished_by rfl found
  obtain ⟨number, slot, between, -, keyed, rest⟩ := emitDelete_code rfl found
  obtain ⟨same, map, key, keySize, moves, arguments, keyed⟩ := keyed_of_keySlot keyed
  rw [same] at rest
  cases rest
  have removed : between.stream.Moved (between.stream.append (deleteCode number slot))
      [⟨none, [⟨.slot slot, keySize⟩], deleteCode number slot⟩] :=
    Stream.moved_one (Stream.extends_append rfl) (.delete number slot keySize)
  have operand : Operand [target] key.storage := by
    refine operand_of_args List.mem_cons_self ?_
    rw [arguments]
    exact List.mem_cons_of_mem _ List.mem_cons_self
  refine ⟨_, keyed.moved.trans removed, owns_unassigned, ?_, ?_, fun reg placed => by cases placed⟩
  · intro move member src among
    rcases List.mem_append.mp member with first | last
    · exact keyed.reads operand move first src among
    · obtain rfl := List.mem_singleton.mp last
      obtain rfl := List.mem_singleton.mp among
      exact keyed.readable operand (.refl middle) removed.extended
  · intro move member dst filled
    rcases List.mem_append.mp member with first | last
    · exact .inr (keyed.writes (.refl middle) removed.extended move first dst filled)
    · obtain rfl := List.mem_singleton.mp last
      cases filled

end TraceProbe.Node
