import TraceProbe.Proofs.Emission.Trees
import TraceProbe.Proofs.Stream.Growth
import TraceProbe.Typing.Inference

/-!
# Values in the frame

The code of leaves and of map operators whose value is wanted in the frame.
Such a value is in the slot that its parent chose, or in a new one.
-/

namespace TraceProbe

/-- A request for the frame gets the slot that it names, or a new one. -/
def Request.Takes (request : Request) (stream : Stream) (size : Nat) (offset : Int16)
    (finish : Stream) : Prop :=
  match request.slot with
  | some chosen => offset = chosen ∧ finish = stream
  | none => stream.Reserves size offset finish

/-- A value in the frame: its slot is the chosen one, or one that was handed out
since. -/
structure Request.Places (request : Request) (stream : Stream) (size : Nat) (offset : Int16)
    (finish : Stream) : Prop where
  fits : finish.used ≤ finish.limit
  inside : Inside finish.used offset size
  chosen : ∀ slot, request.slot = some slot → offset = slot
  handed : request.slot = none → ∀ position, Slot offset size position →
    Handed stream finish position

namespace Request

variable {request : Request} {stream middle finish : Stream} {size : Nat} {offset : Int16}

theorem Takes.grows (takes : request.Takes stream size offset finish) :
    stream.Grows finish [] := by
  unfold Takes at takes
  split at takes
  · exact takes.2 ▸ .refl stream
  · exact takes.grows

theorem Takes.places (takes : request.Takes stream size offset finish)
    (fits : stream.used ≤ stream.limit)
    (room : ∀ slot, request.slot = some slot → Inside stream.used slot size) :
    request.Places stream size offset finish := by
  unfold Takes at takes
  split at takes
  · rename_i chosen known
    obtain ⟨rfl, rfl⟩ := takes
    refine ⟨fits, room _ known, ?_, ?_⟩
    · intro slot same
      rw [known] at same
      exact Option.some.inj same
    · intro none
      rw [known] at none
      cases none
  · rename_i none
    refine ⟨takes.fits, takes.inside, ?_, fun _ _ member => takes.handed member⟩
    intro slot same
    rw [none] at same
    cases same

theorem Places.grown {added : List Insn} (places : request.Places stream size offset middle)
    (grows : middle.Grows finish added) (fits : finish.used ≤ finish.limit) :
    request.Places stream size offset finish where
  fits := fits
  inside := places.inside.mono grows.used
  chosen := places.chosen
  handed none position member :=
    (places.handed none position member).mono (Nat.le_refl _) grows.used

theorem Places.later {earlier : Stream} (places : request.Places stream size offset finish)
    (before : earlier.used ≤ stream.used) : request.Places earlier size offset finish where
  fits := places.fits
  inside := places.inside
  chosen := places.chosen
  handed none position member :=
    (places.handed none position member).mono before (Nat.le_refl _)

end Request

namespace AtSite

variable {symbols : Symbols} {request : Request} {stream : Stream} {finish : Site} {type : Ty}
  {storage : Storage}

/-- A value in the frame that takes no room may be left without a place. -/
theorem allocate_inFrame (small : stream.limit ≤ 32767) (inFrame : request.inFrame = true)
    (found : Yields (allocate type request) ⟨stream, {}⟩ storage finish) :
    finish = ⟨finish.stream, storage⟩ ∧
      (storage = ⟨.unassigned, type.size⟩ ∧ request.slot = none ∧ finish.stream = stream ∨
        ∃ offset, storage = ⟨.slot offset, type.size⟩ ∧
          request.Takes stream type.size offset finish.stream) := by
  have free : Storage.isAssigned {} = false := rfl
  rw [yields_allocate_iff] at found
  simp only [free, Bool.false_eq_true, if_false] at found
  obtain ⟨place, middle, fresh, rfl, rfl⟩ := found
  refine ⟨rfl, ?_⟩
  rw [yields_freshPlace_iff] at fresh
  unfold Request.Takes
  cases slot : request.slot with
  | some chosen =>
      rw [slot] at fresh
      obtain ⟨rfl, rfl⟩ := fresh
      exact .inr ⟨chosen, rfl, rfl, rfl⟩
  | none =>
      simp only [slot, inFrame, Bool.not_true, Bool.and_false, Bool.false_eq_true, if_false]
        at fresh
      split at fresh
      · obtain ⟨offset, reserved, rfl⟩ := fresh
        exact .inr ⟨offset, rfl, Stream.reserves_of_freshSlot small reserved⟩
      · obtain ⟨rfl, rfl⟩ := fresh
        exact .inl ⟨rfl, rfl, rfl⟩

variable {own : Storage} {after : Stream}

@[simp] theorem length_paddedBytes (value : String) (size : Nat) :
    (paddedBytes value size).length = size := by
  unfold paddedBytes
  simp only [List.length_append, List.length_take, List.length_replicate]
  omega

theorem length_toList_loop (bytes : ByteArray) (index : Nat) (before : List UInt8) :
    (ByteArray.toList.loop bytes index before).length = bytes.size - index + before.length := by
  induction left : bytes.size - index generalizing index before with
  | zero =>
      rw [ByteArray.toList.loop, if_neg (by omega), List.length_reverse, Nat.zero_add]
  | succ left ih =>
      rw [ByteArray.toList.loop, if_pos (by omega), ih _ _ (by omega), List.length_cons]
      omega

theorem length_toList (bytes : ByteArray) : bytes.toList.length = bytes.size := by
  rw [ByteArray.toList, length_toList_loop]
  simp

theorem paddedBytes_literalType (value : String) :
    paddedBytes value (Node.literalType value).size = value.toUTF8.toList ++ [0] := by
  have length : value.toUTF8.toList.length = value.utf8ByteSize := by
    rw [length_toList]
    simp
  simp only [paddedBytes, Node.size_literalType]
  rw [List.take_of_length_le (by omega), length]
  simp

theorem leaf_number {value : UInt64} {unsigned : Bool} {loc : Loc} (small : stream.limit ≤ 32767)
    (inFrame : request.inFrame = true)
    (found : Yields (leaf symbols (.num value unsigned { type := some type, loc := loc }) request)
      ⟨stream, {}⟩ () ⟨after, own⟩) :
    ∃ offset middle width, own = ⟨.slot offset, type.size⟩ ∧
      request.Takes stream type.size offset middle ∧ Width.ofBytes? type.size = some width ∧
      after = middle.append (Emit.constantCode width offset value) := by
  have real : (Node.num value unsigned { type := some type, loc := loc }).isVirtual = false := rfl
  simp only [leaf, real, Bool.false_eq_true, if_false, yields_bind_iff, yields_allocateFor_iff]
    at found
  obtain ⟨storage, ⟨middle, own'⟩, ⟨_, known, allocated⟩, stored⟩ := found
  cases known
  obtain ⟨same, places⟩ := allocate_inFrame small inFrame allocated
  cases same
  rw [yields_lift_iff] at stored
  obtain ⟨last, stored, same⟩ := stored
  cases same
  rcases places with ⟨rfl, -⟩ | ⟨offset, rfl, takes⟩
  · exact absurd stored Emit.not_yields_constant_unassigned
  · obtain ⟨width, known, rfl⟩ := Emit.yields_constant_slot_iff.mp stored
    exact ⟨offset, middle, width, rfl, takes, known, rfl⟩

theorem leaf_text {value : String} {loc : Loc} (small : stream.limit ≤ 32767)
    (found : Yields (leaf symbols (.str value { type := some type, loc := loc }) request)
      ⟨stream, {}⟩ () ⟨after, own⟩) :
    ∃ offset middle, own = ⟨.slot offset, type.size⟩ ∧
      request.Takes stream type.size offset middle ∧
      after = middle.append (Block.fill offset (paddedBytes value type.size)) := by
  have real : (Node.str value { type := some type, loc := loc }).isVirtual = false := rfl
  simp only [leaf, real, Bool.false_eq_true, if_false, yields_bind_iff, yields_allocateFor_iff,
    yields_slotOf_iff, yields_lift_iff, Emit.yields_fill_iff] at found
  obtain ⟨storage, ⟨middle, own'⟩, ⟨_, known, allocated⟩, offset, _, ⟨placed, rfl⟩, last, ⟨-, rfl⟩,
    same⟩ := found
  cases known
  obtain ⟨same', places⟩ := allocate_inFrame small rfl allocated
  cases same'
  cases same
  rcases places with ⟨rfl, -⟩ | ⟨place, rfl, takes⟩
  · cases placed
  · cases placed
    exact ⟨offset, middle, rfl, takes, rfl⟩

/-- The code that loads a context variable into a slot. -/
def contextCode (slot : Int16) (size : Nat) (offset : Int16) : List Insn :=
  match Width.ofBytes? size with
  | some width => [.load width.bits .r0 .context offset, .store width.bits .frame .r0 slot]
  | none =>
      .move .r3 .context :: .alu64Imm Opcode.add .r3 (Int32.ofInt offset.toInt) ::
        Emit.readCode slot size .r3

theorem leaf_context {name : String} {loc : Loc} {symbol : Symbol} {offset : Int16}
    (small : stream.limit ≤ 32767) (inFrame : request.inFrame = true)
    (known : symbols.get? name = some symbol) (kind : symbol.kind = .context offset)
    (found : Yields (leaf symbols (.ident name { type := some type, loc := loc }) request)
      ⟨stream, {}⟩ () ⟨after, own⟩) :
    ∃ slot middle, own = ⟨.slot slot, type.size⟩ ∧ request.Takes stream type.size slot middle ∧
      after = middle.append (contextCode slot type.size offset) := by
  have real : (Node.ident name { type := some type, loc := loc }).isVirtual = false := rfl
  simp only [leaf, real, Bool.false_eq_true, if_false, known, kind, yields_bind_iff,
    yields_allocateFor_iff] at found
  obtain ⟨storage, ⟨middle, own'⟩, ⟨_, typed, allocated⟩, loaded⟩ := found
  cases typed
  obtain ⟨same, places⟩ := allocate_inFrame small inFrame allocated
  cases same
  unfold loadContext at loaded
  rcases places with ⟨rfl, -⟩ | ⟨slot, rfl, takes⟩
  · simp only [not_yields_throw] at loaded
  · refine ⟨slot, middle, ?_⟩
    unfold contextCode
    cases width : Width.ofBytes? type.size with
    | some width =>
        simp only [width, yields_bind_iff, yields_lift_iff, Emit.yields_insn_iff,
          Emit.yields_storeReg_slot_iff] at loaded
        obtain ⟨_, _, ⟨_, rfl, rfl⟩, _, ⟨_, same, rfl⟩, final⟩ := loaded
        cases final
        cases same
        exact ⟨rfl, takes, Emit.append_append _ _ _⟩
    | none =>
        simp only [width, yields_bind_iff, yields_lift_iff, Emit.yields_insn_iff,
          Emit.yields_readFrom_iff] at loaded
        obtain ⟨_, _, ⟨_, rfl, rfl⟩, _, _, ⟨_, rfl, rfl⟩, _, ⟨_, place, rfl⟩, final⟩ := loaded
        cases final
        cases place
        refine ⟨rfl, takes, ?_⟩
        rw [Emit.append_append, Emit.append_append]
        rfl

/-- A map has no code of its own. -/
theorem leaf_map {name : String} {info : Info} {symbol : Symbol} {number : Nat}
    (real : info.isVirtual = false) (known : symbols.get? name = some symbol)
    (kind : symbol.kind = .map number)
    (found : Yields (leaf symbols (.ident name info) request) ⟨stream, own⟩ () finish) :
    finish = ⟨stream, own⟩ := by
  have real : (Node.ident name info).isVirtual = false := real
  simp only [leaf, real, Bool.false_eq_true, if_false, known, kind, yields_pure_iff] at found
  exact found.2.symm

end AtSite

end TraceProbe
