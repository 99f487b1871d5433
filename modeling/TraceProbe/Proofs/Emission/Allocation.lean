import TraceProbe.Proofs.Emission.Pieces

/-!
# Allocated storage

Where the value of an operator is put: in the slot that the parent chose, in a
new virtual register, in a new slot, or nowhere if it takes no room.
-/

namespace TraceProbe

/-- The positions of the frame that a storage takes. -/
def Storage.Covers (storage : Storage) (position : Int) : Prop :=
  ∃ offset, storage.place = .slot offset ∧ Slot offset storage.size position

/-- The positions of a chosen slot, if there is one. -/
def Chosen (chosen : Option Int16) (size : Nat) (position : Int) : Prop :=
  ∃ offset, chosen = some offset ∧ Slot offset size position

/-- The storage of a value of a type, allocated between two streams unless the
parent chose its slot.  Storage that takes no room may have no place. -/
structure Owns (type : Ty) (chosen : Option Int16) (stream finish : Stream) (own : Storage) :
    Prop where
  sized : own.isAssigned = true → own.size = type.size
  positive : chosen = none → own.isAssigned = true → 0 < own.size
  obeyed : ∀ offset, chosen = some offset → own.isAssigned = true → own.place = .slot offset
  register : ∀ reg, own.place = .register reg →
    ∃ number, reg = .virtual number ∧ stream.nextReg ≤ number ∧ number < finish.nextReg
  covers : stream.limit ≤ 32767 → ∀ position, own.Covers position →
    Handed stream finish position ∨ Chosen chosen own.size position
  reserved : chosen = none → ∀ offset, own.place = .slot offset →
    stream.HandsOut finish offset own.size

variable {type : Ty} {chosen : Option Int16} {stream middle finish : Stream} {own : Storage}

theorem Storage.not_covers_unassigned {size : Nat} {position : Int} :
    ¬ Covers ⟨.unassigned, size⟩ position := by
  rintro ⟨offset, placed, -⟩
  cases placed

theorem Storage.not_covers_register {reg : Reg} {size : Nat} {position : Int} :
    ¬ Covers ⟨.register reg, size⟩ position := by
  rintro ⟨offset, placed, -⟩
  cases placed

theorem Storage.covers_slot {offset : Int16} {size : Nat} {position : Int} :
    Covers ⟨.slot offset, size⟩ position ↔ Slot offset size position := by
  constructor
  · rintro ⟨place, placed, inside⟩
    cases placed
    exact inside
  · intro inside
    exact ⟨offset, rfl, inside⟩

theorem Storage.size_le {base : Int16} {size limit : Nat}
    (inside : ∀ position, Covers ⟨.slot base, size⟩ position →
      -(limit : Int) ≤ position ∧ position < 0) : size ≤ limit := by
  rcases Nat.eq_zero_or_pos size with rfl | some
  · exact Nat.zero_le _
  · have first := (inside base.toInt (covers_slot.mpr ⟨Int.le_refl _, by omega⟩)).1
    have last := (inside (base.toInt + size - 1) (covers_slot.mpr ⟨by omega, by omega⟩)).2
    omega

theorem owns_unassigned {size : Nat} : Owns type chosen stream finish ⟨.unassigned, size⟩ where
  sized assigned := by cases assigned
  positive _ assigned := by cases assigned
  obeyed _ _ assigned := by cases assigned
  register _ placed := by cases placed
  covers _ _ covers := absurd covers Storage.not_covers_unassigned
  reserved _ _ placed := by cases placed

theorem Owns.grown (owns : Owns type chosen stream middle own) {added : List Insn}
    (extended : middle.Extends finish added) : Owns type chosen stream finish own := by
  exact
    { owns with
      register := by
        intro reg placed
        obtain ⟨number, same, low, high⟩ := owns.register reg placed
        exact ⟨number, same, low, Nat.lt_of_lt_of_le high extended.regs⟩
      covers := by
        intro small position covers
        exact (owns.covers small position covers).imp_left (·.mono (Nat.le_refl _) extended.used)
      reserved := by
        intro none offset placed
        exact (owns.reserved none offset placed).mono (.refl stream) extended }

theorem Ty.size_pos_of_isWord (word : type.isWord = true) : 0 < type.size := by
  cases type with
  | scalar kind =>
      rw [Ty.size]
      cases kind <;> decide
  | pointer _ =>
      rw [Ty.size]
      decide
  | _ => cases word

theorem Stream.handed_of_freshSlot {size alignment : Nat} {offset : Int16}
    (small : stream.limit ≤ 32767)
    (found : Yields (Emit.freshSlot size alignment) stream offset finish)
    {position : Int} (covers : Storage.Covers ⟨.slot offset, size⟩ position) :
    Handed stream finish position := by
  have reserves := Stream.reserves_of_freshSlot small found
  exact reserves.handed (Storage.covers_slot.mp covers)

theorem owns_chosen (offset : Int16) :
    Owns type (some offset) stream finish ⟨.slot offset, type.size⟩ where
  sized _ := rfl
  positive none := by cases none
  obeyed _ same _ := by
    cases same
    rfl
  register _ placed := by cases placed
  covers _ _ covers := .inr ⟨offset, rfl, Storage.covers_slot.mp covers⟩
  reserved none := by cases none

theorem owns_register (word : type.isWord = true) :
    Owns type none stream { stream with nextReg := stream.nextReg + 1 }
      ⟨.register (.virtual stream.nextReg), type.size⟩ where
  sized _ := rfl
  positive _ _ := Ty.size_pos_of_isWord word
  obeyed _ same := by cases same
  register _ placed := by
    cases placed
    exact ⟨stream.nextReg, rfl, Nat.le_refl _, Nat.lt_succ_self _⟩
  covers _ _ covers := absurd covers Storage.not_covers_register
  reserved _ _ placed := by cases placed

theorem owns_reserved {offset : Int16} (some : 0 < type.size)
    (reserved : Yields (Emit.freshSlot type.size type.align) stream offset finish) :
    Owns type none stream finish ⟨.slot offset, type.size⟩ where
  sized _ := rfl
  positive _ _ := some
  obeyed _ same := by cases same
  register _ placed := by cases placed
  covers small _ covers := .inl (Stream.handed_of_freshSlot small reserved covers)
  reserved _ _ placed := by
    cases placed
    exact Stream.handsOut_of_freshSlot reserved

theorem owns_of_allocate {request : Request} {storage : Storage} {site : Site}
    (found : Yields (AtSite.allocate type request) ⟨stream, {}⟩ storage site) :
    site.own = storage ∧ stream.Extends site.stream [] ∧
      Owns type request.slot stream site.stream storage ∧
      (request.inFrame = true → ∀ reg, storage.place ≠ .register reg) := by
  have free : Storage.isAssigned {} = false := rfl
  rw [AtSite.yields_allocate_iff] at found
  simp only [free, Bool.false_eq_true, if_false] at found
  obtain ⟨place, middle, fresh, rfl, rfl⟩ := found
  refine ⟨rfl, ?_⟩
  rw [AtSite.yields_freshPlace_iff] at fresh
  cases slot : request.slot with
  | some offset =>
      rw [slot] at fresh
      obtain ⟨rfl, rfl⟩ := fresh
      exact ⟨.refl stream, owns_chosen offset, fun _ _ placed => by cases placed⟩
  | none =>
      rw [slot] at fresh
      simp only at fresh
      split at fresh
      · rename_i word
        obtain ⟨rfl, rfl⟩ := fresh
        rw [Bool.and_eq_true_iff] at word
        refine ⟨Stream.extends_freshReg, owns_register word.1, ?_⟩
        intro inFrame
        simp [inFrame] at word
      · split at fresh
        · rename_i some
          obtain ⟨offset, reserved, rfl⟩ := fresh
          exact ⟨Stream.extends_freshSlot reserved, owns_reserved some reserved,
            fun _ _ placed => by cases placed⟩
        · obtain ⟨rfl, rfl⟩ := fresh
          exact ⟨.refl stream, owns_unassigned, fun _ _ placed => (by cases placed)⟩

theorem owns_of_allocateFor {node : Node} {request : Request} {storage : Storage} {site : Site}
    (typed : node.type? = some type)
    (found : Yields (AtSite.allocateFor node request) ⟨stream, {}⟩ storage site) :
    site.own = storage ∧ stream.Extends site.stream [] ∧
      Owns type request.slot stream site.stream storage ∧
      (request.inFrame = true → ∀ reg, storage.place ≠ .register reg) := by
  obtain ⟨known, same, allocated⟩ := AtSite.yields_allocateFor_iff.mp found
  rw [typed] at same
  cases same
  exact owns_of_allocate allocated

end TraceProbe
