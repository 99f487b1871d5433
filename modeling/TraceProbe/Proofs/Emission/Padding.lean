import TraceProbe.Proofs.Emission.Reserving
import TraceProbe.Proofs.Machine.Blocks

/-!
# Padding of struct literals

Before its arguments, a struct literal clears the bytes of its slot that belong
to no member: those in front of each member and those behind the last one.
Clearing more bytes leaves zeros where there were any.
-/

namespace TraceProbe

open Symbolic

/-- A byte of a record that belongs to no member. -/
structure Record.Gap (shape : Record) (distance : Nat) : Prop where
  inside : distance < (Ty.record shape).size
  apart : ∀ field offset, (field, offset) ∈ shape.fields.zip shape.offsets →
    ¬ (offset ≤ distance ∧ distance < offset + field.type.size)

/-- Some positions of the frame hold zeros now, and every other position holds a
zero or what it held before. -/
structure Machine.Zeroes {World : Type} (machine : Machine World) (region : Int → Prop)
    (finish : Machine World) : Prop where
  inside : ∀ position, region position → -0x8000 ≤ position ∧ position < 0
  frame : finish.regs .frame = machine.regs .frame
  zero : ∀ position, region position → finish.cell position = 0
  kept : ∀ position, -0x8000 ≤ position → position < 0 →
    finish.cell position = 0 ∨ finish.cell position = machine.cell position

namespace Machine.Zeroes

variable {World : Type} {machine middle finish : Machine World} {region other : Int → Prop}

theorem nil (machine : Machine World) : machine.Zeroes (fun _ => False) machine where
  inside _ none := none.elim
  frame := rfl
  zero _ none := none.elim
  kept _ _ _ := .inr rfl

theorem append (first : machine.Zeroes region middle) (second : middle.Zeroes other finish) :
    machine.Zeroes (fun position => region position ∨ other position) finish := by
  refine ⟨fun position => Or.rec (first.inside position) (second.inside position),
    second.frame.trans first.frame, ?_, ?_⟩
  · intro position member
    rcases member with early | late
    · obtain ⟨low, high⟩ := first.inside position early
      rcases second.kept position low high with zero | same
      · exact zero
      · exact same.trans (first.zero position early)
    · exact second.zero position late
  · intro position low high
    rcases second.kept position low high with zero | same
    · exact .inl zero
    · exact (first.kept position low high).imp same.trans same.trans

theorem mono (zeroes : machine.Zeroes region finish)
    (sub : ∀ position, other position → region position) : machine.Zeroes other finish where
  inside position member := zeroes.inside position (sub position member)
  frame := zeroes.frame
  zero position member := zeroes.zero position (sub position member)
  kept := zeroes.kept

end Machine.Zeroes

theorem Block.zeroes_clear {World : Type} (env : Environment World) (machine : Machine World)
    {offset : Int16} {size : Nat} (high : offset.toInt + size ≤ 0) :
    ∃ finish, Runs env (clear offset size) machine finish ∧
      machine.Zeroes (Slot offset size) finish := by
  have low := offset.le_toInt
  obtain ⟨finish, runs, wrote⟩ := runs_clear env machine high
  have cell {position : Int} (deep : -0x8000 ≤ position) (negative : position < 0) :
      finish.cell position = if offset.toInt ≤ position then
        ((List.replicate size 0)[(position - offset.toInt).toNat]?).getD (machine.cell position)
      else machine.cell position := by
    rw [Machine.cell, wrote.frame, wrote.memory]
    exact Memory.byte_write_position _ _ ⟨by omega, by omega⟩ (by rw [List.length_replicate]; omega)
  refine ⟨finish, runs, ⟨?_, wrote.frame, ?_, ?_⟩⟩
  · intro position inside
    obtain ⟨start, stop⟩ := inside
    exact ⟨by omega, by omega⟩
  · intro position inside
    obtain ⟨start, stop⟩ := inside
    rw [cell (by omega) (by omega), if_pos start, List.getElem?_replicate, if_pos (by omega)]
    rfl
  · intro position deep negative
    rw [cell deep negative, List.getElem?_replicate]
    split
    · split
      · exact .inl rfl
      · exact .inr rfl
    · exact .inr rfl

/-- The code between two streams clears slots below the frame pointer, which take
up a region. -/
def Stream.Cleared (stream finish : Stream) (region : Int → Prop) : Prop :=
  ∃ slots : List (Int16 × Nat),
    finish.code = stream.code ++ slots.flatMap (fun slot => Block.clear slot.1 slot.2) ∧
    (∀ slot ∈ slots, slot.1.toInt + slot.2 ≤ 0) ∧
    ∀ position, region position → ∃ slot ∈ slots, Slot slot.1 slot.2 position

namespace Stream.Cleared

variable {stream middle finish : Stream} {region other : Int → Prop}

theorem same (code : finish.code = stream.code) : stream.Cleared finish fun _ => False := by
  refine ⟨[], ?_, ?_, ?_⟩
  · rw [code, List.flatMap_nil, List.append_nil]
  · intro slot member
    cases member
  · intro position none
    exact none.elim

theorem trans (first : stream.Cleared middle region) (second : middle.Cleared finish other) :
    stream.Cleared finish fun position => region position ∨ other position := by
  obtain ⟨early, code, below, covered⟩ := first
  obtain ⟨late, code', below', covered'⟩ := second
  refine ⟨early ++ late, ?_, ?_, ?_⟩
  · rw [code', code, List.append_assoc, List.flatMap_append]
  · intro slot member
    exact (List.mem_append.mp member).elim (below slot) (below' slot)
  · intro position inside
    rcases inside with inside | inside
    · obtain ⟨slot, member, there⟩ := covered position inside
      exact ⟨slot, List.mem_append_left _ member, there⟩
    · obtain ⟨slot, member, there⟩ := covered' position inside
      exact ⟨slot, List.mem_append_right _ member, there⟩

theorem mono (cleared : stream.Cleared finish region)
    (sub : ∀ position, other position → region position) : stream.Cleared finish other := by
  obtain ⟨slots, code, below, covered⟩ := cleared
  exact ⟨slots, code, below, fun position inside => covered position (sub position inside)⟩

theorem zeroes (cleared : stream.Cleared finish region) :
    ∃ added, finish.code = stream.code ++ added ∧
      ∀ {World : Type} (env : Environment World) (machine : Machine World),
        ∃ last, Runs env added machine last ∧ machine.Zeroes region last := by
  obtain ⟨slots, code, below, covered⟩ := cleared
  refine ⟨_, code, fun {World} env machine => ?_⟩
  suffices ∃ last, Runs env (slots.flatMap fun slot => Block.clear slot.1 slot.2) machine last ∧
      machine.Zeroes (fun position => ∃ slot ∈ slots, Slot slot.1 slot.2 position) last by
    obtain ⟨last, runs, zeroes⟩ := this
    exact ⟨last, runs, zeroes.mono covered⟩
  clear code covered
  induction slots generalizing machine with
  | nil =>
      exact ⟨machine, .nil machine,
        (Machine.Zeroes.nil machine).mono fun _ ⟨_, member, _⟩ => by cases member⟩
  | cons slot slots ih =>
      obtain ⟨middle, start, zeroes⟩ :=
        Block.zeroes_clear env machine (below slot List.mem_cons_self)
      obtain ⟨last, rest, zeroes'⟩ :=
        ih (fun other member => below other (List.mem_cons_of_mem _ member)) middle
      refine ⟨last, start.append rest, (zeroes.append zeroes').mono ?_⟩
      rintro position ⟨other, member, inside⟩
      rcases List.mem_cons.mp member with rfl | later
      · exact .inl inside
      · exact .inr ⟨other, later, inside⟩

end Stream.Cleared

namespace Node

open Insn AtSite

variable {request : Request} {stream : Stream} {own : Storage} {plan : Plan} {site : Site}
  {info : Info} {base : Int16} {start stop last size : Nat}

theorem cleared_clearGap (found : Yields (clearGap base start stop) ⟨stream, own⟩ () site)
    (ends : stop ≤ size) (small : size ≤ 32767)
    (room : ∀ position, Slot base size position → position < 0) :
    stream.Cleared site.stream fun position =>
      base.toInt + start ≤ position ∧ position < base.toInt + stop := by
  obtain ⟨gap, place, moved, rfl⟩ | ⟨none, rfl⟩ := yields_clearGap found
  · have last := room (base.toInt + size - 1) ⟨by omega, by omega⟩
    have reached := toInt_of_movedOffset (by omega) moved
    refine ⟨[(place, stop - start)], by simp [Stream.code_append], ?_,
      fun position inside => ⟨_, List.mem_singleton.mpr rfl, ?_⟩⟩
    · intro slot member
      obtain rfl := List.mem_singleton.mp member
      dsimp only
      omega
    · obtain ⟨low, high⟩ := inside
      exact show Slot place (stop - start) position from ⟨by omega, by omega⟩
  · refine (Stream.Cleared.same rfl).mono ?_
    rintro position ⟨low, high⟩
    omega

/-- What lies in front of the members is cleared. -/
theorem cleared_planMembers {members : List (Field × Nat)} {args : List Node}
    {requests : List Request} (free : ∀ arg ∈ args, arg.storage.isAssigned = false)
    (found : Yields (planMembers base stop members args) ⟨stream, own⟩ (requests, last) site)
    (lengths : members.length = args.length) (laid : Field.Laid size stop members)
    (small : size ≤ 32767) (room : ∀ position, Slot base size position → position < 0) :
    last ≤ size ∧ stream.Cleared site.stream fun position => ∃ distance : Nat,
      position = base.toInt + distance ∧ stop ≤ distance ∧ distance < last ∧
        ∀ field offset, (field, offset) ∈ members →
          ¬ (offset ≤ distance ∧ distance < offset + field.type.size) := by
  induction members generalizing args stop requests stream own with
  | nil =>
      obtain ⟨same, rfl⟩ := yields_pure_iff.mp found
      cases same
      refine ⟨laid, (Stream.Cleared.same rfl).mono ?_⟩
      rintro position ⟨distance, _, low, high, _⟩
      omega
  | cons member members ih =>
      obtain ⟨field, offset⟩ := member
      cases args with
      | nil => cases lengths
      | cons arg args =>
          obtain ⟨behind, rest⟩ := laid
          have unassigned := free arg List.mem_cons_self
          simp only [planMembers, unassigned, Bool.false_eq_true, if_false, yields_bind_iff,
            yields_liftExcept_iff, yields_pure_iff, Prod.mk.injEq] at found
          obtain ⟨_, between, cleared, _, _, ⟨_, rfl⟩, _, _, ⟨rfl, rfl⟩, ⟨others, stop'⟩, _, later,
            ⟨rfl, rfl⟩, rfl⟩ := found
          have gap := cleared_clearGap cleared (Nat.le_trans (Nat.le_add_right _ _) rest.le_size)
            small room
          obtain ⟨ends, gaps⟩ :=
            ih (fun other member => free other (List.mem_cons_of_mem _ member)) later
            (Nat.succ.inj lengths) rest
          refine ⟨ends, (gap.trans gaps).mono ?_⟩
          rintro position ⟨distance, rfl, low, high, apart⟩
          have outside := apart field offset List.mem_cons_self
          rcases Nat.lt_or_ge distance offset with before | after
          · exact .inl ⟨by omega, by omega⟩
          · refine .inr ⟨distance, rfl, by omega, high, ?_⟩
            intro other place member
            exact apart other place (List.mem_cons_of_mem _ member)

/-- The plan of a struct literal clears the bytes of its slot that belong to no
member. -/
theorem cleared_structLiteral {args : List Node} {shape : Record}
    (typed : (apply ":struct" args info).type? = some (.record shape))
    (struct : shape.union = false) (lengths : shape.fields.length = args.length)
    (free : ∀ arg ∈ args, arg.storage.isAssigned = false)
    (found : Yields ((apply ":struct" args info).planApplication request) ⟨stream, {}⟩ plan site)
    (whole : site.own = ⟨.slot base, size⟩) (small : size ≤ 32767)
    (room : ∀ position, Slot base size position → position < 0) :
    stream.Cleared site.stream fun position =>
      ∃ distance : Nat, position = base.toInt + distance ∧ shape.Gap distance := by
  obtain ⟨shape', base', middle, ⟨between, own⟩, stop, same, extended, -, places, cleared⟩ :=
    plan_structLiteral typed found
  cases same
  obtain ⟨rfl, -⟩ := moved_planMembers free places
  have kept := (moved_clearGap cleared).1.symm.trans whole
  cases kept
  have members : (shape.fields.zip shape.offsets).length = args.length := by
    rw [List.length_zip, shape.length_offsets, Nat.min_self, lengths]
  obtain ⟨ends, gaps⟩ :=
    cleared_planMembers free places members (Record.laid_of_struct struct) small room
  have reserved : stream.Cleared middle fun _ => False :=
    .same (by rw [extended.code, List.append_nil])
  refine ((reserved.trans gaps).trans (cleared_clearGap cleared (Nat.le_refl _) small room)).mono ?_
  rintro position ⟨distance, rfl, gap⟩
  have inside := gap.inside
  rcases Nat.lt_or_ge distance stop with before | behind
  · exact .inl (.inr ⟨distance, rfl, Nat.zero_le _, before, gap.apart⟩)
  · exact .inr ⟨by omega, by omega⟩

end Node

end TraceProbe
