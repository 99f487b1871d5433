import TraceProbe.Proofs.Emission.Counts
import TraceProbe.Proofs.Emission.MemberReads
import TraceProbe.Proofs.Emission.Occurrences
import TraceProbe.Proofs.Emission.PointerElements

/-!
# Narrowed numbers

Sizes, offsets and positions are natural numbers, but the fields of instructions
have 16 or 32 bits.  What is narrowed lies inside a value of the frame, and the
frame is small; only the offset of a member behind a pointer is bounded by
nothing.
-/

namespace TraceProbe

/-- What emission narrows. -/
inductive Cast.Kind where
  /-- The position of a slot in the frame. -/
  | position
  /-- The distance of a part of a value from the start of its slot. -/
  | part
  /-- The offset of a member behind a pointer. -/
  | member
  /-- The size of an element behind a pointer. -/
  | element
  /-- The number of bytes that a helper reads. -/
  | read
deriving DecidableEq

/-- The number of values that the field has. -/
def Cast.Kind.values : Kind → Nat
  | position | part => Int16.size
  | member | element | read => Int32.size

/-- A number that emission narrows, and the value in the field. -/
structure Cast where
  kind : Cast.Kind
  quantity : Nat
  value : Int

namespace Cast

/-- The field has the number wrapped round, and the number itself if that is in the
range of the field.  If something holds, that goes for all but the offsets of
members behind pointers. -/
structure Kept (sure : Prop) (cast : Cast) : Prop where
  wraps : cast.value = (cast.quantity : Int).bmod cast.kind.values
  exact_iff : cast.value = cast.quantity ↔ 2 * cast.quantity < cast.kind.values
  exact : sure → cast.kind ≠ .member → cast.value = cast.quantity

theorem Kind.size_le_values (kind : Kind) : 65536 ≤ kind.values := by
  cases kind <;> decide

theorem bmod_eq_iff {quantity values : Nat} (positive : 0 < values) :
    (quantity : Int).bmod values = quantity ↔ 2 * quantity < values := by
  constructor
  · intro same
    have high := @Int.bmod_lt quantity values positive
    omega
  · intro small
    exact Int.bmod_eq_of_le (by omega) (by omega)

theorem kept {sure : Prop} {kind : Kind} {quantity : Nat} {value : Int}
    (wraps : value = (quantity : Int).bmod kind.values)
    (small : sure → kind ≠ .member → quantity ≤ 32767) : Kept sure ⟨kind, quantity, value⟩ := by
  have values := kind.size_le_values
  have exact_iff : value = quantity ↔ 2 * quantity < kind.values := by
    rw [wraps]
    exact bmod_eq_iff (by omega)
  refine ⟨wraps, exact_iff, fun holds other => exact_iff.mpr ?_⟩
  have bound := small holds other
  omega

end Cast

theorem bmod_of_slotOffset? {used : Nat} {offset : Int16}
    (found : Emit.slotOffset? used = some offset) :
    -offset.toInt = (used : Int).bmod Int16.size := by
  unfold Emit.slotOffset? at found
  simp only at found
  split at found
  · cases found
  · rename_i different
    cases found
    have low := Int16.le_toInt (Int16.ofNat used)
    have high := Int16.toInt_lt (Int16.ofNat used)
    have least : (Int16.ofNat used).toInt ≠ -32768 := fun same =>
      different (Int16.toInt_inj.mp (same.trans rfl))
    rw [Int16.toInt_neg, Int.bmod_eq_of_le (by omega) (by omega), Int.neg_neg, Int16.toInt_ofNat']

theorem bmod_of_movedOffset {base place : Int16} {distance : Nat}
    (found : movedOffset base distance = .ok place) :
    place.toInt - base.toInt = (distance : Int).bmod Int16.size := by
  simp only [movedOffset] at found
  split at found
  · rename_i inside
    cases found
    rw [Int16.toInt_ofInt_of_le inside.1 (by omega), Int16.toInt_ofNat']
    omega
  · cases found

variable {sure : Prop}

theorem kept_part {base place : Int16} {distance : Nat}
    (found : movedOffset base distance = .ok place)
    (small : sure → distance ≤ 32767) :
    Cast.Kept sure ⟨.part, distance, place.toInt - base.toInt⟩ := by
  have near : sure → Cast.Kind.part ≠ .member → distance ≤ 32767 := by
    intro holds _
    exact small holds
  exact Cast.kept (bmod_of_movedOffset found) near

theorem kept_immediate {kind : Cast.Kind} {quantity : Nat} (wide : kind.values = Int32.size)
    (small : sure → kind ≠ .member → quantity ≤ 32767) :
    Cast.Kept sure ⟨kind, quantity, (Int32.ofNat quantity).toInt⟩ :=
  Cast.kept (by rw [wide, Int32.toInt_ofNat']) small

/-- The code that takes an element to where it is asked for. -/
def Storage.pickedCode (own : Storage) (place : Int16) : List Insn :=
  match own.place with
  | .register reg => Storage.loadCode reg ⟨.slot place, own.size⟩
  | .slot offset => Block.copy offset place own.size
  | .unassigned => []

/-- A byte of the frame that a comparison loads is one of those that it compares. -/
theorem Comparand.offset_of_load {comparand : Comparand} {dst reg : Reg}
    {base place : Int16} {done : Label} {position left : Nat} {code : List Insn}
    (found : comparand.compareFrom dst base done position left = .ok code)
    (member : Insn.load Width.byte.bits reg .frame place ∈ code) :
    ∃ index < position + left, movedOffset base index = .ok place ∨
      ∃ offset, comparand = .slot offset ∧ movedOffset offset index = .ok place := by
  induction left generalizing position code with
  | zero =>
      cases found
      cases member
  | succ left ih =>
      rw [compareFrom] at found
      obtain ⟨first, reached, found⟩ := ok_of_bind found
      obtain ⟨difference, subtracts, found⟩ := ok_of_bind found
      have compared (member : Insn.load Width.byte.bits reg .frame place ∈
          Insn.load Width.byte.bits dst .frame first :: difference) :
          movedOffset base position = .ok place ∨
            ∃ offset, comparand = .slot offset ∧ movedOffset offset position = .ok place := by
        rcases List.mem_cons.mp member with same | member
        · cases same
          exact .inl reached
        · cases comparand with
          | slot offset =>
              obtain ⟨second, reached', subtracts⟩ := ok_of_bind subtracts
              cases subtracts
              rcases List.mem_pair.mp member with same | same
              · cases same
                exact .inr ⟨offset, rfl, reached'⟩
              · cases same
          | literal bytes =>
              cases subtracts
              cases List.mem_singleton.mp member
      dsimp only at found
      split at found
      · cases found
        exact ⟨position, by omega, compared member⟩
      · obtain ⟨rest, others, found⟩ := ok_of_bind found
        cases found
        rcases List.mem_append.mp member with early | late
        · rcases List.mem_append.mp early with here | leaves
          · exact ⟨position, by omega, compared here⟩
          · cases comparand <;> simp [leave, Insn.load, Insn.jumpImm] at leaves
        · obtain ⟨index, inside, moved⟩ := ih others late
          exact ⟨index, by omega, moved⟩

namespace Node

open Insn AtSite

variable {symbols typing : Symbols} {args trees : List Node} {base leaf : Node} {info : Info}
  {request : Request} {stream middle finish : Stream} {type : Ty} {plan : Plan}
  {site : Site} {own : Storage}

/-- A part of the value of an argument is not far from its start. -/
theorem Held.near_part {tree : Node} {start : Int16} {distance : Nat} (held : tree.Held)
    (typed : tree.type? = some type) (placed : tree.storage.place = .slot start)
    (inside : distance ≤ type.size) : distance ≤ 32767 := by
  have slot : tree.storage = ⟨.slot start, tree.storage.size⟩ := by rw [← placed]
  exact (held.near_of_slot typed slot inside).size_le

/-- What a dot does behind its base. -/
theorem Opened.dot
    (opened : Opened sure symbols typing "." [base, leaf] info request stream type plan site trees
      middle own finish) :
    ∃ shape name offset source other between mine, base.type? = some (.record shape) ∧
      leaf.str? = some name ∧
      shape.offsetOf? name = some offset ∧ offset ≤ (Ty.record shape).size ∧
      trees = [source, other] ∧
      source.type? = base.type? ∧ source.applies "u*" = base.applies "u*" ∧
      Yields (if !source.storage.isAssigned && source.applies "u*"
        then readMember source mine offset
        else takeMember source mine offset) ⟨between, mine⟩ () ⟨finish, own⟩ := by
  obtain ⟨source, other, rfl, sameBase, sameLeaf⟩ := two_of_bares opened.supplied.bares
  obtain ⟨shape, name, field, based, named, there, rfl⟩ := opened.rule.member rfl rfl
  obtain ⟨-, rfl⟩ := asked_of_dot opened.plans
  have types := opened.supplied.types 0 base source rfl rfl
  have typed : ({ info with storage := {} } : Info).type = some field.type := opened.typed
  have found := finished_by rfl opened.finishes
  obtain ⟨mine, between, offset, placed, -, -, read⟩ :=
    yields_emitDot typed (types.trans based) ((str?_of_bare sameLeaf).symm.trans named) found
  have bound := Record.bounds_of_offsetOf? there placed
  exact ⟨shape, name, offset, source, other, between, mine, based, named, placed, by omega,
    rfl, types, (applies_of_bare sameBase _).symm, read⟩

/-- The member of an object behind a pointer. -/
theorem Opened.member {pointer : Node} {inner : Info}
    (opened : Opened sure symbols typing "." [apply "u*" [pointer] inner, leaf] info request
      stream type plan site trees middle own finish) :
    ∃ (shape : Record) (name : String) (offset : Nat) (source other : Node) (earlier : List Insn)
      (place : Int16), inner.type = some (.record shape) ∧ leaf.str? = some name ∧
      shape.offsetOf? name = some offset ∧ trees = [apply "u*" [source] inner, other] ∧
      own.place = .slot place ∧ finish.code = earlier ++ (source.storage.loadCode .r3 ++
        ((if offset ≠ 0 then [.alu64Imm Opcode.add .r3 (Int32.ofNat offset)] else []) ++
          Emit.readCode place own.size .r3)) := by
  obtain ⟨shape, name, offset, source, other, between, mine, based, named, placed,
    -, rfl, -, -, read⟩ :=
    opened.dot
  obtain ⟨args, -⟩ := asked_of_dot opened.plans
  have arguments := opened.arguments
  rw [args] at arguments
  obtain ⟨_, _, _, same, situated, -⟩ := arguments.cons
  cases same
  obtain ⟨pointer', -, rfl⟩ := emits_idle_deref situated.emits
  obtain ⟨role, emittable, -⟩ := situated.emittable
  have free : inner.storage = {} := emittable.unstored _ .root
  rw [if_pos
    (by simp [Node.storage, Node.info, free, Storage.isAssigned, applies, operator?])] at read
  obtain ⟨place, here, -, same⟩ := appended_of_readMember read
  cases same
  exact ⟨shape, name, offset, pointer', other, between.code, place, based, named, placed, rfl, here,
    Stream.code_append _ _⟩

/-- The member of an object in the frame. -/
theorem Opened.taken (plain : base.applies "u*" = false)
    (opened : Opened sure symbols typing "." [base, leaf] info request stream type plan site trees
      middle own finish) :
    ∃ (shape : Record) (name : String) (offset : Nat) (source : Node) (earlier : List Insn)
      (start place : Int16), base.type? = some (.record shape) ∧ leaf.str? = some name ∧
      shape.offsetOf? name = some offset ∧ source ∈ trees ∧ source.storage.place = .slot start ∧
      finish.code = earlier ++ own.takenCode place ∧
      Cast.Kept sure ⟨.part, offset, place.toInt - start.toInt⟩ := by
  obtain ⟨shape, name, offset, source, other, between, mine, based, named, placed, inside, rfl,
    types, applied, read⟩ := opened.dot
  rw [if_neg (by simp [applied, plain])] at read
  obtain ⟨start, place, located, reached, -, same⟩ := taken_of_takeMember read
  cases same
  refine ⟨shape, name, offset, source, between.code, start, place, based, named, placed,
    List.mem_cons_self, located, Stream.code_append _ _, kept_part reached ?_⟩
  intro holds
  exact (opened.held holds source List.mem_cons_self).near_part (types.trans based) located inside

/-- What a subscript of an array or a pointer does behind the two arguments. -/
theorem Opened.subscript {collection key : Node}
    (opened : Opened sure symbols typing "[]" [collection, key] info request stream type plan
      site trees middle own finish) :
    ∃ source other storage between, trees = [source, other] ∧ source.type? = collection.type? ∧
      other.num? = key.num? ∧ Owns type plan.own.slot middle between storage ∧
      match collection.type? with
      | some (.array _ _) =>
          Yields (emitArrayElement (apply "[]" [source, other] { info with storage := {} }) storage)
            ⟨between, storage⟩ () ⟨finish, own⟩
      | some (.pointer _) =>
          Yields
              (emitPointerElement (apply "[]" [source, other] { info with storage := {} }) storage)
            ⟨between, storage⟩ () ⟨finish, own⟩
      | _ => True := by
  obtain ⟨source, other, rfl, -, sameKey⟩ := two_of_bares opened.supplied.bares
  obtain ⟨-, rfl⟩ := passive_of_plan opened.shape rfl opened.plans
  have types := opened.supplied.types 0 collection source rfl rfl
  have typed : (apply "[]" [source, other] { info with storage := {} }).type? = some type :=
    opened.typed
  obtain ⟨subscripted, storage, between, known, -, owns, -, found⟩ :=
    yields_subscript typed opened.finishes
  refine ⟨source, other, storage, between, rfl, types, (num?_of_bare sameKey).symm, owns, ?_⟩
  rw [← types, known]
  cases subscripted with
  | array _ _ | pointer _ => exact found.2
  | void | scalar _ | record _ | function _ | map _ _ _ => trivial

/-- The element at a computed index behind a pointer. -/
theorem Opened.element {pointer index : Node} {pointed : Ty}
    (typed : pointer.type? = some (.pointer pointed)) (computed : index.num? = none)
    (opened : Opened sure symbols typing "[]" [pointer, index] info request stream type plan
      site trees middle own finish) :
    ∃ (source key : Node) (earlier : List Insn) (place : Int16), trees = [source, key] ∧
      own.place = .slot place ∧ finish.code = earlier ++ indexedCode source key place pointed.size ∧
      (sure → pointed.size ≤ 32767) := by
  obtain ⟨source, key, storage, between, rfl, -, keyed, owns, found⟩ := opened.subscript
  rw [typed] at found
  obtain ⟨place, placed, same⟩ := indexed_of_yields (keyed.trans computed) found
  cases same
  have sized := owns.sized (by simp [Storage.isAssigned, placed])
  obtain ⟨_, _, same, -, elements⟩ := opened.rule.subscript rfl rfl
  cases typed.symm.trans same
  obtain ⟨rfl, -⟩ := elements
  refine ⟨source, key, between.code, place, rfl, placed, ?_, ?_⟩
  · rw [Stream.code_append, sized]
  · intro holds
    have slot : own = ⟨.slot place, own.size⟩ := by rw [← placed]
    rw [← sized]
    exact (slot ▸ opened.near holds : Storage.Near ⟨.slot place, own.size⟩).size_le

theorem appended_of_copyTo {place : Int16} {result : Unit} {last : Stream}
    (found : Yields (Emit.copyTo own ⟨.slot place, own.size⟩) stream result last) :
    last = stream.append (own.pickedCode place) := by
  obtain ⟨chosen, size⟩ := own
  cases chosen with
  | unassigned => exact absurd found Emit.not_yields_copyTo_unassigned
  | register reg =>
      have loaded : Yields (Emit.loadReg reg ⟨.slot place, size⟩) stream result last := found
      exact (Emit.yields_loadReg_iff.mp loaded).2.symm
  | slot offset => exact (Emit.yields_copyToSlot_slot_iff.mp found).symm

/-- The element of an array in the frame. -/
theorem Opened.picked {array index : Node} {element : Ty} {length : Nat}
    (typed : array.type? = some (.array element length))
    (opened : Opened sure symbols typing "[]" [array, index] info request stream type plan
      site trees middle own finish) :
    ∃ (position : UInt64) (source : Node) (earlier : List Insn) (start place : Int16),
      index.num? = some position ∧ source ∈ trees ∧ source.storage.place = .slot start ∧
      finish.code = earlier ++ own.pickedCode place ∧
      Cast.Kept sure ⟨.part, position.toNat * element.size, place.toInt - start.toInt⟩ := by
  obtain ⟨source, key, storage, between, rfl, types, keyed, owns, found⟩ := opened.subscript
  rw [typed] at found
  obtain ⟨position, start, place, number, slot, rfl, reached, copied⟩ :=
    copied_of_arrayElement found
  obtain rfl := appended_of_copyTo copied
  have number := keyed.symm.trans number
  have located : source.storage.place = .slot start := by rw [slot]
  obtain ⟨_, _, same, -, elements⟩ := opened.rule.subscript rfl rfl
  cases typed.symm.trans same
  obtain ⟨rfl, -, inside⟩ := elements
  rw [owns.sized (Emit.assigned_of_copyTo copied)] at reached
  refine ⟨position, source, between.code, start, place, number, List.mem_cons_self, located,
    Stream.code_append _ _, kept_part reached ?_⟩
  intro holds
  refine (opened.held holds source List.mem_cons_self).near_part (types.trans typed) located ?_
  have less := inside position number
  rw [Ty.size, Nat.mul_comm]
  exact Nat.mul_le_mul_left _ (Nat.le_of_lt less)

/-- The bytes that a comparison loads. -/
theorem Opened.compared {left right : Node}
    (opened : Opened sure symbols typing "strcmp" [left, right] info request stream type plan
      site trees middle own finish) :
    ∃ earlier code later : List Insn, finish.code = earlier ++ (code ++ later) ∧
      ∀ reg place, load Width.byte.bits reg .frame place ∈ code → ∃ position source start,
        source ∈ trees ∧ source.storage.place = .slot start ∧
        Cast.Kept sure ⟨.part, position, place.toInt - start.toInt⟩ := by
  obtain ⟨left', right', rfl, -, -⟩ := two_of_bares opened.supplied.bares
  obtain ⟨-, rfl⟩ := passive_of_plan opened.shape rfl opened.plans
  have typed : (apply "strcmp" [left', right'] { info with storage := {} }).type? = some type :=
    opened.typed
  obtain ⟨stream, first, second, swapped, base, comparand, firstType, secondType, done, code,
    code', -, -, operands, slot, known, known', second', compares, -, grown⟩ :=
      yields_strcmp typed opened.finishes
  have members : first ∈ [left', right'] ∧ second ∈ [left', right'] := by
    rcases operands with ⟨rfl, rfl⟩ | ⟨rfl, rfl⟩ <;> simp
  refine ⟨stream.code, code, _, grown.code, ?_⟩
  intro reg place member
  obtain ⟨index, inside, reached | ⟨offset, same, reached⟩⟩ :=
    Comparand.offset_of_load compares member
  · have located : first.storage.place = .slot base := by rw [slot]
    refine ⟨index, first, base, members.1, located, kept_part reached ?_⟩
    intro holds
    exact (opened.held holds first members.1).near_part known located (by omega)
  · rcases second' with ⟨offset', slot', same'⟩ | ⟨value, -, same'⟩
    · cases same.symm.trans same'
      have located : second.storage.place = .slot offset := by rw [slot']
      refine ⟨index, second, offset, members.2, located, kept_part reached ?_⟩
      intro holds
      exact (opened.held holds second members.2).near_part known' located (by omega)
    · cases same.symm.trans same'

/-- The members of a struct literal, and the gaps between them. -/
theorem Opened.laid
    (opened : Opened sure symbols typing ":struct" args info request stream type plan site trees
      middle own finish) :
    ∃ shape base, type = .record shape ∧ own = ⟨.slot base, type.size⟩ ∧
      (∀ (index : Nat) (tree : Node) (offset : Nat), trees[index]? = some tree →
        shape.offsets[index]? = some offset →
          ∃ place, tree.storage.place = .slot place ∧
            Cast.Kept sure ⟨.part, offset, place.toInt - base.toInt⟩) ∧
      ∃ moves, stream.Moved site.stream moves ∧ ∀ move ∈ moves, ∃ start stop place,
        move.dst = some ⟨.slot place, stop - start⟩ ∧
        Cast.Kept sure ⟨.part, start, place.toInt - base.toInt⟩ := by
  obtain ⟨shape, base, moves, rfl, whole, moved, owns, asks, each, gaps⟩ :=
    reserved_structLiteral opened.typed opened.unstored opened.plans
  have typed : (apply ":struct" trees { info with storage := site.own }).type? =
      some (.record shape) :=
    opened.typed
  have lengths : plan.args.length = trees.length :=
    opened.supplied.lengths.trans (length_of_bares opened.supplied.bares)
  have stays := finished_structLiteral typed whole rfl lengths asks
    (fun index tree asked here there => opened.supplied.placed index tree asked here there)
    opened.finishes
  obtain ⟨rfl, rfl⟩ : finish = middle ∧ own = site.own := by
    cases stays
    exact ⟨rfl, rfl⟩
  have near (holds : sure) : (Ty.record shape).size ≤ 32767 := by
    have near := opened.near holds
    rw [whole] at near
    exact near.size_le
  have room : trees.length ≤ shape.offsets.length := by
    by_contra longer
    have last : shape.offsets.length < plan.args.length := by omega
    obtain ⟨_, _, _, member, -, -⟩ := asks _ _ (List.getElem?_eq_getElem last)
    have behind := (List.getElem?_zip_eq_some.mp member).2
    rw [List.getElem?_eq_none (Nat.le_refl _)] at behind
    cases behind
  have stored := assigned_of_copyMembers room (copied_of_structLiteral typed whole opened.finishes)
  refine ⟨shape, base, rfl, whole, ?_, moves, moved, ?_⟩
  · intro index tree offset here there
    obtain ⟨asked, request, placed⟩ := opened.supplied.exists_request here
    obtain ⟨field, distance, place, member, reached, rfl⟩ := asks index asked request
    have zipped := (List.getElem?_zip_eq_some.mp member).2
    cases zipped.symm.trans there
    have lies := placed.obeyed place rfl (stored tree (List.mem_of_getElem? here))
    refine ⟨place, lies, kept_part reached ?_⟩
    intro holds
    exact Nat.le_trans (Record.le_size_of_mem (List.mem_of_getElem? there)) (near holds)
  · intro move member
    by_cases holds : sure
    · obtain ⟨members, -, literal⟩ := opened.rule.members rfl
      obtain ⟨name, same⟩ := literal holds
      obtain ⟨start, stop, ordered, inside, -, place, reached, filled⟩ :=
        gaps (by cases same; rfl) move member
      exact ⟨start, stop, place, filled, kept_part reached fun _ => by have := near holds; omega⟩
    · obtain ⟨start, stop, -, place, reached, filled⟩ := each move member
      exact ⟨start, stop, place, filled, kept_part reached fun sure => absurd sure holds⟩

end Node

namespace Emission

open Node Insn

/-- What an emission narrows, and where it ends up. -/
structure Casts (sure : Prop) (emission : Emission) : Prop where
  /-- Each slot that is handed out lies at its position. -/
  slots : ∀ (size alignment : Nat) (before after : Stream) (offset : Int16)
      (early late : List Insn),
    emission.stream.Extends before early →
      Yields (Emit.freshSlot size alignment) before offset after →
      after.Extends emission.finish late → Cast.Kept sure ⟨.position, after.used, -offset.toInt⟩
  /-- The slot of the node is one of these, unless its parent chose it. -/
  handed : emission.request.slot = none → ∀ offset, emission.tree.storage.place = .slot offset →
    emission.stream.HandsOut emission.finish offset emission.tree.storage.size
  /-- Helpers are told the sizes of the slots that they fill. -/
  reads : ∃ moves, emission.stream.Moved emission.finish moves ∧
      ∀ move ∈ moves, counts move.code = [] ∨
    ∃ offset size imm, move.dst = some ⟨.slot offset, size⟩ ∧ counts move.code = [imm] ∧
      Cast.Kept sure ⟨.read, size, imm.toInt⟩
  /-- A member behind a pointer is read at its offset. -/
  member : ∀ (pointer leaf : Node) (inner outer : Info),
    emission.node = apply "." [apply "u*" [pointer] inner, leaf] outer →
      ∃ (shape : Record) (name : String) (offset : Nat) (source : Node)
          (earlier : List Insn) (place : Int16),
        inner.type = some (.record shape) ∧ leaf.str? = some name ∧
        shape.offsetOf? name = some offset ∧
        PartOf source emission.tree ∧ emission.tree.storage.place = .slot place ∧
        if offset = 0 then
          emission.finish.code = earlier ++ (source.storage.loadCode .r3 ++
            Emit.readCode place emission.tree.storage.size .r3)
        else ∃ imm, emission.finish.code = earlier ++ (source.storage.loadCode .r3 ++
            (alu64Imm Opcode.add .r3 imm :: Emit.readCode place emission.tree.storage.size .r3)) ∧
          Cast.Kept sure ⟨.member, offset, imm.toInt⟩
  /-- A member of an object in the frame is taken from its offset. -/
  taken : ∀ (base leaf : Node) (outer : Info), emission.node = apply "." [base, leaf] outer →
    base.applies "u*" = false →
      ∃ (shape : Record) (name : String) (offset : Nat) (source : Node) (earlier : List Insn)
        (start place : Int16), base.type? = some (.record shape) ∧ leaf.str? = some name ∧
        shape.offsetOf? name = some offset ∧
        source ∈ emission.tree.args ∧ source.storage.place = .slot start ∧
        emission.finish.code = earlier ++ emission.tree.storage.takenCode place ∧
        Cast.Kept sure ⟨.part, offset, place.toInt - start.toInt⟩
  /-- An element at a computed index behind a pointer is found by its size. -/
  element : ∀ (pointer index : Node) (info : Info) (pointed : Ty),
    emission.node = apply "[]" [pointer, index] info → pointer.type? = some (.pointer pointed) →
      index.num? = none →
        ∃ (source key : Node) (earlier : List Insn) (place : Int16) (imm : Int32),
          emission.tree.args = [source, key] ∧ emission.tree.storage.place = .slot place ∧
          emission.finish.code = earlier ++
            (source.storage.loadCode .r3 ++ (key.storage.loadCode .r0 ++
            (alu64Imm Opcode.mul .r0 imm :: alu64Reg Opcode.add .r3 .r0 ::
              Emit.readCode place pointed.size .r3))) ∧
          Cast.Kept sure ⟨.element, pointed.size, imm.toInt⟩
  /-- An element of an array in the frame is taken from its distance. -/
  picked : ∀ (array index : Node) (info : Info) (element : Ty) (length : Nat),
    emission.node = apply "[]" [array, index] info → array.type? = some (.array element length) →
      ∃ (position : UInt64) (source : Node) (earlier : List Insn) (start place : Int16),
        index.num? = some position ∧ source ∈ emission.tree.args ∧
        source.storage.place = .slot start ∧
        emission.finish.code = earlier ++ emission.tree.storage.pickedCode place ∧
        Cast.Kept sure ⟨.part, position.toNat * element.size, place.toInt - start.toInt⟩
  /-- The members of a struct literal lie at their offsets, and the gaps between them
  are cleared. -/
  laid : ∀ (args : List Node) (info : Info), emission.node = apply ":struct" args info →
    ∃ shape base, info.type = some (.record shape) ∧
      emission.tree.storage = ⟨.slot base, (Ty.record shape).size⟩ ∧
      (∀ (index : Nat) (tree : Node) (offset : Nat), emission.tree.args[index]? = some tree →
        shape.offsets[index]? = some offset →
          ∃ place, tree.storage.place = .slot place ∧
            Cast.Kept sure ⟨.part, offset, place.toInt - base.toInt⟩) ∧
      ∃ reserved moves, emission.stream.Moved reserved moves ∧
        reserved.code <+: emission.finish.code ∧
        ∀ move ∈ moves, ∃ start stop place, move.dst = some ⟨.slot place, stop - start⟩ ∧
          Cast.Kept sure ⟨.part, start, place.toInt - base.toInt⟩
  /-- A comparison loads the bytes of its operands. -/
  compared : ∀ (left right : Node) (info : Info),
      emission.node = apply "strcmp" [left, right] info →
    ∃ earlier code later : List Insn, emission.finish.code = earlier ++ (code ++ later) ∧
      ∀ reg place, load Width.byte.bits reg .frame place ∈ code → ∃ position source start,
        source ∈ emission.tree.args ∧ source.storage.place = .slot start ∧
        Cast.Kept sure ⟨.part, position, place.toInt - start.toInt⟩

variable {symbols typing : Symbols} {emission : Emission}

/-- Slots lie where the frame ends, and the frame is limited. -/
theorem Situated.kept_position (situated : emission.Situated sure symbols typing)
    {size alignment : Nat} {before after : Stream} {offset : Int16} {early : List Insn}
    (extended : emission.stream.Extends before early)
    (found : Yields (Emit.freshSlot size alignment) before offset after) :
    Cast.Kept sure ⟨.position, after.used, -offset.toInt⟩ := by
  obtain ⟨fits, known, rfl⟩ := Emit.yields_freshSlot_iff.mp found
  refine Cast.kept (bmod_of_slotOffset? known) ?_
  intro holds _
  have limit := extended.limit
  exact Nat.le_trans fits (limit ▸ (situated.suits holds).small)

theorem Situated.reads (situated : emission.Situated sure symbols typing) :
    ∃ moves, emission.stream.Moved emission.finish moves ∧ ∀ move ∈ moves, counts move.code = [] ∨
      ∃ offset size imm, move.dst = some ⟨.slot offset, size⟩ ∧ counts move.code = [imm] ∧
        Cast.Kept sure ⟨.read, size, imm.toInt⟩ := by
  obtain ⟨_, moves, composed⟩ := situated.composed
  refine ⟨moves, composed.moved, ?_⟩
  intro move member
  have other (own : Storage) (filled : move.dst = some own) : own.place ≠ .register .r2 := by
    intro placed
    obtain ⟨_, same, -⟩ := composed.fresh move member .r2 ⟨own, filled, placed⟩
    cases same
  rcases (composed.moved.pieces move member).counts other with
      none | ⟨offset, size, filled, counted⟩
  · exact .inl none
  · refine .inr ⟨offset, size, _, filled, counted, kept_immediate rfl ?_⟩
    intro holds _
    have fit := situated.fit holds
    have extended := composed.moved.extended
    have used := extended.used
    have inside : ∀ position, Storage.Covers ⟨.slot offset, size⟩ position →
        -(emission.finish.used : Int) ≤ position ∧ position < 0 := by
      intro position covers
      rcases composed.writes fit move member _ filled position covers with ⟨low, high⟩ | ⟨claims, -⟩
      · exact ⟨low, by omega⟩
      · obtain ⟨low, high⟩ := fit.inside position claims
        exact ⟨by omega, high⟩
    have fits := extended.fits fit.fits
    have limit := extended.limit
    have small := fit.small
    have bound := Storage.size_le inside
    omega

theorem Situated.casts (situated : emission.Situated sure symbols typing) :
    emission.Casts sure := by
  obtain ⟨node, request, stream, tree, finish⟩ := emission
  refine ⟨fun size alignment before after offset early late extended found _ =>
    situated.kept_position extended found, ?_, situated.reads, ?_, ?_, ?_, ?_, ?_, ?_⟩
  · obtain ⟨_, _, composed⟩ := situated.composed
    exact composed.reserved
  · rintro pointer leaf inner outer rfl
    obtain ⟨type, plan, site, trees, middle, own, rfl, opened⟩ := opened_of_situated situated
    obtain ⟨shape, name, offset, source, other, earlier, place, object, named, there,
      rfl, placed, code⟩ :=
      opened.member
    refine ⟨shape, name, offset, source, earlier, place, object, named, there,
      .inner List.mem_cons_self (.inner List.mem_cons_self .root), placed, ?_⟩
    split at code
    · rename_i moved
      rw [if_neg moved]
      exact ⟨_, code, kept_immediate rfl fun _ other => absurd rfl other⟩
    · rename_i still
      rw [if_pos (not_not.mp still)]
      exact code
  · rintro base leaf outer rfl plain
    obtain ⟨type, plan, site, trees, middle, own, rfl, opened⟩ := opened_of_situated situated
    exact opened.taken plain
  · rintro pointer index info pointed rfl typed computed
    obtain ⟨type, plan, site, trees, middle, own, rfl, opened⟩ := opened_of_situated situated
    obtain ⟨source, key, earlier, place, rfl, placed, code, small⟩ := opened.element typed computed
    exact ⟨source, key, earlier, place, _, rfl, placed, code,
      kept_immediate rfl fun holds _ => small holds⟩
  · rintro array index info element length rfl typed
    obtain ⟨type, plan, site, trees, middle, own, rfl, opened⟩ := opened_of_situated situated
    exact opened.picked typed
  · rintro args info rfl
    obtain ⟨type, plan, site, trees, middle, own, rfl, opened⟩ := opened_of_situated situated
    obtain ⟨shape, base, rfl, whole, members, moves, moved, gaps⟩ := opened.laid
    obtain ⟨_, within⟩ := opened.within
    obtain ⟨_, behind⟩ := opened.behind
    exact ⟨shape, base, opened.typed, whole, members, site.stream, moves, moved,
      ⟨_, (within.trans behind).code.symm⟩, gaps⟩
  · rintro left right info rfl
    obtain ⟨type, plan, site, trees, middle, own, rfl, opened⟩ := opened_of_situated situated
    exact opened.compared

end Emission

end TraceProbe
