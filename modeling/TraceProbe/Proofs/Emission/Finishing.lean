import TraceProbe.Proofs.Emission.Allocation
import TraceProbe.Proofs.Node.Shapes

/-!
# Emission at one node

What an operator appends once its arguments are stored, and what a leaf appends.
The pieces read the arguments and fill the storage of the node itself; only a
key that is converted takes a slot of its own.
-/

namespace TraceProbe

/-- The storage of a node in one of several trees. -/
def Operand (trees : List Node) (storage : Storage) : Prop :=
  ∃ tree ∈ trees, ∃ part, Node.PartOf part tree ∧ part.storage = storage

/-- All storage of several trees lies in the frame of a stream. -/
structure InFrame (trees : List Node) (stream : Stream) : Prop where
  small : stream.limit ≤ 32767
  fits : stream.used ≤ stream.limit
  covers : ∀ storage, Operand trees storage → ∀ position, storage.Covers position →
    -(stream.used : Int) ≤ position ∧ position < 0

/-- What a node may read behind its arguments: their storage, or a part of the
frame.  Of an access to a member it is only sure that it stays in the frame if
the types agree. -/
def Readable (sure : Prop) (trees : List Node) (middle finish : Stream) (src : Storage) : Prop :=
  Operand trees src ∨ (∀ reg, src.place ≠ .register reg) ∧
    (sure → InFrame trees middle → ∀ position, src.Covers position →
      -(finish.used : Int) ≤ position ∧ position < 0)

/-- A slot that was handed out between two streams. -/
def NewSlot (middle finish : Stream) (dst : Storage) : Prop :=
  (∀ reg, dst.place ≠ .register reg) ∧
    (middle.limit ≤ 32767 → ∀ position, dst.Covers position → Handed middle finish position)

/-- What a node may write behind its arguments: its own storage, or new slots. -/
def Writable (own : Storage) (middle finish : Stream) (dst : Storage) : Prop :=
  dst = own ∨ NewSlot middle finish dst

/-- What is appended for a node behind its arguments, which fills its storage. -/
structure Finishes (sure : Prop) (type : Ty) (chosen : Option Int16) (trees : List Node)
    (middle finish : Stream) (own : Storage) (moves : List Move) : Prop where
  moved : middle.Moved finish moves
  owns : Owns type chosen middle finish own
  reads : ∀ move ∈ moves, ∀ src ∈ move.srcs, Readable sure trees middle finish src
  writes : ∀ move ∈ moves, ∀ dst, move.dst = some dst → Writable own middle finish dst
  filled : ∀ reg, own.place = .register reg → ∃ move ∈ moves, move.dst = some own

namespace Finishes

variable {sure : Prop} {type : Ty} {chosen : Option Int16} {trees : List Node}
  {stream middle finish : Stream} {own : Storage} {srcs : List Storage} {code : List Insn}

theorem none (extended : middle.Extends finish []) (owns : Owns type chosen middle finish own)
    (noRegister : ∀ reg, own.place ≠ .register reg) :
    Finishes sure type chosen trees middle finish own [] where
  moved := Stream.moved_nil extended
  owns := owns
  reads _ member := by cases member
  writes _ member := by cases member
  filled reg placed := absurd placed (noRegister reg)

theorem one (extended : middle.Extends stream []) (owns : Owns type chosen middle stream own)
    (moved : stream.Moved finish [⟨some own, srcs, code⟩])
    (reads : ∀ src ∈ srcs, Readable sure trees middle finish src) :
    Finishes sure type chosen trees middle finish own [⟨some own, srcs, code⟩] := by
  refine ⟨moved.later extended, owns.grown moved.extended, ?_, ?_,
    fun _ _ => ⟨_, List.mem_singleton_self _, rfl⟩⟩
  · intro move member
    obtain rfl := List.mem_singleton.mp member
    exact reads
  · intro move member dst same
    obtain rfl := List.mem_singleton.mp member
    exact .inl (Option.some.inj same).symm

end Finishes

section Operands

variable {trees : List Node} {tree : Node}

theorem operand_of_mem (member : tree ∈ trees) : Operand trees tree.storage :=
  ⟨tree, member, tree, .root, rfl⟩

theorem operands_of_mem (member : tree ∈ trees) : ∀ src ∈ [tree.storage], Operand trees src := by
  intro src among
  obtain rfl := List.mem_singleton.mp among
  exact operand_of_mem member

theorem operand_of_args {arg : Node} (member : tree ∈ trees) (inner : arg ∈ tree.args) :
    Operand trees arg.storage := by
  refine ⟨tree, member, arg, ?_, rfl⟩
  cases tree with
  | apply operator args info => exact .inner inner .root
  | ident _ _ | str _ _ | num _ _ _ => cases inner

end Operands

/-- A helper reads to the storage of a node, from an address that is made of stored
values. -/
def ReadBehind (trees : List Node) (own : Storage) (stream finish : Stream) : Prop :=
  ∃ srcs reg code, Emit.Points srcs reg code ∧ (∀ src ∈ srcs, Operand trees src) ∧
    Yields (Emit.readFrom own reg) (stream.append code) () finish

theorem ReadBehind.moved {trees : List Node} {own : Storage} {stream finish : Stream}
    (read : ReadBehind trees own stream finish) :
    ∃ srcs code, stream.Moved finish [⟨some own, srcs, code⟩] ∧
      ∀ src ∈ srcs, Operand trees src := by
  obtain ⟨srcs, reg, _, points, operands, found⟩ := read
  obtain ⟨code, moved⟩ := Emit.moved_read points found
  exact ⟨srcs, code, moved, operands⟩

namespace AtSite

open Insn

variable {symbols : Symbols} {request : Request} {stream finish : Stream} {own : Storage}
  {sure : Prop} {type : Ty}

theorem width_of_ofBytes? {storage : Storage} {place : Place} {width : Width}
    (placed : storage.place = place) (known : Width.ofBytes? storage.size = some width) :
    storage = ⟨place, width.bytes⟩ := by
  obtain ⟨_, size⟩ := storage
  obtain rfl := placed
  rw [Width.bytes_of_ofBytes? known]

/-- A value of the context is loaded if it fits a register, and else read by a
helper. -/
theorem yields_loadContext {node : Node} {storage : Storage} {offset : Int16} {site : Site}
    (found : Yields (loadContext node storage offset) ⟨stream, own⟩ () site) :
    site.own = own ∧
      ((∃ reg width, storage = ⟨.register reg, Width.bytes width⟩ ∧
          site.stream = stream.append [load width.bits reg .context offset]) ∨
        (∃ slot width, storage = ⟨.slot slot, Width.bytes width⟩ ∧
          site.stream = stream.append
            [load width.bits .r0 .context offset, store width.bits .frame .r0 slot]) ∨
        ReadBehind [] storage stream site.stream) := by
  unfold loadContext at found
  split at found
  · rename_i reg width placed known
    obtain ⟨last, loaded, rfl⟩ := yields_lift_iff.mp found
    obtain rfl := Emit.yields_insn_iff.mp loaded
    exact ⟨rfl, .inl ⟨reg, width, width_of_ofBytes? placed known, rfl⟩⟩
  · rename_i slot width placed known
    obtain rfl := width_of_ofBytes? placed known
    simp only [yields_bind_iff, yields_lift_iff, Emit.yields_insn_iff] at found
    obtain ⟨_, _, ⟨_, rfl, rfl⟩, last, stored, rfl⟩ := found
    obtain ⟨width', known', rfl⟩ := Emit.yields_storeReg_slot_iff.mp stored
    rw [known] at known'
    cases known'
    exact ⟨rfl, .inr (.inl ⟨slot, width, rfl, Emit.append_append ..⟩)⟩
  · simp only [yields_bind_iff, yields_lift_iff, Emit.yields_insn_iff] at found
    obtain ⟨_, _, ⟨_, rfl, rfl⟩, _, _, ⟨_, rfl, rfl⟩, last, read, rfl⟩ := found
    rw [Emit.append_append] at read
    exact ⟨rfl, .inr (.inr ⟨[], _, _, .context _, fun _ none => (by cases none), read⟩)⟩
  · exact absurd found not_yields_throw

theorem moved_loadContext {node : Node} {storage : Storage} {offset : Int16} {site : Site}
    (found : Yields (loadContext node storage offset) ⟨stream, own⟩ () site) :
    ∃ srcs code, stream.Moved site.stream [⟨some storage, srcs, code⟩] ∧
      ∀ src ∈ srcs, Operand [] src := by
  obtain ⟨-, ⟨reg, width, rfl, same⟩ | ⟨slot, width, rfl, same⟩ | read⟩ := yields_loadContext found
  · rw [same]
    exact ⟨[], _, Stream.moved_one (Stream.extends_append rfl) (.contextRegister reg width offset),
      fun _ none => by cases none⟩
  · rw [same]
    exact ⟨[], _, Stream.moved_one (Stream.extends_append rfl) (.contextSlot slot width offset),
      fun _ none => by cases none⟩
  · exact read.moved

/-- A leaf without a value has no storage.  Any other has the storage of its type, and
its value gets there by what kind of leaf it is. -/
theorem yields_leaf {node : Node} (leaf : node.operator? = none)
    (found : Yields (AtSite.leaf symbols node request) ⟨stream, {}⟩ () ⟨finish, own⟩) :
    finish = stream ∧ own = {} ∨ ∃ type middle, node.type? = some type ∧ stream.Extends middle [] ∧
      Owns type request.slot stream middle own ∧
      match node with
      | .num value _ _ => Yields (Emit.constant own value) middle () finish
      | .str value _ => ∃ offset, own = ⟨.slot offset, own.size⟩ ∧
          finish = middle.append (Block.fill offset (paddedBytes value own.size))
      | .ident name info => ∃ offset,
          Yields (loadContext (.ident name info) own offset) ⟨middle, own⟩ () ⟨finish, own⟩
      | .apply _ _ _ => False := by
  unfold AtSite.leaf at found
  split at found
  · cases (yields_pure_iff.mp found).2
    exact .inl ⟨rfl, rfl⟩
  · cases node with
    | apply _ _ _ => cases leaf
    | num value unsigned info =>
        obtain ⟨storage, ⟨middle, own'⟩, allocated, stored⟩ := yields_bind_iff.mp found
        obtain ⟨type, typed, -⟩ := yields_allocateFor_iff.mp allocated
        obtain ⟨same, extended, owns, -⟩ := owns_of_allocateFor typed allocated
        obtain rfl : own' = storage := same
        obtain ⟨last, put, same⟩ := yields_lift_iff.mp stored
        cases same
        exact .inr ⟨type, middle, typed, extended, owns, put⟩
    | str value info =>
        simp only [yields_bind_iff, yields_slotOf_iff, yields_lift_iff,
          Emit.yields_fill_iff] at found
        obtain ⟨storage, ⟨middle, own'⟩, allocated, offset, _, ⟨placed, rfl⟩, last, ⟨-, rfl⟩,
          same⟩ := found
        obtain ⟨type, typed, -⟩ := yields_allocateFor_iff.mp allocated
        obtain ⟨same', extended, owns, -⟩ := owns_of_allocateFor typed allocated
        obtain rfl : own' = storage := same'
        cases same
        exact .inr ⟨type, middle, typed, extended, owns, offset, by rw [← placed], rfl⟩
    | ident name info =>
        simp only at found
        split at found
        · exact absurd found not_yields_throw
        · split at found
          · cases (yields_pure_iff.mp found).2
            exact .inl ⟨rfl, rfl⟩
          · rename_i offset _
            obtain ⟨storage, ⟨middle, own'⟩, allocated, loaded⟩ := yields_bind_iff.mp found
            obtain ⟨type, typed, -⟩ := yields_allocateFor_iff.mp allocated
            obtain ⟨same, extended, owns, -⟩ := owns_of_allocateFor typed allocated
            obtain rfl : own' = storage := same
            obtain rfl : own = own' := (yields_loadContext loaded).1
            exact .inr ⟨type, middle, typed, extended, owns, offset, loaded⟩

/-- A leaf that has a value fills its storage and reads nothing. -/
theorem finishes_leaf {node : Node} (leaf : node.operator? = none) (typed : node.type? = some type)
    (found : Yields (AtSite.leaf symbols node request) ⟨stream, {}⟩ () ⟨finish, own⟩) :
    ∃ moves, Finishes sure type request.slot [] stream finish own moves := by
  rcases yields_leaf leaf found with ⟨rfl, rfl⟩ | ⟨_, middle, typed', extended, owns, filled⟩
  · exact ⟨[], .none (.refl finish) owns_unassigned fun reg placed => by cases placed⟩
  · cases typed.symm.trans typed'
    cases node with
    | apply _ _ _ => exact filled.elim
    | num value unsigned info =>
        obtain ⟨code, moved⟩ := Emit.moved_constant filled
        exact ⟨_, .one extended owns moved fun _ member => by cases member⟩
    | str value info =>
        obtain ⟨offset, whole, rfl⟩ := filled
        have piece := Piece.fill offset (paddedBytes value own.size)
        rw [length_paddedBytes, ← whole] at piece
        have moved := Stream.moved_one (@Stream.extends_append middle _
          (boundLabels_of_inert (Block.inert_fills _ _ _))) piece
        exact ⟨_, .one extended owns moved fun _ member => by cases member⟩
    | ident name info =>
        obtain ⟨offset, loaded⟩ := filled
        obtain ⟨srcs, code, moved, operands⟩ := moved_loadContext loaded
        exact ⟨_, .one extended owns moved fun src member => .inl (operands src member)⟩

end AtSite

end TraceProbe
