import TraceProbe.Proofs.Emission.HelperReads
import TraceProbe.Proofs.MapLanguage.Values

/-!
# Elements behind pointers

The index of an element is either folded into a distance or loaded, multiplied
by the size of an element and added to the pointer.  A loaded index has zeros
above its own bytes, so a negative number in fewer than eight bytes counts as
the large number that has the same bytes.
-/

namespace TraceProbe

open Symbolic

namespace Scalar

/-- How many numbers a scalar type tells apart. -/
def modulus (kind : Scalar) : Nat :=
  256 ^ kind.width

/-- The number that the low bytes of a word are in a scalar type. -/
def number (kind : Scalar) (word : UInt64) : Int :=
  if kind.signed then Int.bmod word.toNat kind.modulus else (word.toNat % kind.modulus : Nat)

/-- A word with zeros above its bytes is its number, or a whole turn more. -/
theorem number_cases {kind : Scalar} {word : UInt64} (narrow : word.toNat < kind.modulus) :
    0 ≤ kind.number word ∧ (word.toNat : Int) = kind.number word ∨
      kind.number word < 0 ∧ (word.toNat : Int) = kind.number word + kind.modulus := by
  have wide : word.toNat % kind.modulus = word.toNat := Nat.mod_eq_of_lt narrow
  have wide' : (word.toNat : Int) % kind.modulus = word.toNat := by rw [← Int.natCast_emod, wide]
  unfold number
  split
  · rw [Int.bmod_def, wide']
    split <;> omega
  · rw [wide]
    omega

/-- Turns of scalars with fewer than eight bytes, one for each byte of an
element, are no whole turns of a register. -/
theorem modulus_mul_mod_iff (kind : Scalar) {size : Nat} (positive : 0 < size)
    (small : size < 2 ^ 31) :
    kind.modulus * size % 2 ^ 64 = 0 ↔ kind.width = 8 := by
  have sizes : kind.modulus = 2 ^ 8 ∨ kind.modulus = 2 ^ 16 ∨ kind.modulus = 2 ^ 32 ∨
      kind.modulus = 2 ^ 64 := by cases kind <;> decide
  have widths : kind.modulus = 2 ^ 64 ↔ kind.width = 8 := by cases kind <;> decide
  rw [← widths]
  rcases sizes with same | same | same | same <;> rw [same] <;> omega

end Scalar

/-- Where the element of a number behind a pointer begins. -/
def elementAddress (start : UInt64) (number : Int) (size : Nat) : UInt64 :=
  start + UInt64.ofInt (number * size)

section Addresses

variable {start raw : UInt64} {size : Nat}

theorem ofInt_eq_iff {left right : Int} :
    UInt64.ofInt left = UInt64.ofInt right ↔ left % 2 ^ 64 = right % 2 ^ 64 := by
  rw [← UInt64.toNat_inj, toNat_ofInt, toNat_ofInt]
  omega

theorem mul_eq_ofInt (raw : UInt64) (size : Nat) :
    raw * UInt64.ofNat size = UInt64.ofInt (raw.toNat * size) := by
  rw [UInt64.ofInt_mul, ← Memory.ofNat_eq_ofInt, ← Memory.ofNat_eq_ofInt, UInt64.ofNat_toNat]

theorem elementAddress_of_word {number : Int} (same : raw = UInt64.ofInt number) :
    start + raw * UInt64.ofNat size = elementAddress start number size := by
  rw [elementAddress, same, UInt64.ofInt_mul, ← Memory.ofNat_eq_ofInt]

/-- Loads from the frame leave zeros above the bytes that they load. -/
theorem Storage.Loadable.word_lt {World : Type} {storage : Storage} (loadable : storage.Loadable)
    (machine : Machine World)
    (narrow : ∀ reg, storage.place = .register reg →
      (machine.word storage).toNat < 256 ^ storage.size) :
    (machine.word storage).toNat < 256 ^ storage.size := by
  cases loadable with
  | register reg size => exact narrow reg rfl
  | slot offset width =>
      have bound := fromLittleEndian_lt (machine.slot offset width.bytes)
      rw [Machine.length_slot] at bound
      simp only [Machine.word, UInt64.toNat_ofNat']
      exact Nat.lt_of_le_of_lt (Nat.mod_le _ _) bound

/-- With zeros above its bytes, a word counts as its number unless that is
negative and narrow. -/
theorem elementAddress_iff {kind : Scalar} (narrow : raw.toNat < kind.modulus) (positive : 0 < size)
    (small : size < 2 ^ 31) :
    start + raw * UInt64.ofNat size = elementAddress start (kind.number raw) size ↔
      0 ≤ kind.number raw ∨ kind.width = 8 := by
  have turns := kind.modulus_mul_mod_iff positive small
  rw [elementAddress, mul_eq_ofInt, UInt64.add_right_inj, ofInt_eq_iff]
  rcases Scalar.number_cases narrow with ⟨natural, same⟩ | ⟨negative, same⟩
  · rw [same]
    exact ⟨fun _ => .inl natural, fun _ => rfl⟩
  · rw [same, Int.emod_eq_emod_iff_emod_sub_eq_zero, ← Int.sub_mul,
      Int.add_comm (kind.number raw), Int.add_sub_cancel, ← turns, ← Int.natCast_mul]
    omega

end Addresses

namespace AtSite

variable {pointer index : Node} {info : Info} {slot : Int16} {size : Nat} {stream : Stream}
  {own : Storage}

/-- The code that reads an element at a computed index. -/
def indexedCode (pointer index : Node) (slot : Int16) (size : Nat) : List Insn :=
  pointer.storage.loadCode .r3 ++ (index.storage.loadCode .r0 ++
    ([.alu64Imm Opcode.mul .r0 (Int32.ofNat size), .alu64Reg Opcode.add .r3 .r0] ++
      Emit.readCode slot size .r3))

theorem yields_indexed (pointed : pointer.storage.Loadable) (indexed : index.storage.Loadable)
    (computed : index.num? = none) :
    Yields (emitPointerElement (.apply "[]" [pointer, index] info) ⟨.slot slot, size⟩)
      ⟨stream, own⟩ ()
      ⟨stream.append (indexedCode pointer index slot size), own⟩ := by
  refine yields_bind_iff.mpr ⟨(pointer, index), _, yields_pure_iff.mpr ⟨rfl, rfl⟩, ?_⟩
  simp only [computed, yields_bind_iff, yields_lift_iff, Emit.yields_loadReg_iff,
    Emit.yields_insn_iff, Emit.yields_readFrom_iff]
  refine ⟨(), _, ⟨_, ⟨pointed, rfl⟩, rfl⟩, (), _, ⟨_, ⟨indexed, rfl⟩, rfl⟩, (), _,
    ⟨_, rfl, rfl⟩, (), _, ⟨_, rfl, rfl⟩, _, ⟨slot, rfl, rfl⟩, ?_⟩
  simp only [Emit.append_append, indexedCode, List.append_assoc]
  rfl

theorem indexed_of_yields {storage : Storage} {finish : Site} (computed : index.num? = none)
    (found : Yields (emitPointerElement (.apply "[]" [pointer, index] info) storage)
      ⟨stream, own⟩ () finish) :
    ∃ slot, storage.place = .slot slot ∧
      finish = ⟨stream.append (indexedCode pointer index slot storage.size), own⟩ := by
  simp only [emitPointerElement, subscriptParts, Node.args, yields_bind_iff, yields_pure_iff,
    yields_lift_iff, Emit.yields_loadReg_iff] at found
  obtain ⟨_, _, ⟨rfl, rfl⟩, _, _, ⟨_, ⟨-, rfl⟩, rfl⟩, found⟩ := found
  simp only [computed, yields_bind_iff, yields_lift_iff, Emit.yields_loadReg_iff,
    Emit.yields_insn_iff, Emit.yields_readFrom_iff] at found
  obtain ⟨_, _, ⟨_, ⟨-, rfl⟩, rfl⟩, _, _, ⟨_, rfl, rfl⟩, _, _, ⟨_, rfl, rfl⟩, _,
    ⟨slot, placed, rfl⟩, rfl⟩ :=
    found
  refine ⟨slot, placed, ?_⟩
  simp only [Emit.append_append, indexedCode, List.append_assoc]
  rfl

theorem distant_of_yields {position : UInt64} {finish : Site}
    (constant : index.num? = some position)
    (found : Yields (emitPointerElement (.apply "[]" [pointer, index] info) ⟨.slot slot, size⟩)
      ⟨stream, own⟩ () finish) :
    ∃ distance, elementDistance? position size = some distance ∧ pointer.storage.Loadable ∧
      finish = ⟨stream.append (pointer.storage.distantCode slot size distance), own⟩ := by
  simp only [emitPointerElement, subscriptParts, Node.args, yields_bind_iff, yields_pure_iff,
    yields_lift_iff, Emit.yields_loadReg_iff] at found
  obtain ⟨_, _, ⟨rfl, rfl⟩, _, _, ⟨_, ⟨pointed, rfl⟩, rfl⟩, found⟩ := found
  cases folded : elementDistance? position size with
  | none =>
      simp only [constant, folded] at found
      exact absurd found not_yields_throw
  | some distance =>
      refine ⟨distance, rfl, pointed, ?_⟩
      simp only [constant, folded] at found
      unfold Storage.distantCode
      split at found
      · rename_i moved
        simp only [yields_bind_iff, yields_lift_iff, Emit.yields_insn_iff,
          Emit.yields_readFrom_iff] at found
        obtain ⟨_, _, ⟨_, rfl, rfl⟩, _, ⟨offset, placed, rfl⟩, rfl⟩ := found
        cases placed
        rw [if_pos moved, Emit.append_append, Emit.append_append]
      · rename_i still
        simp only [yields_lift_iff, Emit.yields_readFrom_iff] at found
        obtain ⟨_, ⟨offset, placed, rfl⟩, rfl⟩ := found
        cases placed
        rw [if_neg still, Emit.append_append]
        rfl

section Execution

variable {World : Type} {env : Environment World} {machine : Machine World}
  {readable : UInt64 → Prop}

/-- An element at a computed index is read where the loaded word says. -/
theorem runs_indexedCode (copies : env.Copies readable) (small : size < 2 ^ 31)
    (pointed : pointer.storage.Loadable) (indexed : index.storage.Loadable)
    (apart : index.storage.place ≠ .register .r3)
    (inside : ∀ position < size, readable (machine.word pointer.storage +
      machine.word index.storage * UInt64.ofNat size + UInt64.ofNat position)) :
    ∃ finish, Runs env (indexedCode pointer index slot size) machine finish ∧
      machine.Fetched slot size
        (machine.word pointer.storage + machine.word index.storage * UInt64.ofNat size) finish := by
  have scratch' : ¬ Reg.Lasting .r0 := fun lasting => lasting.1 rfl
  obtain ⟨started, starts, sets⟩ := runs_loadCode pointed env machine .r3
  obtain ⟨loaded, loads, sets'⟩ := runs_loadCode indexed env started .r0
  rw [sets.word (by decide) apart] at sets'
  let scaled := loaded.set .r0 (loaded.regs .r0 * UInt64.ofNat size)
  let moved := scaled.set .r3 (scaled.regs .r3 + scaled.regs .r0)
  have moves : Runs env [.alu64Imm Opcode.mul .r0 (Int32.ofNat size), .alu64Reg Opcode.add .r3 .r0]
      loaded moved := by
    rw [Runs, run_mulImm, immediate_ofNat small, run_add]
    rfl
  have here : moved.regs .r3 =
      machine.word pointer.storage + machine.word index.storage * UInt64.ofNat size := by
    rw [← sets.value, ← sets'.value, ← sets'.regs .r3 (by decide)]
    rfl
  rw [← here] at inside ⊢
  obtain ⟨finish, reads, fetched⟩ := runs_helperRead copies small slot .r3 inside
  refine ⟨finish, starts.append (loads.append (moves.append reads)), ?_⟩
  exact (((fetched.after (scaled.sets_set .r3 _) Reg.not_lasting_r3).after
    (loaded.sets_set .r0 _) scratch').after
    sets' scratch').after sets Reg.not_lasting_r3

end Execution

/-- The code of an element at a computed index always exists, and it is one
helper read of the size of an element.  The read starts where the element of the
index does if the index was loaded as the number it stands for.  With zeros
above its bytes, as values come from the frame and from the context, it does so
exactly if the index is not negative or takes all eight bytes.  An element at a
constant index is read where it starts, whenever it has code. -/
theorem pointerElement_executes {kind : Scalar} (pointed : pointer.storage.Loadable)
    (indexed : index.storage.Loadable) (sized : index.storage.size = kind.width)
    (apart : index.storage.place ≠ .register .r3) (computed : index.num? = none)
    (positive : 0 < size) (small : size < 2 ^ 31) :
    (∃ code, Yields (emitPointerElement (.apply "[]" [pointer, index] info) ⟨.slot slot, size⟩)
        ⟨stream, own⟩ () ⟨stream.append code, own⟩ ∧
      ∀ {World : Type} (env : Environment World) (readable : UInt64 → Prop)
          (machine : Machine World),
        env.Copies readable →
        let start := machine.word pointer.storage
        let word := machine.word index.storage
        let source := start + word * UInt64.ofNat size
        (∀ position < size, readable (source + UInt64.ofNat position)) →
          (∃ finish, Runs env code machine finish ∧ machine.Fetched slot size source finish ∧
            finish.slot slot size = machine.memory.read source size) ∧
          (word = UInt64.ofInt (kind.number word) →
            source = elementAddress start (kind.number word) size) ∧
          ((∀ reg, index.storage.place = .register reg → word.toNat < kind.modulus) →
            (source = elementAddress start (kind.number word) size ↔
              0 ≤ kind.number word ∨ kind.width = 8))) ∧
    ∀ (constant : Node) (number : Int) (finish : Site),
      constant.num? = some (UInt64.ofInt number) →
      Yields (emitPointerElement (.apply "[]" [pointer, constant] info) ⟨.slot slot, size⟩)
        ⟨stream, own⟩ () finish →
      ∃ code, finish = ⟨stream.append code, own⟩ ∧
        ∀ {World : Type} (env : Environment World) (readable : UInt64 → Prop)
          (machine : Machine World), env.Copies readable →
          let source := elementAddress (machine.word pointer.storage) number size
          (∀ position < size, readable (source + UInt64.ofNat position)) →
            ∃ finish, Runs env code machine finish ∧ machine.Fetched slot size source finish ∧
              finish.slot slot size = machine.memory.read source size := by
  refine ⟨⟨_, yields_indexed pointed indexed computed,
    fun {World} env readable machine copies => ?_⟩,
    fun constant number finish literal found => ?_⟩
  · intro start word source inside
    obtain ⟨finish, runs, fetched⟩ := runs_indexedCode copies small pointed indexed apart inside
    refine ⟨⟨finish, runs, fetched, fetched.slot (by omega)⟩,
      elementAddress_of_word, fun narrow => ?_⟩
    have modulus : kind.modulus = 256 ^ index.storage.size := by rw [Scalar.modulus, sized]
    rw [modulus] at narrow
    exact elementAddress_iff (modulus ▸ indexed.word_lt machine narrow) positive small
  · obtain ⟨distance, folded, -, rfl⟩ := distant_of_yields literal found
    have same : Opcode.immediate distance = UInt64.ofInt number * UInt64.ofNat size :=
      immediate_of_smallImmediate? folded
    refine ⟨_, rfl, fun {World} env readable machine copies => ?_⟩
    intro source inside
    have here : source = machine.word pointer.storage + Opcode.immediate distance := by
      rw [same]
      exact (elementAddress_of_word rfl).symm
    rw [here] at inside ⊢
    obtain ⟨finish, runs, fetched⟩ := runs_distantCode copies small pointed slot inside
    exact ⟨finish, runs, fetched, fetched.slot (by omega)⟩

/-- A pointer in a register. -/
def startNode : Node :=
  .ident "p" { storage := ⟨.register (.virtual 0), 8⟩ }

/-- An index of four bytes with a sign, in a register. -/
def narrowIndex : Node :=
  .ident "x" { storage := ⟨.register (.virtual 1), 4⟩ }

/-- The index is -1, with zeros above its bytes. -/
def negativeMachine : Machine Unit :=
  Machine.zeros.set (.virtual 1) 0xffffffff

/-- Elements of eight bytes are read far behind the one before the pointer. -/
theorem pointerElement_executes_negative : ∃ code finish,
    Yields (emitPointerElement (.apply "[]" [startNode, narrowIndex] {}) ⟨.slot (-8), 8⟩)
      ⟨Stream.new 512, {}⟩ () ⟨(Stream.new 512).append code, {}⟩ ∧
    Runs .copier code negativeMachine finish ∧
    finish.asked = [askedRead 8 (0xffffffff * 8)] ∧
    Scalar.s32.number (negativeMachine.word narrowIndex.storage) = -1 ∧
    (0xffffffff * 8 : UInt64) ≠ elementAddress 0 (-1) 8 := by
  obtain ⟨⟨code, found, executes⟩, -⟩ :=
    @pointerElement_executes startNode narrowIndex {} (-8) 8 (Stream.new 512) {} .s32
      (.register _ _) (.register _ _) rfl (by decide) rfl (by decide) (by decide)
  obtain ⟨⟨finish, runs, fetched, -⟩, -, exact⟩ :=
    executes .copier _ negativeMachine Environment.copies_copier fun _ _ => trivial
  have number : Scalar.s32.number (negativeMachine.word narrowIndex.storage) =
      -1 := by decide +kernel
  refine ⟨code, finish, found, runs, fetched.asked, number, ?_⟩
  intro same
  have natural := (exact fun reg _ => by decide +kernel).mp (number ▸ same)
  rw [number] at natural
  exact absurd natural (by decide)

end AtSite

end TraceProbe
