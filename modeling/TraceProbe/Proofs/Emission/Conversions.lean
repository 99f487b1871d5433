import TraceProbe.Proofs.Emission.Carrying
import TraceProbe.Proofs.MapLanguage.Values
import TraceProbe.Proofs.Ty.Conformity

/-!
# Conversions

Assignments and map keys move values between slots of compatible types.  As
long as the types are no misfits, a value is either copied as it is or a scalar
that is cut off or widened by its sign.
-/

namespace TraceProbe

open Symbolic AtSite

theorem Ty.exists_width {type : Ty} (word : type.isScalar = true) :
    ∃ width : Width, width.bytes = type.size := by
  have fits : type.isWord = true := by rw [isWord, word, Bool.true_or]
  obtain ⟨width, found⟩ := Option.isSome_iff_exists.mp (isSome_ofBytes?_of_isWord fits)
  exact ⟨width, Width.bytes_of_ofBytes? found⟩

/-- Whether bytes in two slots can be moved from one to the other. -/
structure SlotsApart (dst src : Int16) (wanted own : Nat) : Prop where
  target : dst.toInt + wanted ≤ 0
  source : src.toInt + own ≤ 0
  apart : dst = src ∨ dst.toInt + wanted ≤ src.toInt ∨ src.toInt + own ≤ dst.toInt

namespace AtSite

variable {World : Type} {env : Environment World} {machine : Machine World} {dst src : Int16}
  {stream : Stream} {own : Storage} {node : Node}

theorem yields_convert_of_eq (dst src : Int16) (size : Nat) (node : Node) (stream : Stream)
    (own : Storage) :
    Yields (convert ⟨.slot dst, size⟩ ⟨.slot src, size⟩ node) ⟨stream, own⟩ ()
      ⟨stream.append (Block.copy dst src size), own⟩ := by
  unfold convert
  simp only [if_true, yields_lift_iff, Emit.copyTo_slot, Emit.yields_copyToSlot_slot_iff]
  exact ⟨_, rfl, rfl⟩

/-- Scalars of different width are loaded, widened and stored. -/
theorem yields_convert_of_ne {width target : Width} {type : Ty} (dst src : Int16) (stream : Stream)
    (own : Storage) (known : node.type? = some type) (different : width.bytes ≠ target.bytes) :
    Yields (convert ⟨.slot dst, target.bytes⟩ ⟨.slot src, width.bytes⟩ node) ⟨stream, own⟩ ()
      ⟨stream.append
        (convertCode src dst width target (decide (width.bytes < target.bytes) && type.isSigned)),
        own⟩ := by
  have typed : node.knownType = .ok type := knownType_eq_ok_iff.mpr known
  have moved (signed : Bool) :
      Yields (do
          Emit.loadWidened .r0 ⟨.slot src, width.bytes⟩ signed
          Emit.storeReg ⟨.slot dst, target.bytes⟩ .r0 : AtSite Unit) ⟨stream, own⟩ ()
        ⟨stream.append (convertCode src dst width target signed), own⟩ := by
    simp only [yields_bind_iff, yields_lift_iff, Emit.yields_loadWidened_iff,
      Emit.yields_loadReg_slot_iff, Emit.yields_storeReg_slot_iff]
    refine ⟨(), _, ⟨_, ⟨_, ⟨width, Width.ofBytes?_bytes width, rfl⟩, rfl⟩, rfl⟩, _,
      ⟨target, Width.ofBytes?_bytes target, rfl⟩, ?_⟩
    rw [Emit.append_append, Emit.append_append]
    rfl
  unfold convert
  simp only [if_neg different]
  by_cases wider : width.bytes < target.bytes
  · rw [if_pos wider, decide_eq_true wider, Bool.true_and, yields_bind_iff]
    exact ⟨type, _, yields_liftExcept_iff.mpr ⟨typed, rfl⟩, moved _⟩
  · rw [if_neg wider, decide_eq_false wider, Bool.false_and]
    exact moved false

theorem runs_copied (env : Environment World) (machine : Machine World) {size : Nat}
    (separate : SlotsApart dst src size size) :
    ∃ finish, Runs env (Block.copy dst src size) machine finish ∧
      finish.slot dst size = machine.slot src size := by
  obtain ⟨high, srcHigh, apart⟩ := separate
  have low := dst.le_toInt
  by_cases same : dst = src
  · rw [Block.copy, if_pos same, same]
    exact ⟨machine, .nil machine, rfl⟩
  · obtain ⟨finish, runs, wrote⟩ := Block.runs_copy env machine high srcHigh
      (apart.resolve_left same) same
    have moved := wrote.slot (by rw [machine.length_slot]; omega)
    rw [machine.length_slot] at moved
    exact ⟨finish, runs, moved⟩

end AtSite

namespace Ty

variable {left right : Ty}

/-- Compatible types are scalars or laid out alike exactly if they are no
misfits.  For all others, code that moves a value between two slots is found,
and it copies the bytes of types of one size, and otherwise cuts off or widens
a scalar by its sign. -/
theorem compatible_conversion (accepted : left.compatible right = true) :
    (left.isScalar = true ∧ right.isScalar = true ∨ Congruent left right ↔ ¬ Misfit left right) ∧
    (¬ Misfit left right → ∀ {World : Type} (env : Environment World) (dst src : Int16)
      (node : Node) (stream : Stream) (own : Storage), node.type? = some right →
        ∃ code, Yields (convert ⟨.slot dst, left.size⟩ ⟨.slot src, right.size⟩ node) ⟨stream, own⟩
            () ⟨stream.append code, own⟩ ∧
          (left.size = right.size ∧ code = Block.copy dst src right.size ∨
            left.size ≠ right.size ∧ left.isScalar = true ∧ right.isScalar = true) ∧
          ∀ machine : Machine World, SlotsApart dst src left.size right.size →
            ∃ finish, Runs env code machine finish ∧
              finish.slot dst left.size =
                resize right.isSigned left.size (machine.slot src right.size)) := by
  refine ⟨congruent_iff accepted, ?_⟩
  intro fits World env dst src node stream own known
  by_cases same : left.size = right.size
  · rw [same]
    refine ⟨_, yields_convert_of_eq dst src right.size node stream own, .inl ⟨rfl, rfl⟩, ?_⟩
    intro machine separate
    obtain ⟨finish, runs, moved⟩ := runs_copied env machine separate
    rw [resize_of_length_eq (machine.length_slot src right.size)]
    exact ⟨finish, runs, moved⟩
  · obtain ⟨word, other⟩ : left.isScalar = true ∧ right.isScalar = true := by
      rcases (congruent_iff accepted).mpr fits with words | congruent
      · exact words
      · exact absurd congruent.size same
    obtain ⟨target, wanted⟩ := exists_width word
    obtain ⟨width, given⟩ := exists_width other
    rw [← wanted, ← given] at same ⊢
    refine ⟨_, yields_convert_of_ne dst src stream own known (Ne.symm same),
      .inr ⟨same, word, other⟩, ?_⟩
    intro machine separate
    obtain ⟨finish, runs, wrote⟩ := wrote_convertCode env machine src dst width target
      right.isSigned
    have moved := wrote.slot (by rw [length_resize]; cases target <;> decide)
    rw [length_resize] at moved
    exact ⟨finish, runs, moved⟩

/-- Two bytes are taken for two half words. -/
theorem compatible_conversion_halves :
    (array (scalar .u16) 2).compatible (array (scalar .u8) 2) = true ∧
      ¬ Congruent (array (scalar .u16) 2) (array (scalar .u8) 2) := by
  have accepted : (array (scalar .u16) 2).compatible (array (scalar .u8) 2) = true := rfl
  refine ⟨accepted, ?_⟩
  intro congruent
  exact (compatible_conversion accepted).1.mp (.inr congruent) (.scalars (by decide) (by decide))

end Ty

end TraceProbe
