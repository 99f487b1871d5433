import TraceProbe.Proofs.Emission.AuditedMoves
import TraceProbe.Proofs.Emission.Texts

/-!
# Operators under audit

What is emitted for leaves, for reads of members and of memory, and for
comparisons writes the whole slot of the value.
-/

namespace TraceProbe

open Insn

variable {good : Helper → Facts → Prop} {written : Int → Prop} {symbols : Symbols}
  {request : Request} {stream middle finish : Stream} {own : Storage} {info : Info} {type : Ty}
  {literal : List Ty → Ty → Prop}

theorem Stream.audits_unassigned : stream.Audits good written stream (Storage.Covers {}) := by
  have audits : stream.Audits good written stream written := Stream.Audits.same rfl
  apply audits.weaken
  · intro _
    exact id
  · intro _ covers
    exact absurd covers Storage.not_covers_unassigned

theorem Stream.audits_load {width : Width} {reg src : Reg} {offset : Int16} {size : Nat}
    (fillable : Storage.Fillable ⟨.register reg, size⟩) :
    stream.Audits good written (stream.append [load width.bits reg src offset])
      (Storage.Covers ⟨.register reg, size⟩) := by
  refine .of_append (Audit.weaken (.of_harmless ?_) (fun _ => id)
    fun _ covers => absurd covers Storage.not_covers_register)
  rw [List.all_cons, harmless_load fun same => fillable.register (same ▸ rfl),
    List.all_nil, Bool.and_self]

namespace AtSite

theorem audits_loadContext {node : Node} {storage : Storage} {offset : Int16} {site : Site}
    (fillable : storage.Fillable)
    (found : Yields (loadContext node storage offset) ⟨stream, own⟩ () site) :
    stream.Audits good written site.stream storage.Covers := by
  obtain ⟨-, ⟨reg, width, rfl, same⟩ | ⟨slot, width, rfl, same⟩ | read⟩ := yields_loadContext found
  · rw [same]
    exact Stream.audits_load fillable
  · have loaded : [load width.bits .r0 .context offset].all harmless = true := by
      rw [List.all_cons, harmless_load (by decide), List.all_nil, Bool.and_self]
    rw [same]
    exact .of_append (Audit.weaken (.behind_harmless loaded
      (.of_write harmless_store fun facts => facts.step_store width .frame .r0 slot)) (fun _ => id)
        fun _ => Storage.covers_slot.mp)
  · exact read.audits fillable

theorem audits_leaf {node : Node} (leaf : node.operator? = none) (fillable : own.Fillable)
    (found : Yields (AtSite.leaf symbols node request) ⟨stream, {}⟩ () ⟨finish, own⟩) :
    stream.Audits good written finish own.Covers := by
  rcases yields_leaf leaf found with ⟨rfl, rfl⟩ | ⟨_, middle, -, extended, -, filled⟩
  · exact Stream.audits_unassigned
  · refine Stream.Audits.later ?_ extended
    cases node with
    | apply _ _ _ => exact filled.elim
    | num value unsigned info => exact Emit.audits_constant fillable.register filled
    | str value info =>
        obtain ⟨offset, whole, rfl⟩ := filled
        rw [whole] at fillable
        have fill : Audit good written (Block.fill offset (paddedBytes value own.size))
            (Slot offset (paddedBytes value own.size).length) :=
          Block.audit_fill (by rw [length_paddedBytes]; exact fillable.slot)
        rw [length_paddedBytes] at fill
        rw [whole]
        exact .of_append (fill.weaken (fun _ => id) fun _ => Storage.covers_slot.mp)
    | ident name info =>
        obtain ⟨offset, loaded⟩ := filled
        exact audits_loadContext fillable loaded

end AtSite

namespace Node

open AtSite

theorem audits_deref {pointer : Node} (typed : (apply "u*" [pointer] info).type? = some type)
    (fillable : own.Fillable) (untargeted : request.target = false)
    (found : Yields ((apply "u*" [pointer] info).finishApplication symbols request) ⟨middle, {}⟩ ()
      ⟨finish, own⟩) : middle.Audits good written finish own.Covers := by
  rcases yields_deref typed found with ⟨rfl, rfl⟩ | ⟨stream, extended, -, -, read⟩
  · exact Stream.audits_unassigned
  · rw [if_neg (by simp [untargeted])] at read
    exact (read.audits fillable).later extended

theorem audits_dot {base member : Node} (typed : (apply "." [base, member] info).type? = some type)
    (rule : Rule literal "." [base, member] type) (fillable : own.Fillable)
    (found : Yields ((apply "." [base, member] info).finishApplication symbols request)
      ⟨middle, {}⟩ () ⟨finish, own⟩) : middle.Audits good written finish own.Covers := by
  obtain ⟨shape, name, field, based, named, -, rfl⟩ := rule.member rfl rfl
  have found := finished_by rfl found
  obtain ⟨own', stream, offset, -, extended, -, found⟩ := yields_emitDot typed based named found
  refine Stream.Audits.later ?_ extended
  split at found
  · exact (yields_readMember (List.mem_singleton_self base) found).2.audits fillable
  · obtain ⟨rfl, ⟨_, place, reg, width, -, -, rfl, rfl⟩ | read⟩ := yields_takeMember [] found
    · exact Stream.audits_load fillable
    · exact read.audits fillable

section Texts

variable {source : Node} {rest : List Node}

theorem audits_mem (typed : (apply "mem" (source :: rest) info).type? = some type)
    (fillable : own.Fillable)
    (found : Yields ((apply "mem" (source :: rest) info).finishApplication symbols request)
      ⟨middle, {}⟩ () ⟨finish, own⟩) : middle.Audits good written finish own.Covers := by
  obtain ⟨stream, extended, -, read⟩ := yields_mem typed found
  exact (read.audits fillable).later extended

/-- The buffer of a string is cleared before the helper writes what there is of
the string. -/
theorem audits_str (typed : (apply "str" (source :: rest) info).type? = some type)
    (fillable : own.Fillable)
    (found : Yields ((apply "str" (source :: rest) info).finishApplication symbols request)
      ⟨middle, {}⟩ () ⟨finish, own⟩) : middle.Audits good written finish own.Covers := by
  obtain ⟨stream, offset, code, extended, -, whole, loads, rfl⟩ := yields_str typed found
  rw [whole] at fillable
  have cleared : Audit good written (Block.clear offset own.size) (Slot offset own.size) :=
    Block.audit_clear fillable.slot
  have reading : Audit good (fun position => written position ∨ Slot offset own.size position)
      (code ++
        (Block.address .r1 offset ++ [movImm .r2 (Int32.ofNat own.size)] ++ [callOf .probeReadStr]))
      fun _ => False :=
    .behind_harmless (loads.harmless (by decide))
      (.of_call rfl (fun _ _ onMap => by cases onMap) fun _ _ _ none => none.elim)
  have audit : stream.Audits good written _ _ := .of_append (cleared.append reading)
  rw [List.append_assoc (Block.address _ _)] at audit
  rw [whole]
  exact (audit.later extended).weaken (fun _ => id) fun position covers =>
    .inl (Storage.covers_slot.mp covers)

/-- A comparison may be left early, and its result is stored behind it. -/
theorem audits_strcmp {left right : Node}
    (typed : (apply "strcmp" [left, right] info).type? = some type) (fillable : own.Fillable)
    (found : Yields ((apply "strcmp" [left, right] info).finishApplication symbols request)
      ⟨middle, {}⟩ () ⟨finish, own⟩) : middle.Audits good written finish own.Covers := by
  obtain ⟨stream, _, _, swapped, _, comparand, _, _, done, code, code', extended, -, -, -, -, -, -,
    compares, stores, grown⟩ := yields_strcmp typed found
  have other : own.register?.getD .r0 ≠ .frame := by
    cases register : own.register? with
    | none => decide
    | some reg =>
        rintro rfl
        obtain ⟨place, size⟩ := own
        cases place <;> cases register
        exact fillable.register rfl
  have compared : Audit good written (code ++ [label done]) written :=
    .of_leaves (comparand.leaves_compareFrom other compares)
  have turned : (if swapped then [alu64Imm Opcode.neg (own.register?.getD .r0) 0] else []).all
      Insn.harmless = true := by
    split
    · exact Bool.and_eq_true_iff.mpr ⟨harmless_plain (.inl rfl) other, rfl⟩
    · rfl
  have stored := compared.append (.behind_harmless turned (stores.audit fillable.register))
  refine Stream.Audits.later ⟨_, grown.code, ?_⟩ extended
  simpa using stored.weaken (fun _ => id) fun _ => .inr

end Texts

end Node

end TraceProbe
