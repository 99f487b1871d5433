import TraceProbe.Proofs.Emission.AuditedCode
import TraceProbe.Proofs.Emission.Keys

/-!
# Moves under audit

A move between storages writes the storage that it moves to, however a walk goes
through its code.
-/

namespace TraceProbe

/-- An audit of the code between two streams. -/
def Stream.Audits (good : Helper → Facts → Prop) (written : Int → Prop) (stream finish : Stream)
    (wrote : Int → Prop) : Prop :=
  ∃ added, finish.code = stream.code ++ added ∧ Audit good written added wrote

namespace Stream.Audits

variable {good other : Helper → Facts → Prop} {written wrote more fewer : Int → Prop}
  {stream middle finish : Stream} {added : List Insn}

theorem of_append (audit : Audit good written added wrote) :
    Audits good written stream (stream.append added) wrote :=
  ⟨added, stream.code_append added, audit⟩

theorem same (code : finish.code = stream.code) : Audits good written stream finish written :=
  ⟨[], by rw [code, List.append_nil], .nil⟩

theorem weaken (audits : Audits good written stream finish wrote)
    (enough : ∀ position, written position → more position)
    (less : ∀ position, fewer position → wrote position) :
    Audits good more stream finish fewer := by
  obtain ⟨added, code, audit⟩ := audits
  exact ⟨added, code, audit.weaken enough less⟩

theorem append {behind : Int → Prop} (before : Audits good written stream middle wrote)
    (after : Audits good (fun position => written position ∨ wrote position) middle finish behind) :
    Audits good written stream finish fun position => wrote position ∨ behind position := by
  obtain ⟨early, code, audit⟩ := before
  obtain ⟨late, code', audit'⟩ := after
  exact ⟨early ++ late, by rw [code', code, List.append_assoc], audit.append audit'⟩

theorem later (audits : Audits good written middle finish wrote)
    (extended : stream.Extends middle []) :
    Audits good written stream finish wrote := by
  obtain ⟨added, code, audit⟩ := audits
  exact ⟨added, by rw [code, extended.code, List.append_nil], audit⟩

end Stream.Audits

namespace Storage

/-- The storage lies below the frame pointer, or in a register other than that. -/
structure Fillable (storage : Storage) : Prop where
  register : storage.place ≠ .register .frame
  below : ∀ position, storage.Covers position → position < 0

theorem Fillable.slot {offset : Int16} {size : Nat} (fillable : Fillable ⟨.slot offset, size⟩) :
    ∀ position, Slot offset size position → position < 0 := by
  intro position inside
  exact fillable.below position (covers_slot.mpr inside)

end Storage

namespace Emit

open Insn

variable {good : Helper → Facts → Prop} {written : Int → Prop} {stream finish : Stream}
  {dst src : Storage} {result : Unit} {reg : Reg} {code : List Insn}

theorem Loads.harmless (loads : Loads reg src code) (other : reg ≠ .frame) :
    code.all Insn.harmless = true := by
  cases loads with
  | here _ => rfl
  | move _ _ => rw [List.all_cons, harmless_move other, List.all_nil, Bool.and_self]
  | slot offset width => rw [List.all_cons, harmless_load other, List.all_nil, Bool.and_self]

theorem Stores.audit (stores : Stores reg dst code) (other : dst.place ≠ .register .frame) :
    Audit good written code dst.Covers := by
  have nowhere {size : Nat} {place : Reg} (harmless : code.all Insn.harmless = true) :
      Audit good written code (Storage.Covers ⟨.register place, size⟩) :=
    (Audit.of_harmless harmless).weaken (fun _ => id)
      fun _ covers => absurd covers Storage.not_covers_register
  cases stores with
  | here _ => exact nowhere rfl
  | move _ _ =>
      refine nowhere ?_
      rw [List.all_cons, harmless_move fun same => other (same ▸ rfl), List.all_nil, Bool.and_self]
  | slot offset width =>
      refine Audit.weaken (.of_write harmless_store fun facts =>
        facts.step_store width .frame reg offset) (fun _ => id) ?_
      intro position covers
      exact Storage.covers_slot.mp covers

theorem Copies.audit {offset : Int16} (copies : Copies offset src code)
    (below : ∀ position, Slot offset src.size position → position < 0)
    (ready : ∀ position, src.place = .slot offset →
      Slot offset src.size position → written position) :
    Audit good written code (Slot offset src.size) := by
  cases copies with
  | register reg width =>
      exact .of_write harmless_store fun facts => facts.step_store width .frame reg offset
  | slot start size =>
      refine Block.audit_copy below ?_
      rintro rfl position inside
      exact ready position rfl inside

theorem Points.harmless {srcs : List Storage} (points : Points srcs reg code) :
    code.all Insn.harmless = true := by
  have free {first : Reg} (scratch : first = .r0 ∨ first = .r3) : first ≠ .frame := by
    rintro rfl
    revert scratch
    decide
  cases points with
  | value scratch loads => exact loads.harmless (free scratch)
  | moved distance loads =>
      rw [List.all_append, loads.harmless (free (.inr rfl))]
      rfl
  | scaled size loads loads' =>
      rw [List.all_append, List.all_append, loads.harmless (free (.inr rfl)),
        loads'.harmless (free (.inl rfl))]
      rfl
  | frame _ | context _ => rfl

theorem audits_constant {value : UInt64} (other : dst.place ≠ .register .frame)
    (found : Yields (constant dst value) stream result finish) :
    stream.Audits good written finish dst.Covers := by
  obtain ⟨place, size⟩ := dst
  cases place with
  | unassigned => exact absurd found not_yields_constant_unassigned
  | register target =>
      rw [yields_constant_register_iff] at found
      subst found
      have other : target ≠ .frame := fun same => other (same ▸ rfl)
      refine .of_append (Audit.weaken (.of_harmless ?_) (fun _ => id)
        fun _ covers => absurd covers Storage.not_covers_register)
      split
      · rw [List.all_cons, harmless_movImm other, List.all_nil, Bool.and_self]
      · rw [List.all_cons, harmless_wide other, List.all_nil, Bool.and_self]
  | slot offset =>
      obtain ⟨width, known, rfl⟩ := yields_constant_slot_iff.mp found
      rw [← Width.bytes_of_ofBytes? known]
      have audit : Audit good written (constantCode width offset value)
          (Slot offset width.bytes) := by
        unfold constantCode
        split
        · exact .of_write harmless_storeImm fun facts => facts.step_storeImm width .frame offset _
        · have harmless : [Insn.wide .r0 value].all Insn.harmless = true := rfl
          have stores : Audit good written [store width.bits .frame .r0 offset]
              (Slot offset width.bytes) :=
            .of_write harmless_store fun facts => facts.step_store width .frame .r0 offset
          exact .behind_harmless harmless stores
      exact .of_append (audit.weaken (fun _ => id) fun _ => Storage.covers_slot.mp)

/-- A value that is copied to a storage of its own size.  What is copied onto
itself must have been written before. -/
theorem audits_copyTo (fillable : dst.Fillable) (same : src.size = dst.size)
    (ready : ∀ position, src.place = dst.place → src.Covers position → written position)
    (found : Yields (copyTo dst src) stream result finish) :
    stream.Audits good written finish dst.Covers := by
  obtain ⟨place, size⟩ := dst
  cases place with
  | unassigned => exact absurd found not_yields_copyTo_unassigned
  | register target =>
      obtain ⟨code, loads, rfl⟩ := loads_of_yields found
      have other : target ≠ .frame := fun same => fillable.register (same ▸ rfl)
      exact .of_append (Audit.weaken (.of_harmless (loads.harmless other)) (fun _ => id)
        fun _ covers => absurd covers Storage.not_covers_register)
  | slot offset =>
      obtain ⟨code, copies, rfl⟩ := copies_of_yields found
      obtain rfl : src.size = size := same
      exact .of_append ((copies.audit fillable.slot fun position placed inside =>
        ready position placed ⟨offset, placed, inside⟩).weaken (fun _ => id)
          fun _ => Storage.covers_slot.mp)

theorem audits_read (fillable : dst.Fillable) (harmless : code.all Insn.harmless = true)
    (found : Yields (readFrom dst reg) (stream.append code) result finish) :
    stream.Audits good written finish dst.Covers := by
  obtain ⟨offset, placed, rfl⟩ := yields_readFrom_iff.mp found
  obtain ⟨place, size⟩ := dst
  obtain rfl : place = .slot offset := placed
  rw [append_append]
  refine .of_append (Audit.weaken (.behind_harmless harmless (audit_readCode ?_)) (fun _ => id)
    fun _ => Storage.covers_slot.mp)
  exact size_le_of_below fillable.slot

end Emit

theorem ReadBehind.audits {good : Helper → Facts → Prop} {written : Int → Prop} {trees : List Node}
    {stream finish : Stream} {own : Storage} (read : ReadBehind trees own stream finish)
    (fillable : own.Fillable) : stream.Audits good written finish own.Covers := by
  obtain ⟨srcs, reg, code, points, -, found⟩ := read
  exact Emit.audits_read fillable points.harmless found

namespace AtSite

open Insn

variable {good : Helper → Facts → Prop} {written : Int → Prop} {stream : Stream} {own : Storage}
  {site : Site}

/-- A converted value.  What is copied onto itself must have been written before. -/
theorem audits_convert {dst src : Storage} {node : Node} (fillable : dst.Fillable)
    (ready : ∀ position, src.place = dst.place → src.Covers position → written position)
    (found : Yields (convert dst src node) ⟨stream, own⟩ () site) :
    stream.Audits good written site.stream dst.Covers := by
  rcases yields_convert found with
      ⟨same, _, copied, rfl⟩ | ⟨signed, code, code', loads, stores, rfl⟩
  · exact Emit.audits_copyTo fillable same ready copied
  · refine .of_append (Audit.behind_harmless (loads.harmless (by decide)) (.behind_harmless ?_
      (stores.audit fillable.register)))
    unfold Emit.wideningCode
    split <;> rfl

end AtSite

end TraceProbe
