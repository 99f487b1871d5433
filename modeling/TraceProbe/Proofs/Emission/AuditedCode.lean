import TraceProbe.Proofs.Emission.MapCode
import TraceProbe.Proofs.Machine.Audits

/-!
# Audits of emitted code

What the pieces of code that emission is made of write to the frame, however a
walk goes through them.
-/

namespace TraceProbe

namespace Block

open Insn

variable {good : Helper → Facts → Prop} {written : Int → Prop}

section Below

variable {start : Int} {width : Width} {widths : List Width}
  (below : ∀ position, Span start (extent (width :: widths)) position → position < 0)
include below

theorem below_first (positive : 0 < width.bytes) : start < 0 := by
  refine below start ⟨Int.le_refl _, ?_⟩
  rw [extent]
  omega

theorem below_rest : ∀ position, Span (start + width.bytes) (extent widths) position →
    position < 0 := by
  rintro position ⟨low, high⟩
  refine below position ⟨by omega, ?_⟩
  rw [extent]
  omega

end Below

theorem audit_zeros {start : Int} {widths : List Width} (low : -0x8000 ≤ start)
    (below : ∀ position, Span start (extent widths) position → position < 0) :
    Audit good written (zeros start widths) (Span start (extent widths)) := by
  induction widths generalizing start with
  | nil => exact .empty
  | cons width widths ih =>
      have positive := width.bytes_pos
      have negative := below_first below positive
      have stored : Audit good written [storeImm width.bits .frame (Int16.ofInt start) 0]
          (Span start width.bytes) := by
        have found := @Audit.of_write good written _ (Int16.ofInt start) width.bytes
          harmless_storeImm fun facts => facts.step_storeImm width .frame _ 0
        rwa [Int16.toInt_ofInt_of_le low (by omega)] at found
      exact stored.join (ih (by omega) (below_rest below))

theorem audit_clear {offset : Int16} {size : Nat}
    (below : ∀ position, Slot offset size position → position < 0) :
    Audit good written (clear offset size) (Slot offset size) := by
  have whole := extent_cut (show 0 < 8 by decide) offset.toInt offset.toInt size
  have found := @audit_zeros good written offset.toInt (cut 8 offset.toInt offset.toInt size)
    offset.le_toInt (by rw [whole]; exact below)
  rwa [whole] at found

theorem audit_fills {start : Int} {bytes : List UInt8} {widths : List Width} (low : -0x8000 ≤ start)
    (below : ∀ position, Span start (extent widths) position → position < 0) :
    Audit good written (fills start bytes widths) (Span start (extent widths)) := by
  induction widths generalizing start bytes with
  | nil => exact .empty
  | cons width widths ih =>
      have positive := width.bytes_pos
      have negative := below_first below positive
      have stored : Audit good written
          [storeImm width.bits .frame (Int16.ofInt start) (immediate (bytes.take width.bytes))]
          (Span start width.bytes) := by
        have found := @Audit.of_write good written _ (Int16.ofInt start) width.bytes
          harmless_storeImm fun facts => facts.step_storeImm width .frame _
            (immediate (bytes.take width.bytes))
        rwa [Int16.toInt_ofInt_of_le low (by omega)] at found
      exact stored.join (ih (by omega) (below_rest below))

theorem audit_fill {offset : Int16} {bytes : List UInt8}
    (below : ∀ position, Slot offset bytes.length position → position < 0) :
    Audit good written (fill offset bytes) (Slot offset bytes.length) := by
  have whole := extent_cut (show 0 < 4 by decide) offset.toInt offset.toInt bytes.length
  have found := @audit_fills good written offset.toInt bytes
    (cut 4 offset.toInt offset.toInt bytes.length) offset.le_toInt (by rw [whole]; exact below)
  rwa [whole] at found

theorem audit_transfers {dst src : Int} {widths : List Width} (low : -0x8000 ≤ dst)
    (below : ∀ position, Span dst (extent widths) position → position < 0) :
    Audit good written (transfers dst src widths) (Span dst (extent widths)) := by
  induction widths generalizing dst src with
  | nil => exact .empty
  | cons width widths ih =>
      have positive := width.bytes_pos
      have negative := below_first below positive
      have loaded : [load width.bits .r0 .frame (Int16.ofInt src)].all harmless = true := by
        rw [List.all_cons, harmless_load (by decide)]
        rfl
      have stored : Audit good written [store width.bits .frame .r0 (Int16.ofInt dst)]
          (Span dst width.bytes) := by
        have found := @Audit.of_write good written _ (Int16.ofInt dst) width.bytes
          harmless_store fun facts => facts.step_store width .frame .r0 _
        rwa [Int16.toInt_ofInt_of_le low (by omega)] at found
      have rest := stored.join (@ih (dst + width.bytes) (src + width.bytes) (by omega)
        (below_rest below))
      exact .behind_harmless loaded rest

/-- Bytes that are copied onto themselves must have been written before. -/
theorem audit_copy {dst src : Int16} {size : Nat}
    (below : ∀ position, Slot dst size position → position < 0)
    (ready : dst = src → ∀ position, Slot dst size position → written position) :
    Audit good written (copy dst src size) (Slot dst size) := by
  unfold copy
  split
  · rename_i same
    exact Audit.nil.weaken (fun _ => id) (ready same)
  · have whole := extent_cut (show 0 < 8 by decide) dst.toInt src.toInt size
    have found := @audit_transfers good written dst.toInt src.toInt
      (cut 8 dst.toInt src.toInt size) dst.le_toInt (by rw [whole]; exact below)
    rwa [whole] at found

theorem after_address (facts : Facts) {dst : Reg} (offset : Int16)
    (frame : facts.known .frame = .place 0) :
    facts.after (address dst offset) =
      (facts.learn dst (.place 0)).learn dst (.place offset.toInt) := by
  have low := offset.le_toInt
  have high := offset.toInt_lt
  simp only [address, Facts.after_cons, Facts.after_nil, Facts.step_move, Facts.step_addImm,
    Facts.known_learn_self, frame, Int.zero_add]
  rw [Int32.toInt_ofInt_of_le (by omega) (by omega)]

end Block

namespace Emit

open Insn

variable {good : Helper → Facts → Prop} {written : Int → Prop}

/-- What lies below the frame pointer is no longer than the frame. -/
theorem size_le_of_below {offset : Int16} {size : Nat}
    (below : ∀ position, Slot offset size position → position < 0) : size ≤ 32768 := by
  have low := offset.le_toInt
  rcases Nat.eq_zero_or_pos size with rfl | some
  · exact Nat.zero_le _
  · have last := below (offset.toInt + size - 1) ⟨by omega, by omega⟩
    omega

theorem audit_readCode {offset : Int16} {size : Nat} {src : Reg} (small : size ≤ 32768) :
    Audit good written (readCode offset size src) (Span offset.toInt size) := by
  have value : (Int32.ofNat size).toInt = size := Int32.toInt_ofNat_of_lt (by omega)
  have read : Audit good written
      ((.movImm .r2 (Int32.ofNat size) :: Block.address .r1 offset) ++ [.callOf .probeRead])
      (Span offset.toInt size) := by
    refine .of_call rfl (fun _ _ onMap => (by cases onMap)) ?_
    intro facts has position inside
    have known : (facts.learn .r2 (.number size)).known .frame = .place 0 := has.frame
    rw [Facts.after_cons, Facts.step_movImm, value, Block.after_address _ _ known]
    refine .inr ?_
    rwa [Int.add_zero]
  unfold readCode
  split
  · exact read
  · exact .behind_harmless rfl read

end Emit

namespace AtSite

open Insn

variable {good : Helper → Facts → Prop} {written : Int → Prop}

theorem not_label_of_inert {code : List Insn} (inert : code.all Insn.inert = true) (name : Label) :
    .label name ∉ code := by
  intro member
  cases List.all_eq_true.mp inert _ member

section Calls

variable {number : Nat} {key : Int16}

theorem known_named (number : Nat) (key : Int16) {facts : Facts}
    (frame : facts.known .frame = .place 0) :
    let named := facts.after (.mapRef .r1 number :: Block.address .r2 key)
    named.known .r1 = .map number ∧ named.known .r2 = .place key.toInt := by
  have kept : (facts.learn .r1 (.map number)).known .frame = .place 0 := frame
  rw [Facts.after_cons, Facts.step_mapRef, Block.after_address _ _ kept]
  exact ⟨rfl, rfl⟩

theorem audit_named {helper : Helper}
    (fits : ∀ facts : Facts, facts.Has written → facts.known .r1 = .map number →
      facts.known .r2 = .place key.toInt → good helper facts) :
    Audit good written ((.mapRef .r1 number :: Block.address .r2 key) ++ [.callOf helper])
      (fun _ => False) := by
  have harmless : (mapRef .r1 number :: Block.address .r2 key).all Insn.harmless = true := rfl
  refine .of_call harmless ?_ fun _ _ _ none => none.elim
  intro facts has _
  obtain ⟨map, place⟩ := known_named number key has.frame
  exact fits _ (has.after_harmless harmless) map place

/-- A read of an element writes the slot of its value, whether or not the map
holds the key. -/
theorem audit_lookupCode {offset : Int16} {size : Nat} {miss hit : Label} (different : miss ≠ hit)
    (below : ∀ position, Slot offset size position → position < 0)
    (fits : ∀ facts : Facts, facts.Has written → facts.known .r1 = .map number →
      facts.known .r2 = .place key.toInt → good .mapLookupElem facts) :
    Audit good written (lookupCode number key offset size miss hit) (Slot offset size) := by
  have branch : Audit good written
      (.jumpImm Opcode.jeq .r0 0 miss :: (Emit.readCode offset size .r0 ++
        (.goto hit :: .label miss :: (Block.clear offset size ++ [.label hit]))))
      (Span offset.toInt size) :=
    .of_branch different (not_label_of_inert (Emit.inert_readCode rfl))
      (not_label_of_inert (Block.inert_zeros _ _))
      (Emit.audit_readCode (Emit.size_le_of_below below))
      (Block.audit_clear below)
  exact ((audit_named fits).append (branch.weaken (fun _ => .inl) fun _ => id)).weaken
    (fun _ => id) fun _ => .inr

theorem audit_updateCode {value : Int16}
    (fits : ∀ facts : Facts, facts.Has written → facts.known .r1 = .map number →
      facts.known .r2 = .place key.toInt → facts.known .r3 = .place value.toInt →
        good .mapUpdateElem facts) :
    Audit good written (updateCode number key value) (fun _ => False) := by
  have harmless : ((mapRef .r1 number :: Block.address .r2 key) ++
      (Block.address .r3 value ++ [movImm .r4 0])).all Insn.harmless = true := rfl
  have found : Audit good written (((.mapRef .r1 number :: Block.address .r2 key) ++
      (Block.address .r3 value ++ [.movImm .r4 0])) ++ [.callOf .mapUpdateElem])
      (fun _ => False) := by
    refine .of_call harmless ?_ fun _ _ _ none => none.elim
    intro facts has _
    obtain ⟨map, place⟩ := known_named number key has.frame
    have named := @Facts.Has.after_harmless facts
      (mapRef .r1 number :: Block.address .r2 key) written has rfl
    refine fits _ (has.after_harmless harmless) ?_ ?_ ?_ <;>
      rw [Facts.after_append, Facts.after_append, Block.after_address _ _ named.frame]
    · exact map
    · exact place
    · rfl
  simpa [updateCode] using found

end Calls

end AtSite

namespace Comparand

open Insn

variable {comparand : Comparand} {dst : Reg} {done : Label} {position : Nat} {code : List Insn}

theorem leaves_subtract (other : dst ≠ .frame)
    (found : comparand.subtract dst position = .ok code) :
    ∀ insn ∈ code, Audit.Leaves done insn := by
  have harmless : code.all Insn.harmless = true := by
    cases comparand with
    | slot offset =>
        obtain ⟨place, -, found⟩ := ok_of_bind found
        cases found
        rw [List.all_cons, harmless_load (by decide), List.all_cons]
        exact Bool.and_eq_true_iff.mpr ⟨rfl, Bool.and_eq_true_iff.mpr
          ⟨harmless_plain (.inl rfl) other, rfl⟩⟩
    | literal bytes =>
        cases found
        exact Bool.and_eq_true_iff.mpr ⟨harmless_plain (.inl rfl) other, rfl⟩
  intro insn member
  exact Audit.leaves_of_harmless (List.all_eq_true.mp harmless insn member)

theorem leaves_leave : ∀ insn ∈ comparand.leave dst done, Audit.Leaves done insn := by
  have jumps {operation : UInt8} {reg : Reg}
      (known : operation = Opcode.jeq ∨ operation = Opcode.jne) :
      Audit.Leaves done (jumpImm operation reg 0 done) := by
    refine ⟨?_, fun same => (by cases same), fun _ called => (by cases called)⟩
    intro flow member
    rcases known with rfl | rfl <;>
    · have exits : flow ∈ [Flow.running, .seeking done] := member
      simpa using exits
  intro insn member
  cases comparand with
  | slot offset =>
      rcases List.mem_cons.mp member with rfl | member
      · exact jumps (.inl rfl)
      · obtain rfl := List.mem_singleton.mp member
        exact jumps (.inr rfl)
  | literal bytes =>
      obtain rfl := List.mem_singleton.mp member
      exact jumps (.inr rfl)

theorem leaves_compareFrom {base : Int16} {left : Nat} (other : dst ≠ .frame)
    (found : comparand.compareFrom dst base done position left = .ok code) :
    ∀ insn ∈ code, Audit.Leaves done insn := by
  induction left generalizing position code with
  | zero =>
      cases found
      intro insn member
      cases member
  | succ left ih =>
      rw [compareFrom] at found
      obtain ⟨place, -, found⟩ := ok_of_bind found
      obtain ⟨difference, subtracted, found⟩ := ok_of_bind found
      have compared : ∀ insn ∈ load Width.byte.bits dst .frame place :: difference,
          Audit.Leaves done insn := by
        intro insn member
        rcases List.mem_cons.mp member with rfl | later
        · exact Audit.leaves_of_harmless (harmless_load other)
        · exact leaves_subtract other subtracted insn later
      simp only at found
      split at found
      · cases found
        exact compared
      · obtain ⟨rest, continued, found⟩ := ok_of_bind found
        cases found
        intro insn member
        rcases List.mem_append.mp member with first | second
        · rcases List.mem_append.mp first with here | leaving
          · exact compared insn here
          · exact leaves_leave insn leaving
        · exact ih continued insn second

end Comparand

end TraceProbe
