import TraceProbe.Proofs.Emission.DefinedRegisters
import TraceProbe.Proofs.Lowering.Totality

/-!
# Where jumps lead

A piece binds the labels that it jumps to, behind the jumps and not far away.
-/

namespace TraceProbe

namespace Insn

variable {code : List Insn} {insn : Insn} {name : Label}

theorem Form.target? {grant : Grant} (form : Form grant insn) (jumps : insn.target? = some name) :
    grant.targets name := by
  cases form with
  | jump imm operation use target | goto target =>
      cases jumps
      exact target
  | _ => cases jumps

theorem Formed.target? {grant : Grant} (formed : Formed grant code) (ample : grant.Ample)
    (member : insn ∈ code) (jumps : insn.target? = some name) : grant.targets name := by
  rcases formed.form ample member with form | ⟨helper, rfl⟩
  · exact form.target? jumps
  · cases jumps

end Insn

open Insn

/-- An access has a slot, and at least one byte; by induction on the accesses. -/
theorem Block.slots_zeros_le (start : Int) (widths : List Width) :
    totalOf slots (zeros start widths) ≤ extent widths := by
  induction widths generalizing start with
  | nil => exact Nat.le_refl _
  | cons width widths ih =>
      have rest := ih (start + width.bytes)
      have positive := width.bytes_pos
      have one : slots (storeImm width.bits .frame (Int16.ofInt start) 0) = 1 := rfl
      rw [zeros, totalOf, extent, one]
      omega

theorem Block.slots_clear_le (offset : Int16) (size : Nat) :
    totalOf slots (clear offset size) ≤ size := by
  have enough := slots_zeros_le offset.toInt (cut 8 offset.toInt offset.toInt size)
  rwa [extent_cut (by decide)] at enough

theorem Comparand.slots_compareFrom_le {comparand : Comparand} {reg : Reg}
    {base : Int16} {done : Label} {position left : Nat} {code : List Insn}
    (found : comparand.compareFrom reg base done position left = .ok code) :
    totalOf slots code ≤ 5 * left := by
  induction left generalizing position code with
  | zero =>
      cases found
      exact Nat.le_refl _
  | succ left ih =>
      rw [compareFrom] at found
      obtain ⟨place, -, found⟩ := ok_of_bind found
      obtain ⟨difference, subtracted, found⟩ := ok_of_bind found
      have compared : totalOf slots (Insn.load Width.byte.bits reg .frame place :: difference) +
          totalOf slots (comparand.leave reg done) ≤ 5 := by
        cases comparand with
        | slot offset =>
            obtain ⟨place', -, subtracted⟩ := ok_of_bind subtracted
            cases subtracted
            exact Nat.le_refl _
        | literal bytes =>
            cases subtracted
            show 3 ≤ 5
            decide
      simp only at found
      split at found
      · cases found
        omega
      · obtain ⟨rest, continued, found⟩ := ok_of_bind found
        cases found
        have later := ih continued
        rw [totalOf_append, totalOf_append]
        omega

namespace Piece

open Emit AtSite

variable {dst : Option Storage} {srcs : List Storage} {code : List Insn} {limit : Nat}

theorem target_mem (piece : Piece dst srcs code) {insn : Insn} (member : insn ∈ code) {name : Label}
    (jumps : insn.target? = some name) : .label name ∈ code :=
  (piece.formed fun _ => id).target? ample member jumps

theorem landing_of_unbound {reach : Nat} (piece : Piece dst srcs code)
    (unbound : boundLabels code = []) :
    Landing reach code := by
  refine landing_of_free ?_
  intro insn member
  cases jumps : insn.target? with
  | none => rfl
  | some name => exact absurd (piece.target_mem member jumps) (not_label_of_noLabels unbound name)

theorem landing_of_formed {reach : Nat} (formed : Formed (grant dst srcs fun _ => False) code) :
    Landing reach code := by
  refine landing_of_free ?_
  intro insn member
  cases jumps : insn.target? with
  | none => rfl
  | some name => exact (formed.target? ample member jumps).elim

theorem landing_lookup {number : Nat} {key offset : Int16} {size : Nat} {miss hit : Label}
    (small : size ≤ 512) : Landing 0x8000 (lookupCode number key offset size miss hit) := by
  have cleared := Block.slots_clear_le offset size
  have read : totalOf slots (readCode offset size .r0 ++ [goto hit]) = 6 := rfl
  have r1 : (grant none [] fun _ => False).sets .r1 := sets_scratch 1 (by decide)
  have last : Landing 0x8000 (Block.clear offset size ++ [label hit]) :=
    (landing_of_formed (@formed_clear [] _ offset size)).append (landing_nil.cons rfl)
  have skips :
      Landing 0x8000 (goto hit :: ((label miss :: Block.clear offset size) ++ [label hit])) := by
    refine landing_jump ?_ rfl (last.cons rfl)
    have none : slots (label miss) = 0 := rfl
    rw [totalOf, none]
    omega
  have skip :
      Landing 0x8000 (jumpImm Opcode.jeq .r0 0 miss :: ((readCode offset size .r0 ++ [goto hit]) ++
      label miss :: (Block.clear offset size ++ [label hit]))) := by
    refine landing_jump (by omega) rfl ?_
    rw [List.append_assoc]
    exact (landing_of_formed
      (@formed_readCode [] _ .r0 offset size (uses_scratch 0 (by decide)))).append skips
  have call : Landing 0x8000 (lookupCall number key) :=
    landing_of_formed (.cons (.mapRef number r1)
      ((formed_address (by decide)).append (.cons (.call rfl) .nil)))
  have whole := call.append skip
  simpa [lookupCode] using whole

/-- All jumps of a comparison leave it. -/
theorem landing_compare (own : Storage) {comparand : Comparand} {base : Int16} {done : Label}
    {length size : Nat} {others : List Storage} (small : size ≤ 512) (long : length ≤ size)
    (stored : comparand.Stored length others)
    (found : comparand.compareFrom (own.register?.getD .r0) base done 0 length = .ok code) :
    Landing 0x8000 (code ++ [label done]) := by
  have near := Comparand.slots_compareFrom_le found
  have formed : Formed (grant (some own) (⟨.slot base, size⟩ :: others) (· = done)) code :=
    formed_compareFrom sets_result rfl long stored (by omega) found
  exact landing_close (fun insn member target jumps => formed.target? ample member jumps) (by omega)

/-- A piece that fills and reads no more than the frame lands its jumps. -/
theorem landing (piece : Piece dst srcs code)
    (fills : ∀ own, dst = some own → ∀ position, own.Covers position →
      -512 ≤ position ∧ position < 0)
    (reads : ∀ src ∈ srcs, ∀ position, src.Covers position → -512 ≤ position ∧ position < 0) :
    Landing 0x8000 code := by
  have unbound := @landing_of_unbound dst srcs code 0x8000 piece
  cases piece with
  | numberRegister _ _ _ | wideRegister _ _ _ | contextRegister _ _ _ | contextSlot _ _ _ =>
      exact unbound rfl
  | numberSlot offset width value => exact unbound (by unfold constantCode; split <;> rfl)
  | fill offset bytes => exact unbound (boundLabels_of_inert (Block.inert_fills _ _ _))
  | clear offset size => exact unbound (boundLabels_of_inert (Block.inert_zeros _ _))
  | load size loads => exact unbound loads.noLabels
  | copy copies => exact unbound copies.noLabels
  | convert signed loads stores =>
      refine unbound ?_
      rw [boundLabels_append, boundLabels_append, loads.noLabels, stores.noLabels]
      unfold wideningCode
      split <;> rfl
  | read offset size points =>
      refine unbound ?_
      rw [boundLabels_append, points.noLabels, noLabels_readCode]
      rfl
  | readText offset size loads =>
      refine unbound ?_
      rw [boundLabels_append, loads.noLabels]
      rfl
  | lookup number key keySize offset size different =>
      exact landing_lookup (Storage.size_le (fills _ rfl))
  | update _ _ _ _ _ | delete _ _ _ => exact unbound rfl
  | @compare storage comparand base done length compared stores size others swapped room long among
      compares stored =>
      have inside := Storage.size_le (reads _ List.mem_cons_self)
      have jumps := landing_compare storage inside long among compares
      have whole := jumps.append (landing_of_formed (formed_difference [] swapped stored))
      rwa [List.append_assoc, List.singleton_append] at whole

end Piece

end TraceProbe
