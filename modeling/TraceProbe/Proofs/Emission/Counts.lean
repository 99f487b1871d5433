import TraceProbe.Proofs.Emission.Forms

/-!
# Sizes of helper reads

A helper that reads memory takes the number of bytes in `r2`.  Emitted code moves
immediates there for nothing else, and each is the size of the slot that its
piece fills.
-/

namespace TraceProbe

namespace Insn

/-- The number of bytes that an instruction tells a helper. -/
def count? : Insn → Option Int32
  | plain code dst _ _ imm =>
      if code = Opcode.alu64 ||| Opcode.mov ||| Opcode.immediateOperand ∧ dst = .r2 then some imm
          else none
  | _ => none

/-- The numbers of bytes that code tells helpers. -/
def counts (code : List Insn) : List Int32 :=
  code.filterMap count?

@[simp] theorem counts_append (first second : List Insn) :
    counts (first ++ second) = counts first ++ counts second :=
  List.filterMap_append

theorem counts_nil_of_each {code : List Insn}
    (each : ∀ insn ∈ code, insn.count? = none) : counts code = [] :=
  List.filterMap_eq_nil_iff.mpr each

theorem count?_movImm {reg : Reg} (other : reg ≠ .r2) (imm : Int32) :
    (movImm reg imm).count? = none :=
  if_neg fun both => other both.2

@[simp] theorem count?_load (width : Width) (dst base : Reg) (off : Int16) :
    (load width.bits dst base off).count? = none := by
  cases width <;> rfl

@[simp] theorem count?_store (width : Width) (base src : Reg) (off : Int16) :
    (store width.bits base src off).count? = none := by
  cases width <;> rfl

@[simp] theorem count?_storeImm (width : Width) (base : Reg) (off : Int16) (imm : Int32) :
    (storeImm width.bits base off imm).count? = none := by
  cases width <;> rfl

@[simp] theorem counts_load (width : Width) (dst base : Reg) (off : Int16) :
    counts [load width.bits dst base off] = [] := by
  apply counts_nil_of_each
  intro insn member
  rw [List.mem_singleton.mp member, count?_load]

@[simp] theorem counts_store (width : Width) (base src : Reg) (off : Int16) :
    counts [store width.bits base src off] = [] := by
  apply counts_nil_of_each
  intro insn member
  rw [List.mem_singleton.mp member, count?_store]

end Insn

open Insn

namespace Block

@[simp] theorem counts_clear (offset : Int16) (size : Nat) : counts (clear offset size) = [] := by
  refine counts_nil_of_each ?_
  intro insn member
  obtain ⟨width, place, rfl, -⟩ := mem_zeros member
  exact count?_storeImm ..

@[simp] theorem counts_fill (offset : Int16) (bytes : List UInt8) :
    counts (fill offset bytes) = [] := by
  refine counts_nil_of_each ?_
  intro insn member
  obtain ⟨width, place, imm, rfl, -⟩ := mem_fills member
  exact count?_storeImm ..

@[simp] theorem counts_copy (dst src : Int16) (size : Nat) : counts (copy dst src size) = [] := by
  unfold copy
  split
  · rfl
  · refine counts_nil_of_each ?_
    intro insn member
    obtain ⟨width, place, ⟨rfl, -⟩ | ⟨rfl, -⟩⟩ := mem_transfers member
    · exact count?_load ..
    · exact count?_store ..

end Block

namespace Emit

variable {reg : Reg} {dst src : Storage} {srcs : List Storage} {code : List Insn} {offset : Int16}
  {size : Nat}

theorem Loads.counts (loads : Loads reg src code) : Insn.counts code = [] := by
  cases loads with
  | here size => rfl
  | move size other => rfl
  | slot offset width => exact counts_load ..

theorem Stores.counts (stores : Stores reg dst code) : Insn.counts code = [] := by
  cases stores with
  | here size => rfl
  | move size other => rfl
  | slot offset width => exact counts_store ..

theorem Copies.counts (copies : Copies offset src code) : Insn.counts code = [] := by
  cases copies with
  | register reg width => exact counts_store ..
  | slot start size => exact Block.counts_copy ..

theorem Points.counts (points : Points srcs reg code) : Insn.counts code = [] := by
  cases points with
  | value _ loads => exact loads.counts
  | moved distance loads => rw [counts_append, loads.counts]; rfl
  | scaled size loads loads' => rw [counts_append, counts_append, loads.counts, loads'.counts]; rfl
  | frame _ | context _ => rfl

theorem counts_readCode (offset : Int16) (size : Nat) (reg : Reg) :
    Insn.counts (readCode offset size reg) = [Int32.ofNat size] := by
  unfold readCode
  split <;> rfl

end Emit

namespace Comparand

theorem counts_compareFrom {comparand : Comparand} {dst : Reg} {base : Int16} {done : Label}
    {position left : Nat} {code : List Insn}
    (found : comparand.compareFrom dst base done position left = .ok code) : counts code = [] := by
  induction left generalizing position code with
  | zero =>
      cases found
      rfl
  | succ left ih =>
      rw [compareFrom] at found
      obtain ⟨place, -, found⟩ := ok_of_bind found
      obtain ⟨difference, subtracts, found⟩ := ok_of_bind found
      have quiet : counts difference = [] := by
        cases comparand with
        | slot offset =>
            obtain ⟨other, -, subtracts⟩ := ok_of_bind subtracts
            cases subtracts
            rfl
        | literal bytes =>
            cases subtracts
            rfl
      have compared : counts (load Width.byte.bits dst .frame place :: difference) = [] := by
        rw [← List.singleton_append, counts_append, counts_load, quiet]
        rfl
      dsimp only at found
      split at found
      · cases found
        exact compared
      · obtain ⟨rest, others, found⟩ := ok_of_bind found
        cases found
        have leaves : counts (comparand.leave dst done) = [] := by
          cases comparand <;> rfl
        rw [counts_append, counts_append, compared, leaves, ih others]
        rfl

end Comparand

/-- A piece tells a helper at most one number of bytes, that of the slot that it
fills. -/
theorem Piece.counts {dst : Option Storage} {srcs : List Storage} {code : List Insn}
    (piece : Piece dst srcs code) (other : ∀ own, dst = some own → own.place ≠ .register .r2) :
    Insn.counts code = [] ∨ ∃ offset size, dst = some ⟨.slot offset, size⟩ ∧
      Insn.counts code = [Int32.ofNat size] := by
  cases piece with
  | numberRegister reg size imm =>
      have apart : reg ≠ .r2 := fun same => other _ rfl (by rw [same])
      exact .inl (counts_nil_of_each fun insn member => by
        rw [List.mem_singleton.mp member, count?_movImm apart])
  | wideRegister reg size value => exact .inl rfl
  | numberSlot offset width value =>
      left
      unfold Emit.constantCode
      split
      · cases width <;> rfl
      · cases width <;> rfl
  | fill offset bytes => exact .inl (Block.counts_fill ..)
  | clear offset size => exact .inl (Block.counts_clear ..)
  | contextRegister reg width offset => exact .inl (counts_load ..)
  | contextSlot slot width offset => cases width <;> exact .inl rfl
  | load size loads => exact .inl loads.counts
  | copy copies => exact .inl copies.counts
  | @convert _ src _ _ signed loads stores =>
      left
      have widened : Insn.counts (Emit.wideningCode .r0 src.size signed) = [] := by
        unfold Emit.wideningCode
        split <;> rfl
      rw [counts_append, counts_append, loads.counts, widened, stores.counts]
      rfl
  | read offset size points =>
      exact .inr ⟨offset, size, rfl,
        by rw [counts_append, points.counts, Emit.counts_readCode]; rfl⟩
  | readText offset size loads =>
      exact .inr ⟨offset, size, rfl, by rw [counts_append, loads.counts]; rfl⟩
  | @lookup number key keySize offset size miss hit different =>
      refine .inr ⟨offset, size, rfl, ?_⟩
      have parts : AtSite.lookupCode number key offset size miss hit =
          AtSite.lookupCall number key ++ [jumpImm Opcode.jeq .r0 0 miss] ++
            Emit.readCode offset size .r0 ++
            [goto hit, label miss] ++ Block.clear offset size ++ [label hit] := by
        simp [AtSite.lookupCode]
      simp only [parts, counts_append, Emit.counts_readCode, Block.counts_clear]
      rfl
  | update number key keySize value valueSize => exact .inl rfl
  | delete number key keySize => exact .inl rfl
  | @compare own _ _ _ _ _ _ _ _ swapped _ _ _ compares stores =>
      left
      rw [counts_append, Comparand.counts_compareFrom compares, ← List.singleton_append,
        counts_append, counts_append, stores.counts]
      cases swapped <;> rfl

end TraceProbe
