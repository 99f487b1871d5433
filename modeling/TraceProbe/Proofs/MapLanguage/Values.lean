import TraceProbe.Proofs.MapLanguage.Helpers
import TraceProbe.Typing.Inference

/-!
# Values in slots

What the code of constants, strings, context variables and conversions leaves
in the slot it is for.
-/

namespace TraceProbe

open Symbolic AtSite

/-- A conversion cuts off or repeats the sign. -/
theorem AtSite.wrote_convertCode {World : Type} (env : Environment World)
    (machine : Machine World) (src dst : Int16) (own wanted : Width) (signed : Bool) :
    ∃ finish,
      Runs env
        (convertCode src dst own wanted (decide (own.bytes < wanted.bytes) && signed)) machine
          finish ∧
        machine.Wrote dst.toInt (resize signed wanted.bytes (machine.slot src own.bytes))
          finish := by
  let bytes := machine.slot src own.bytes
  have length : bytes.length = own.bytes := machine.length_slot src own.bytes
  let loaded := machine.load own .r0 (machine.address .frame src)
  have value : loaded.regs .r0 = UInt64.ofNat (fromLittleEndian bytes) :=
    machine.regs_load_self own .r0 _
  have small : fromLittleEndian bytes < 2 ^ 64 := by
    have bounded := fromLittleEndian_lt bytes
    have power : 256 ^ own.bytes ≤ 2 ^ 64 := by cases own <;> decide
    rw [length] at bounded
    omega
  have number : (UInt64.ofNat (fromLittleEndian bytes)).toNat = fromLittleEndian bytes := by
    rw [UInt64.toNat_ofNat']
    exact Nat.mod_eq_of_lt small
  -- Whatever is left in the register, its low bytes are stored.
  have stored {widened : UInt64}
      (low : littleEndian wanted.bytes widened.toNat = resize signed wanted.bytes bytes) :
      machine.Wrote dst.toInt (resize signed wanted.bytes bytes)
        ((loaded.set .r0 widened).store wanted (machine.address .frame dst) widened) := by
    refine ⟨?_, rfl, ?_⟩
    · intro reg other
      exact (loaded.regs_set_of_ne widened other).trans (machine.regs_load_of_ne own _ other)
    · rw [← low]
      rfl
  unfold convertCode Emit.wideningCode
  by_cases repeats : (decide (own.bytes < wanted.bytes) && signed && decide (own.bytes < 8)) = true
  · simp only [Bool.and_eq_true, decide_eq_true_eq] at repeats
    obtain ⟨⟨wider, rfl⟩, narrow⟩ := repeats
    have notDouble : own ≠ .double := by
      rintro rfl
      exact absurd narrow (by decide)
    have most : wanted.bytes ≤ 8 := by cases wanted <;> decide
    have low := littleEndian_signed length notDouble (Nat.le_of_lt wider) most
    refine ⟨_, ?_, stored low⟩
    simp only [wider, narrow, decide_true, Bool.and_self, if_true, Emit.signExtension, Runs,
      run_load, List.cons_append, List.nil_append, run_shiftLeft, run_shiftRight, run_store,
      Machine.regs_set_self, Machine.set_set]
    rw [← value]
    rfl
  · have low : littleEndian wanted.bytes (UInt64.ofNat (fromLittleEndian bytes)).toNat =
        resize signed wanted.bytes bytes := by
      rw [number]
      rcases Nat.lt_or_ge own.bytes wanted.bytes with wider | narrower
      · have most : wanted.bytes ≤ 8 := by cases wanted <;> decide
        have narrow : own.bytes < 8 := by omega
        simp only [wider, narrow, decide_true, Bool.true_and, Bool.and_true,
          Bool.not_eq_true] at repeats
        rw [repeats]
        exact littleEndian_wide (by omega)
      · exact littleEndian_narrow (by omega) signed
    refine ⟨_, ?_, stored low⟩
    rw [if_neg repeats, ← value]
    simp only [Runs, run_load, List.nil_append, run_store, Machine.set_regs_self]
    rfl

theorem immediate_of_smallImmediate? {value : UInt64} {imm : Int32}
    (found : Emit.smallImmediate? value = some imm) : Opcode.immediate imm = value := by
  unfold Emit.smallImmediate? at found
  simp only at found
  split at found
  · rename_i small
    cases found
    rw [Opcode.immediate, Int32.toInt_ofInt_of_le small.1 small.2]
    apply UInt64.toNat_inj.mp
    have bound := value.toNat_lt
    rw [toNat_ofInt, toInt_toInt64]
    split <;> omega
  · cases found

/-- A constant is written, whether or not it fits in an immediate. -/
theorem Emit.wrote_constantCode {World : Type} (env : Environment World)
    (machine : Machine World) (width : Width) (offset : Int16) (value : UInt64) :
    ∃ finish, Runs env (constantCode width offset value) machine finish ∧
      machine.Wrote offset.toInt (littleEndian width.bytes value.toNat) finish := by
  unfold constantCode
  cases small : smallImmediate? value with
  | some imm =>
      refine ⟨machine.store width (machine.address .frame offset) (Opcode.immediate imm), ?_, ?_⟩
      · exact run_storeImm env machine [] width .frame offset imm
      · rw [immediate_of_smallImmediate? small]
        exact ⟨fun _ _ => rfl, rfl, rfl⟩
  | none =>
      let loaded := machine.set .r0 value
      refine ⟨loaded.store width (loaded.address .frame offset) (loaded.regs .r0), ?_, ?_⟩
      · exact run_store env loaded [] width .frame .r0 offset
      · exact ⟨fun _ other => machine.regs_set_of_ne value other, rfl, rfl⟩

namespace Kernel

variable {World : Type} {kernel : Kernel World} {limit : Nat} {symbols : Symbols}
  {context : Int16 → Nat → List UInt8} {machine : Machine World} {offset : Int16}

/-- A constant is in its slot, whether or not it fits in an immediate. -/
theorem runs_constantCode {width : Width} (inside : Inside limit offset width.bytes)
    (value : UInt64) :
    ∃ finish, Runs kernel.toEnvironment (Emit.constantCode width offset value) machine finish ∧
      kernel.Fills (Slot offset width.bytes) machine offset width.bytes
        (littleEndian width.bytes value.toNat) finish := by
  have bound := offset.le_toInt
  obtain ⟨low, high⟩ := inside
  obtain ⟨finish, runs, wrote⟩ :=
    Emit.wrote_constantCode kernel.toEnvironment machine width offset value
  exact ⟨finish, runs, fills_of_wrote wrote (length_littleEndian _ _) (by omega)⟩

theorem runs_fill {bytes : List UInt8} {size : Nat} (length : bytes.length = size)
    (inside : Inside limit offset size) :
    ∃ finish, Runs kernel.toEnvironment (Block.fill offset bytes) machine finish ∧
      kernel.Fills (Slot offset size) machine offset size bytes finish := by
  have bound := offset.le_toInt
  obtain ⟨low, high⟩ := inside
  rw [← length] at high
  obtain ⟨finish, runs, wrote⟩ := Block.runs_fill kernel.toEnvironment machine high
  exact ⟨finish, runs, fills_of_wrote wrote length (by omega)⟩

theorem runs_contextCode (ready : kernel.Ready limit symbols context machine) {name : String}
    {type : Ty} {place : Int16} (known : symbols.context? name = some (type, place))
    (inside : Inside limit offset type.size) :
    ∃ finish, Runs kernel.toEnvironment (contextCode offset type.size place) machine finish ∧
      kernel.Fills (Slot offset type.size) machine offset type.size
        (context place type.size) finish := by
  have bound := offset.le_toInt
  unfold contextCode
  rw [← ready.bytes known]
  cases ofSize : Width.ofBytes? type.size with
  | some width =>
      have bytes := Width.bytes_of_ofBytes? ofSize
      let loaded := machine.load width .r0 (machine.address .context place)
      let finish := loaded.store width (loaded.address .frame offset) (loaded.regs .r0)
      have value : littleEndian width.bytes (loaded.regs .r0).toNat =
          machine.memory.read (machine.address .context place) width.bytes := by
        rw [Machine.regs_load_self]
        exact Block.littleEndian_loaded machine width _
      have wrote : machine.Wrote offset.toInt
          (machine.memory.read (machine.address .context place) width.bytes) finish := by
        refine ⟨fun _ other => machine.regs_load_of_ne width _ other, rfl, ?_⟩
        rw [← value]
        rfl
      refine ⟨finish, ?_, ?_⟩
      · simp only [Runs, run_load]
        exact run_store kernel.toEnvironment loaded [] width .frame .r0 offset
      · rw [← bytes]
        have high := inside.high
        exact fills_of_wrote wrote (Memory.length_read _ _ _) (by omega)
  | none =>
      let pointed := machine.set .r3 (machine.address .context place)
      have still : kernel.ChangesOnly (fun _ => False) machine pointed :=
        ⟨rfl, rfl, fun _ _ _ => rfl⟩
      have high := inside.high
      have count : (UInt64.ofNat type.size).toNat = type.size := by
        rw [UInt64.toNat_ofNat']
        exact Nat.mod_eq_of_lt (by omega)
      have readable : kernel.readable pointed.memory pointed.world (pointed.regs .r3)
          (UInt64.ofNat type.size) := by
        refine kernel.readable_of_owned _ _ _ _ ?_
        intro index less
        exact (ready.saved known index (count ▸ less)).1
      obtain ⟨finish, reads, fills⟩ := runs_readCode
        (ready.changed still fun _ none => none.elim) inside readable
      refine ⟨finish, ?_, fills.after still.of_none rfl⟩
      simp only [Runs, run_move, run_addImm, Machine.regs_set_self, Machine.set_set,
        Block.immediate_offset]
      exact reads

/-- A converted value fills its slot. -/
theorem runs_convertCode (kernel : Kernel World) (machine : Machine World) (src : Int16)
    {dst : Int16} (own : Width) {wanted : Width} (signed : Bool)
    (inside : Inside limit dst wanted.bytes) :
    ∃ finish,
      Runs kernel.toEnvironment
        (convertCode src dst own wanted (decide (own.bytes < wanted.bytes) && signed)) machine
          finish ∧
      kernel.Fills (Slot dst wanted.bytes) machine dst wanted.bytes
        (resize signed wanted.bytes (machine.slot src own.bytes)) finish := by
  have bound := dst.le_toInt
  obtain ⟨low, high⟩ := inside
  obtain ⟨finish, runs, wrote⟩ := wrote_convertCode kernel.toEnvironment machine src dst own
    wanted signed
  exact ⟨finish, runs, fills_of_wrote wrote (length_resize _ _ _) (by omega)⟩

end Kernel

end TraceProbe
