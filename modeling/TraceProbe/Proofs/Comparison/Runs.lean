import TraceProbe.Proofs.Comparison.Difference
import TraceProbe.Proofs.Emission.Texts
import TraceProbe.Proofs.MapLanguage.Values

/-!
# Runs of comparisons

The code of a comparison goes over both strings from the first byte on.  It
leaves for the label behind it as soon as a position decides, and the register
of the result holds the difference at that position then.
-/

namespace TraceProbe

open Opcode

namespace Symbolic

variable {World : Type} (env : Environment World) (machine : Machine World) (rest : List Insn)

@[simp] theorem run_subtractImm (dst : Reg) (imm : Int32) :
    run env (.alu64Imm sub dst imm :: rest) ⟨.running, machine⟩ =
      run env rest ⟨.running, machine.set dst (machine.regs dst - immediate imm)⟩ :=
  run_plain env machine rest rfl (by decide)

@[simp] theorem run_subtract (dst src : Reg) :
    run env (.alu64Reg sub dst src :: rest) ⟨.running, machine⟩ =
      run env rest ⟨.running, machine.set dst (machine.regs dst - machine.regs src)⟩ :=
  run_plain env machine rest rfl (by decide)

@[simp] theorem run_negate (dst : Reg) :
    run env (.alu64Imm neg dst 0 :: rest) ⟨.running, machine⟩ =
      run env rest ⟨.running, machine.set dst (-machine.regs dst)⟩ :=
  run_plain env machine rest rfl (by decide)

@[simp] theorem run_jumpIfDifferent (dst : Reg) (imm : Int32) (target : Label) :
    run env (.jumpImm jne dst imm target :: rest) ⟨.running, machine⟩ =
      run env rest
        (if machine.regs dst = immediate imm then ⟨.running, machine⟩
        else ⟨.seeking target, machine⟩) := by
  apply run_of_carryOut
  have takes : env.takes (jmp ||| jne ||| immediateOperand) (machine.regs dst) (immediate imm) =
      decide (machine.regs dst ≠ immediate imm) := rfl
  have effect : carryOut env machine (.jumpImm jne dst imm target) =
      if env.takes (jmp ||| jne ||| immediateOperand) (machine.regs dst) (immediate imm) then
        ⟨.seeking target, machine⟩
      else ⟨.running, machine⟩ := rfl
  rw [effect, takes]
  by_cases same : machine.regs dst = immediate imm <;> simp [same]

end Symbolic

section Bytes

theorem sub_bytes (first second : UInt8) :
    UInt64.ofNat first.toNat - UInt64.ofNat second.toNat =
      UInt64.ofInt ((first.toNat : Int) - second.toNat) := by
  rw [Memory.ofNat_eq_ofInt, Memory.ofNat_eq_ofInt, UInt64.sub_eq_iff_eq_add, ← UInt64.ofInt_add,
    Int.sub_add_cancel]

theorem ofNat_byte_eq_zero_iff {byte : UInt8} :
    UInt64.ofNat byte.toNat = immediate 0 ↔ byte = 0 := by
  have small := byte.toNat_lt
  rw [← UInt64.toNat_inj, ← UInt8.toNat_inj, UInt64.toNat_ofNat']
  show byte.toNat % 2 ^ 64 = 0 ↔ byte.toNat = 0
  omega

theorem ofInt_bytes_eq_zero_iff {first second : UInt8} :
    UInt64.ofInt ((first.toNat : Int) - second.toNat) = immediate 0 ↔ first = second := by
  have small := first.toNat_lt
  have small' := second.toNat_lt
  rw [← UInt64.toNat_inj, ← UInt8.toNat_inj, toNat_ofInt]
  show (((first.toNat : Int) - second.toNat) % 2 ^ 64).toNat = 0 ↔ _
  omega

end Bytes

namespace Machine

variable {World : Type} {machine middle finish : Machine World} {dst : Reg}

theorem loaded_byte (machine : Machine World) (address : UInt64) :
    machine.loaded .byte address = UInt64.ofNat (machine.memory.byte address).toNat := by
  simp [loaded, Memory.read, fromLittleEndian, Width.bytes]

/-- Only the register of a result and the scratch register `r1` may have changed. -/
structure Scratched (dst : Reg) (machine finish : Machine World) : Prop where
  memory : finish.memory = machine.memory
  regs : ∀ reg, reg ≠ dst → reg ≠ .r1 → finish.regs reg = machine.regs reg

theorem Scratched.trans (before : Scratched dst machine middle)
    (after : Scratched dst middle finish) :
    Scratched dst machine finish := by
  constructor
  · exact after.memory.trans before.memory
  · intro reg other other'
    exact (after.regs reg other other').trans (before.regs reg other other')

/-- Bytes are in the frame from an offset on. -/
structure Holds (machine : Machine World) (offset : Int16) (bytes : List UInt8) : Prop where
  inside : offset.toInt + bytes.length ≤ 0
  bytes : machine.slot offset bytes.length = bytes

theorem Holds.scratched {offset : Int16} {bytes : List UInt8} (holds : machine.Holds offset bytes)
    (scratched : Scratched dst machine finish) (result : dst ≠ .frame) :
    finish.Holds offset bytes := by
  refine ⟨holds.inside, ?_⟩
  have same : finish.slot offset bytes.length = machine.slot offset bytes.length := by
    rw [slot, slot, address, address, scratched.memory,
      scratched.regs .frame result.symm (by decide)]
  rw [same, holds.bytes]

theorem Holds.loaded {offset place : Int16} {bytes : List UInt8} {position : Nat} {byte : UInt8}
    (holds : machine.Holds offset bytes) (there : bytes[position]? = some byte)
    (moved : movedOffset offset position = .ok place) :
    machine.loaded .byte (machine.address .frame place) = UInt64.ofNat byte.toNat := by
  have inside : position < bytes.length := (List.getElem?_eq_some_iff.mp there).1
  have low := offset.le_toInt
  have high := holds.inside
  have here := getElem?_slot machine offset inside
  rw [holds.bytes, there] at here
  rw [loaded_byte, address, toInt_of_movedOffset (by omega) moved, Option.some.inj here]
  rfl

end Machine

/-- A distance within a slot of the frame does not leave the frame. -/
theorem movedOffset_inside {offset : Int16} {size position : Nat} (fits : offset.toInt + size ≤ 0)
    (inside : position < size) : ∃ place, movedOffset offset position = .ok place := by
  have low := offset.le_toInt
  have narrow : (Int16.ofNat position).toInt = position := Int16.toInt_ofNat_of_lt (by omega)
  refine ⟨_, if_pos ?_⟩
  simp only [narrow]
  omega

namespace Comparand

open Symbolic Comparison

/-- The bytes that a comparand stands for. -/
inductive Shows {World : Type} (machine : Machine World) : Comparand → List UInt8 → Prop
  | slot {offset : Int16} {bytes : List UInt8} : machine.Holds offset bytes →
      Shows machine (.slot offset) bytes
  | literal (bytes : List UInt8) : Shows machine (.literal bytes) bytes

variable {World : Type} (env : Environment World) {machine finish : Machine World}
  {comparand : Comparand} {dst : Reg} {base : Int16} {done : Label} {position left : Nat}
  {first second bytes : List UInt8} {byte : UInt8} {code rest : List Insn}

theorem Shows.scratched (shows' : comparand.Shows machine bytes)
    (scratched : Machine.Scratched dst machine finish) (result : dst ≠ .frame) :
    comparand.Shows finish bytes := by
  cases shows' with
  | slot holds => exact .slot (holds.scratched scratched result)
  | literal => exact .literal bytes

/-- The byte at a position is taken off the result, and stays in `r1` if it was
loaded. -/
theorem runs_subtract (shows' : comparand.Shows machine bytes)
    (there : bytes[position]? = some byte)
    (result : dst ≠ .r1) (found : comparand.subtract dst position = .ok code) :
    ∃ finish, Runs env code machine finish ∧ Machine.Scratched dst machine finish ∧
      finish.regs dst = machine.regs dst - UInt64.ofNat byte.toNat ∧
      (comparand.byte? position = none → finish.regs .r1 = UInt64.ofNat byte.toNat) := by
  cases shows' with
  | slot holds =>
      obtain ⟨place, moved, found⟩ := ok_of_bind found
      cases found
      have value := holds.loaded there moved
      let loaded := machine.load .byte .r1 (machine.address .frame place)
      have own : loaded.regs .r1 = UInt64.ofNat byte.toNat := by
        rw [← value]
        exact Machine.regs_load_self machine _ _ _
      have others (reg : Reg) (other : reg ≠ .r1) : loaded.regs reg = machine.regs reg :=
        Machine.regs_load_of_ne machine _ _ other
      refine ⟨loaded.set dst (loaded.regs dst - loaded.regs .r1), ?_, ⟨rfl, ?_⟩, ?_, ?_⟩
      · exact (run_load env machine _ _ _ _ _).trans (run_subtract env loaded [] dst .r1)
      · intro reg other other'
        rw [Machine.regs_set_of_ne _ _ other, others reg other']
      · rw [Machine.regs_set_self, own, others dst result]
      · intro _
        rw [Machine.regs_set_of_ne _ _ result.symm, own]
  | literal =>
      cases found
      have small := byte.toNat_lt
      let value := machine.regs dst - immediate (Int32.ofNat (bytes[position]?.getD 0).toNat)
      refine ⟨machine.set dst value, run_subtractImm env machine [] dst _,
        ⟨rfl, fun reg other _ => Machine.regs_set_of_ne _ _ other⟩, ?_, fun none => by cases none⟩
      rw [Machine.regs_set_self]
      show machine.regs dst - immediate (Int32.ofNat (bytes[position]?.getD 0).toNat) = _
      rw [there, Option.getD_some, immediate_ofNat (by omega)]

/-- Behind a position the comparison is left if the position decides.  Behind the
end of a literal there is nothing to leave. -/
theorem run_leave (shows' : comparand.Shows machine bytes) (there : bytes[position]? = some byte)
    {other : UInt8}
    (difference : machine.regs dst = UInt64.ofInt ((other.toNat : Int) - byte.toNat))
    (loaded : comparand.byte? position = none → machine.regs .r1 = UInt64.ofNat byte.toNat)
    (goesOn : comparand.byte? position ≠ some 0) :
    run env (comparand.leave dst done ++ rest) ⟨.running, machine⟩ =
      run env rest ⟨if other ≠ byte ∨ other = 0 ∧ byte = 0 then .seeking done else .running,
        machine⟩ := by
  have tested (some : byte ≠ 0) :
      run env (.jumpImm jne dst 0 done :: rest) ⟨.running, machine⟩ =
        run env rest ⟨if other ≠ byte ∨ other = 0 ∧ byte = 0 then .seeking done else .running,
          machine⟩ := by
    rw [run_jumpIfDifferent, difference]
    by_cases same : other = byte
    · rw [if_pos (ofInt_bytes_eq_zero_iff.mpr same), if_neg (by simp [same, some])]
    · rw [if_neg fun zero => same (ofInt_bytes_eq_zero_iff.mp zero), if_pos (.inl same)]
  cases shows' with
  | slot holds =>
      show run env (.jumpImm jeq .r1 0 done :: .jumpImm jne dst 0 done :: rest) _ = _
      rw [run_jumpIfEqual, loaded rfl]
      by_cases ends : byte = 0
      · have decides : other ≠ byte ∨ other = 0 ∧ byte = 0 := by
          by_cases zero : other = 0
          · exact .inr ⟨zero, ends⟩
          · exact .inl (ends ▸ zero)
        rw [if_pos (ofNat_byte_eq_zero_iff.mpr ends), if_pos decides]
        rfl
      · rw [if_neg fun zero => ends (ofNat_byte_eq_zero_iff.mp zero), tested ends]
  | literal =>
      refine tested fun ends => goesOn ?_
      rw [byte?, there, ends]
      rfl

/-- Where a comparison of the bytes from a position on has ended: the result is in
its register, and control is behind the code or looks for the label there. -/
structure Ended (done : Label) (dst : Reg) (result : Int) (machine : Machine World)
    (symbolic : Symbolic World) : Prop where
  flow : symbolic.flow = .running ∨ symbolic.flow = .seeking done
  scratched : Machine.Scratched dst machine symbolic.machine
  result : symbolic.machine.regs dst = UInt64.ofInt result

/-- The bytes at a position are subtracted from each other. -/
theorem runs_compared {place : Int16} {subtraction : List Insn} {other : UInt8}
    (holds : machine.Holds base first) (shows' : comparand.Shows machine second)
    (frame : dst ≠ .frame) (scratch : dst ≠ .r1) (there : first[position]? = some other)
    (there' : second[position]? = some byte) (moved : movedOffset base position = .ok place)
    (found : comparand.subtract dst position = .ok subtraction) :
    ∃ finish, Runs env (.load Width.byte.bits dst .frame place :: subtraction) machine finish ∧
      Machine.Scratched dst machine finish ∧
      finish.regs dst = UInt64.ofInt ((other.toNat : Int) - byte.toNat) ∧
      (comparand.byte? position = none → finish.regs .r1 = UInt64.ofNat byte.toNat) := by
  let loaded := machine.load .byte dst (machine.address .frame place)
  have value : loaded.regs dst = UInt64.ofNat other.toNat :=
    (Machine.regs_load_self machine _ _ _).trans (holds.loaded there moved)
  have first : Machine.Scratched dst machine loaded :=
    ⟨rfl, fun reg other _ => Machine.regs_load_of_ne machine _ _ other⟩
  obtain ⟨finish, runs, scratched, result, own⟩ :=
    runs_subtract env (shows'.scratched first frame) there' scratch found
  refine ⟨finish, ?_, first.trans scratched, ?_, own⟩
  · exact (run_load env machine _ _ _ _ _).trans runs
  · rw [result, value, sub_bytes]

theorem difference_drop {other : UInt8} (there : first[position]? = some other)
    (there' : second[position]? = some byte) :
    difference (first.drop position) (second.drop position) =
      if other ≠ byte ∨ other = 0 ∧ byte = 0 then (other.toNat : Int) - byte.toNat
      else difference (first.drop (position + 1)) (second.drop (position + 1)) := by
  obtain ⟨inside, rfl⟩ := List.getElem?_eq_some_iff.mp there
  obtain ⟨inside', rfl⟩ := List.getElem?_eq_some_iff.mp there'
  rw [List.drop_eq_getElem_cons inside, List.drop_eq_getElem_cons inside', difference_cons]

/-- The last position that is compared decides, or nothing is left behind it. -/
theorem difference_last {other : UInt8} (there : first[position]? = some other)
    (there' : second[position]? = some byte)
    (last : byte = 0 ∨ position + 1 = min first.length second.length) :
    difference (first.drop position) (second.drop position) = (other.toNat : Int) - byte.toNat := by
  rw [difference_drop there there']
  by_cases decides : other ≠ byte ∨ other = 0 ∧ byte = 0
  · rw [if_pos decides]
  · rw [if_neg decides]
    simp only [ne_eq, not_or, not_not, not_and] at decides
    obtain ⟨rfl, goesOn⟩ := decides
    rcases last with ends | reached
    · exact absurd ends (goesOn ends)
    · rw [Int.sub_self]
      rcases Nat.le_total first.length second.length with shorter | shorter
      · rw [List.drop_eq_nil_of_le (by omega), difference_nil_left]
      · rw [List.drop_eq_nil_of_le (show second.length ≤ position + 1 by omega),
          difference_nil_right]

theorem Shows.byte?_eq (shows' : comparand.Shows machine bytes)
    (there : bytes[position]? = some byte)
    {known : UInt8} (found : comparand.byte? position = some known) : byte = known := by
  cases shows' with
  | slot holds => cases found
  | literal =>
      rw [byte?, there] at found
      exact Option.some.inj found

/-- A comparison ends with the difference of the bytes that are left. -/
theorem run_compareFrom (holds : machine.Holds base first) (shows' : comparand.Shows machine second)
    (frame : dst ≠ .frame) (scratch : dst ≠ .r1) (more : 0 < left)
    (sum : position + left = min first.length second.length)
    (found : comparand.compareFrom dst base done position left = .ok code) :
    Ended done dst (difference (first.drop position) (second.drop position)) machine
      (run env code ⟨.running, machine⟩) := by
  induction left generalizing position code machine with
  | zero => exact absurd more (Nat.lt_irrefl 0)
  | succ left ih =>
      obtain ⟨inside, inside'⟩ : position < first.length ∧ position < second.length := by omega
      have there := List.getElem?_eq_getElem inside
      have there' := List.getElem?_eq_getElem inside'
      rw [compareFrom] at found
      obtain ⟨place, moved, found⟩ := ok_of_bind found
      obtain ⟨subtraction, subtracted, found⟩ := ok_of_bind found
      obtain ⟨compared, runs, scratched, result, own⟩ :=
        runs_compared env holds shows' frame scratch there there' moved subtracted
      unfold Runs at runs
      simp only [Bool.or_eq_true, decide_eq_true_eq] at found
      split at found
      · rename_i last
        cases found
        rw [runs]
        refine ⟨.inl rfl, scratched, ?_⟩
        rw [difference_last there there' ?_]
        · exact result
        · rcases last with reached | ends
          · exact .inr (by omega)
          · exact .inl (shows'.byte?_eq there' ends)
      · rename_i goesOn
        rw [not_or] at goesOn
        obtain ⟨rest, continued, found⟩ := ok_of_bind found
        cases found
        rw [List.append_assoc, run_append, runs,
          run_leave env (shows'.scratched scratched frame) there' result own goesOn.2]
        by_cases decides : first[position] ≠ second[position] ∨
            first[position] = 0 ∧ second[position] = 0
        · -- a jump is taken, and the rest of the code does not bind its label
          have missing : done ∉ Insn.boundLabels rest := by
            rw [noLabels_compareFrom continued]
            exact List.not_mem_nil
          rw [if_pos decides, run_seeking env compared missing]
          refine ⟨.inr rfl, scratched, ?_⟩
          rw [difference_drop there there', if_pos decides]
          exact result
        · rw [if_neg decides, difference_drop there there', if_neg decides]
          have ended := ih (holds.scratched scratched frame) (shows'.scratched scratched frame)
            (by omega) (by omega) continued
          exact ⟨ended.flow, scratched.trans ended.scratched, ended.result⟩

theorem Ended.runs_label {result : Int}
    (ended : Ended done dst result machine (run env code ⟨.running, machine⟩)) :
    ∃ finish, Runs env (code ++ [.label done]) machine finish ∧
      Machine.Scratched dst machine finish ∧ finish.regs dst = UInt64.ofInt result := by
  refine ⟨_, ?_, ended.scratched, ended.result⟩
  rw [Runs, run_append]
  generalize run env code ⟨.running, machine⟩ = symbolic at ended
  obtain ⟨flow, last⟩ := symbolic
  rcases ended.flow with running | seeking
  · obtain rfl : flow = .running := running
    rfl
  · obtain rfl : flow = .seeking done := seeking
    exact run_found env last [] done

theorem exists_compareFrom {size : Nat} (fits : base.toInt + size ≤ 0)
    (subtracts : ∀ position < size, ∃ code, comparand.subtract dst position = .ok code)
    (inside : position + left ≤ size) :
    ∃ code, comparand.compareFrom dst base done position left = .ok code := by
  induction left generalizing position with
  | zero => exact ⟨[], rfl⟩
  | succ left ih =>
      obtain ⟨place, moved⟩ := movedOffset_inside fits (show position < size by omega)
      obtain ⟨subtraction, subtracted⟩ := subtracts position (by omega)
      obtain ⟨rest, continued⟩ := ih (show position + 1 + left ≤ size by omega)
      rw [compareFrom, moved, subtracted]
      simp only [continued, bind, Except.bind, pure, Except.pure]
      split <;> exact ⟨_, rfl⟩

end Comparand

end TraceProbe
