import TraceProbe.Proofs.Machine.Blocks
import TraceProbe.Proofs.Machine.Walks

/-!
# What is known on a walk

Along a walk some registers are known to hold an address in the frame, a number
or a reference to a map, and some positions of the frame are known to have been
written, by stores or by a helper that reads memory into the frame.  The helper
that reads strings is not counted: it may write less than it is given room for.
-/

namespace TraceProbe

/-- What is known about the value of a register. -/
inductive Known where
  | nothing
  /-- The address at a distance from the frame pointer. -/
  | place (position : Int)
  | number (value : Int)
  /-- A reference to a map. -/
  | map (number : Nat)
deriving DecidableEq

/-- So many positions from one on. -/
def Span (start : Int) (size : Nat) (position : Int) : Prop :=
  start ≤ position ∧ position < start + size

/-- What is known between two instructions of a walk. -/
structure Facts where
  known : Reg → Known
  /-- The positions of the frame that have been written. -/
  written : Int → Prop

/-- Whether a helper works on a map. -/
def Helper.onMap : Helper → Bool
  | mapLookupElem | mapUpdateElem | mapDeleteElem => true
  | probeRead | probeReadStr => false

namespace Facts

open Opcode

/-- At the start only the frame pointer is known. -/
def start : Facts where
  known reg := if reg = .frame then .place 0 else .nothing
  written _ := False

/-- Learns the value of a register. -/
def learn (facts : Facts) (reg : Reg) (value : Known) : Facts :=
  { facts with known := fun other => if other = reg then value else facts.known other }

/-- Counts the bytes at a known address as written. -/
def write (facts : Facts) (address : Known) (off : Int) (size : Nat) : Facts :=
  match address with
  | .place position =>
      { facts with
        written := fun other => facts.written other ∨ Span (position + off) size other }
  | _ => facts

/-- Forgets what a helper call does not keep. -/
def forget (facts : Facts) : Facts :=
  { facts with
    known := fun reg =>
      match reg with
      | .machine number => if number = 0 ∨ number ∈ Machine.argumentRegs then .nothing
          else facts.known reg
      | .virtual _ => facts.known reg }

/-- What is known about the result of arithmetic: copies, and distances added to
addresses. -/
def result (facts : Facts) (code : UInt8) (dst src : Reg) (imm : Int32) : Known :=
  if classOf code = alu64 ∧ operationOf code = mov then
    if hasRegisterOperand code then facts.known src else .number imm.toInt
  else if classOf code = alu64 ∧ operationOf code = add ∧ hasRegisterOperand code = false then
    match facts.known dst with
    | .place position => .place (position + imm.toInt)
    | _ => .nothing
  else .nothing

/-- What a helper call writes for certain. -/
def answered (facts : Facts) (helper : Int32) : Facts :=
  match facts.known .r2 with
  | .number size =>
      if helper = Helper.probeRead.id then facts.write (facts.known .r1) 0 size.toNat else facts
  | _ => facts

/-- Goes past one instruction that is carried out. -/
def step (facts : Facts) : Insn → Facts
  | .plain code dst src off imm =>
      match role code with
      | .arithmetic => facts.learn dst (facts.result code dst src imm)
      | .load => facts.learn dst .nothing
      | .storeImm | .storeReg =>
          facts.write (facts.known dst) off.toInt (Width.ofCode code).bytes
      | .call => (facts.answered imm).forget
      | .wide | .jump | .leave | .unknown => facts
  | .wide dst _ => facts.learn dst .nothing
  | .mapRef dst map => facts.learn dst (.map map)
  | .jump _ _ _ _ _ | .label _ => facts

/-- What is known behind the instructions that a walk carried out. -/
def after (facts : Facts) (visited : List Insn) : Facts :=
  visited.foldl step facts

@[simp] theorem after_nil (facts : Facts) : facts.after [] = facts :=
  rfl

@[simp] theorem after_cons (facts : Facts) (insn : Insn) (visited : List Insn) :
    facts.after (insn :: visited) = (facts.step insn).after visited :=
  rfl

theorem after_append (facts : Facts) (earlier later : List Insn) :
    facts.after (earlier ++ later) = (facts.after earlier).after later :=
  List.foldl_append

variable (facts : Facts)

@[simp] theorem known_learn_self (reg : Reg) (value : Known) :
    (facts.learn reg value).known reg = value :=
  if_pos rfl

@[simp] theorem known_learn_of_ne {reg other : Reg} (value : Known) (different : other ≠ reg) :
    (facts.learn reg value).known other = facts.known other :=
  if_neg different

@[simp] theorem written_learn (reg : Reg) (value : Known) :
    (facts.learn reg value).written = facts.written :=
  rfl

@[simp] theorem written_forget : facts.forget.written = facts.written :=
  rfl

@[simp] theorem known_write (address : Known) (off : Int) (size : Nat) :
    (facts.write address off size).known = facts.known := by
  cases address <;> rfl

@[simp] theorem known_answered (helper : Int32) : (facts.answered helper).known = facts.known := by
  unfold answered
  split
  · split
    · exact known_write facts _ _ _
    · rfl
  · rfl

theorem written_write {address : Known} {off position : Int} {size : Nat}
    (before : facts.written position) :
    (facts.write address off size).written position := by
  cases address with
  | place base => exact .inl before
  | nothing | number _ | map _ => exact before

@[simp] theorem step_move (dst src : Reg) :
    facts.step (.move dst src) = facts.learn dst (facts.known src) :=
  rfl

@[simp] theorem step_movImm (dst : Reg) (imm : Int32) :
    facts.step (.movImm dst imm) = facts.learn dst (.number imm.toInt) :=
  rfl

@[simp] theorem step_addImm (dst : Reg) (imm : Int32) :
    facts.step (.alu64Imm add dst imm) =
      facts.learn dst (match facts.known dst with
        | .place position => .place (position + imm.toInt)
        | _ => .nothing) :=
  rfl

@[simp] theorem step_mapRef (dst : Reg) (map : Nat) :
    facts.step (.mapRef dst map) = facts.learn dst (.map map) :=
  rfl

@[simp] theorem step_load (width : Width) (dst base : Reg) (off : Int16) :
    facts.step (.load width.bits dst base off) = facts.learn dst .nothing := by
  cases width <;> rfl

@[simp] theorem step_store (width : Width) (base src : Reg) (off : Int16) :
    facts.step (.store width.bits base src off) =
      facts.write (facts.known base) off.toInt width.bytes := by
  cases width <;> rfl

@[simp] theorem step_storeImm (width : Width) (base : Reg) (off : Int16) (imm : Int32) :
    facts.step (.storeImm width.bits base off imm) =
      facts.write (facts.known base) off.toInt width.bytes := by
  cases width <;> rfl

@[simp] theorem step_callOf (helper : Helper) :
    facts.step (.callOf helper) = (facts.answered helper.id).forget :=
  rfl

theorem written_step (insn : Insn) {position : Int} (before : facts.written position) :
    (facts.step insn).written position := by
  cases insn with
  | plain code dst src off imm =>
      simp only [step]
      split
      · exact before
      · exact before
      · exact facts.written_write before
      · exact facts.written_write before
      · rw [written_forget, answered]
        split
        · split
          · exact facts.written_write before
          · exact before
        · exact before
      all_goals exact before
  | wide _ _ | mapRef _ _ | jump _ _ _ _ _ | label _ => exact before

/-- Only an instruction that sets the frame pointer changes what is known about
it. -/
theorem known_frame_step {insn : Insn} (other : insn.writes? ≠ some .frame) :
    (facts.step insn).known .frame = facts.known .frame := by
  cases insn with
  | plain code dst src off imm =>
      simp only [Insn.writes?] at other
      simp only [step]
      split at other
      · rename_i role
        rw [role]
        exact known_learn_of_ne facts _ fun same => other (same ▸ rfl)
      · rename_i role
        rw [role]
        exact known_learn_of_ne facts _ fun same => other (same ▸ rfl)
      · split
        · contradiction
        · contradiction
        · rw [known_write]
        · rw [known_write]
        · exact congrFun (facts.known_answered imm) _
        all_goals rfl
  | wide dst _ => exact known_learn_of_ne facts _ fun same => other (same ▸ rfl)
  | mapRef dst _ => exact known_learn_of_ne facts _ fun same => other (same ▸ rfl)
  | jump _ _ _ _ _ | label _ => rfl

end Facts

end TraceProbe
