import TraceProbe.Proofs.Machine.Paths

/-!
# Register discipline

Which registers hold something certain at a place of a listing.  A program
starts with its context and its frame pointer, a helper call leaves nothing
certain in the argument registers, and only what is certain may be used.
-/

namespace TraceProbe

/-- The number of arguments that a helper takes. -/
def Helper.arity : Helper → Nat
  | mapLookupElem | mapDeleteElem => 2
  | probeRead | probeReadStr => 3
  | mapUpdateElem => 4

namespace Insn

open Opcode

/-- Whether an instruction calls a helper. -/
def calls : Insn → Bool
  | plain code _ _ _ _ => role code = .call
  | _ => false

/-- The registers that an instruction needs: those whose values it reads, the
arguments that the helper takes, and the result of the program. -/
def uses (insn : Insn) : List Reg :=
  match insn with
  | plain code _ _ _ _ =>
      match role code with
      | .call =>
          let count := (insn.helper?.map Helper.arity).getD Machine.argumentRegs.length
          (Machine.argumentRegs.take count).map .machine
      | .leave => [.r0]
      | _ => insn.reads
  | _ => insn.reads

/-- The registers that hold something certain behind an instruction, by those
before it. -/
def defines (insn : Insn) (defined : Reg → Prop) (reg : Reg) : Prop :=
  if insn.calls then reg = .r0 ∨ defined reg ∧ reg ∉ Machine.argumentRegs.map Reg.machine
  else insn.writes? = some reg ∨ defined reg

end Insn

/-- Follows what registers hold something certain, and asks that no others are
used. -/
def discipline : Watch (Reg → Prop) where
  step defined insn := insn.defines defined
  good defined insn := ∀ reg ∈ insn.uses, defined reg

@[simp] theorem step_discipline (defined : Reg → Prop) (insn : Insn) :
    discipline.step defined insn = insn.defines defined := rfl

@[simp] theorem good_discipline (defined : Reg → Prop) (insn : Insn) :
    discipline.good defined insn ↔ ∀ reg ∈ insn.uses, defined reg := Iff.rfl

/-- The registers that hold something certain when a program starts. -/
def Reg.given (reg : Reg) : Prop :=
  reg = .r1 ∨ reg = .frame

namespace Insn

open Opcode

variable {defined more : Reg → Prop} {dst src base reg : Reg} {imm : Int32} {width : Width}
  {off : Int16} {helper : Helper}

@[simp] theorem uses_move : (move dst src).uses = [src] := rfl

@[simp] theorem uses_movImm : (movImm dst imm).uses = [] := rfl

@[simp] theorem uses_addImm : (alu64Imm add dst imm).uses = [dst] := rfl

@[simp] theorem uses_mulImm : (alu64Imm mul dst imm).uses = [dst] := rfl

@[simp] theorem uses_subImm : (alu64Imm sub dst imm).uses = [dst] := rfl

@[simp] theorem uses_negImm : (alu64Imm neg dst imm).uses = [dst] := rfl

@[simp] theorem uses_shiftLeft : (alu64Imm lsh dst imm).uses = [dst] := rfl

@[simp] theorem uses_shiftRight : (alu64Imm arsh dst imm).uses = [dst] := rfl

@[simp] theorem uses_addReg : (alu64Reg add dst src).uses = [dst, src] := rfl

@[simp] theorem uses_subReg : (alu64Reg sub dst src).uses = [dst, src] := rfl

@[simp] theorem uses_load : (load width.bits dst base off).uses = [base] := by
  cases width <;> rfl

@[simp] theorem uses_store : (store width.bits base src off).uses = [base, src] := by
  cases width <;> rfl

@[simp] theorem uses_storeImm : (storeImm width.bits base off imm).uses = [base] := by
  cases width <;> rfl

@[simp] theorem uses_wide {value : UInt64} : (wide dst value).uses = [] := rfl

@[simp] theorem uses_mapRef {map : Nat} : (mapRef dst map).uses = [] := rfl

@[simp] theorem uses_callOf : (callOf helper).uses =
    (Machine.argumentRegs.take helper.arity).map .machine := by
  cases helper <;> rfl

@[simp] theorem uses_leave : leave.uses = [.r0] := rfl

@[simp] theorem uses_jumpIfEqual {target : Label} : (jumpImm jeq dst imm target).uses = [dst] := rfl

@[simp] theorem uses_jumpIfDifferent {target : Label} :
    (jumpImm jne dst imm target).uses = [dst] := rfl

theorem defines_alu64Imm {operation : UInt8}
    (role : role (alu64 ||| operation ||| immediateOperand) = .arithmetic) :
    (alu64Imm operation dst imm).defines defined reg ↔ reg = dst ∨ defined reg := by
  simp [defines, calls, writes?, alu64Imm, role, eq_comm]

theorem defines_alu64Reg {operation : UInt8}
    (role : role (alu64 ||| operation ||| registerOperand) = .arithmetic) :
    (alu64Reg operation dst src).defines defined reg ↔ reg = dst ∨ defined reg := by
  simp [defines, calls, writes?, alu64Reg, role, eq_comm]

@[simp] theorem defines_move : (move dst src).defines defined reg ↔ reg = dst ∨ defined reg :=
  defines_alu64Reg rfl

@[simp] theorem defines_movImm : (movImm dst imm).defines defined reg ↔ reg = dst ∨ defined reg :=
  defines_alu64Imm rfl

@[simp] theorem defines_addImm : (alu64Imm add dst imm).defines defined reg ↔
    reg = dst ∨ defined reg :=
  defines_alu64Imm rfl

@[simp] theorem defines_mulImm : (alu64Imm mul dst imm).defines defined reg ↔
    reg = dst ∨ defined reg :=
  defines_alu64Imm rfl

@[simp] theorem defines_subImm : (alu64Imm sub dst imm).defines defined reg ↔
    reg = dst ∨ defined reg :=
  defines_alu64Imm rfl

@[simp] theorem defines_negImm : (alu64Imm neg dst imm).defines defined reg ↔
    reg = dst ∨ defined reg :=
  defines_alu64Imm rfl

@[simp] theorem defines_shiftLeft : (alu64Imm lsh dst imm).defines defined reg ↔
    reg = dst ∨ defined reg :=
  defines_alu64Imm rfl

@[simp] theorem defines_shiftRight : (alu64Imm arsh dst imm).defines defined reg ↔
    reg = dst ∨ defined reg :=
  defines_alu64Imm rfl

@[simp] theorem defines_addReg : (alu64Reg add dst src).defines defined reg ↔
    reg = dst ∨ defined reg :=
  defines_alu64Reg rfl

@[simp] theorem defines_subReg : (alu64Reg sub dst src).defines defined reg ↔
    reg = dst ∨ defined reg :=
  defines_alu64Reg rfl

@[simp] theorem defines_load : (load width.bits dst base off).defines defined reg ↔
    reg = dst ∨ defined reg := by
  simp [defines, calls, writes?, load, Symbolic.role_load, eq_comm]

@[simp] theorem defines_store :
    (store width.bits base src off).defines defined reg ↔ defined reg := by
  simp [defines, calls, writes?, store, Symbolic.role_store]

@[simp] theorem defines_storeImm : (storeImm width.bits base off imm).defines defined reg ↔
    defined reg := by
  simp [defines, calls, writes?, storeImm, Symbolic.role_storeImm]

@[simp] theorem defines_wide {value : UInt64} : (wide dst value).defines defined reg ↔
    reg = dst ∨ defined reg := by
  simp [defines, calls, writes?, eq_comm]

@[simp] theorem defines_mapRef {map : Nat} : (mapRef dst map).defines defined reg ↔
    reg = dst ∨ defined reg := by
  simp [defines, calls, writes?, eq_comm]

@[simp] theorem defines_callOf : (callOf helper).defines defined reg ↔
    reg = .r0 ∨ defined reg ∧ reg ∉ Machine.argumentRegs.map Reg.machine := by
  have isCall : (callOf helper).calls = true := by cases helper <;> rfl
  simp only [defines, isCall, if_true]

theorem defines_mono {insn : Insn} (enough : ∀ reg, defined reg → more reg)
    (found : insn.defines defined reg) : insn.defines more reg := by
  unfold defines at found ⊢
  split at found
  · rw [if_pos ‹_›]
    exact found.imp_right (And.imp_left (enough reg))
  · rw [if_neg ‹_›]
    exact found.imp_right (enough reg)

end Insn

/-- Code needs nothing but certain registers, and leaves others certain. -/
def Fills (filled : Reg → Prop) (code : List Insn) (behind : Reg → Prop) : Prop :=
  discipline.Leads (fun defined => ∀ reg, filled reg → defined reg) code
    fun defined => ∀ reg, behind reg → defined reg

/-- The same for code that may be left for a label. -/
def FillsOr (done : Label) (filled : Reg → Prop) (code : List Insn)
    (behind away : Reg → Prop) : Prop :=
  discipline.Breaks done (fun defined => ∀ reg, filled reg → defined reg) code
    (fun defined => ∀ reg, behind reg → defined reg) fun defined => ∀ reg, away reg → defined reg

theorem steady_discipline : discipline.Steady where
  jump _ _ _ _ _ _ := by
    funext reg
    simp [discipline, Insn.defines, Insn.calls, Insn.writes?]
  label _ _ := by
    funext reg
    simp [discipline, Insn.defines, Insn.calls, Insn.writes?]
  goto _ _ := fun reg member => by cases member
  bound _ _ := fun reg member => by cases member

section Straight

variable {filled more behind : Reg → Prop} {code : List Insn}

theorem discipline_mono (enough : ∀ reg, filled reg → more reg)
    (passes : discipline.Passes filled code) : discipline.Passes more code ∧
      ∀ reg, discipline.after filled code reg → discipline.after more code reg := by
  induction code generalizing filled more with
  | nil => exact ⟨trivial, enough⟩
  | cons insn code ih =>
      obtain ⟨others, reached⟩ := ih (fun reg => Insn.defines_mono enough) passes.2
      exact ⟨⟨fun reg member => enough reg (passes.1 reg member), others⟩, reached⟩

theorem fills_of_straight (straight : code.all Insn.straight = true)
    (passes : discipline.Passes filled code)
    (reached : ∀ reg, behind reg → discipline.after filled code reg) :
    Fills filled code behind := by
  apply Watch.Leads.of_straight straight
  intro known enough
  obtain ⟨passed, kept⟩ := discipline_mono enough passes
  constructor
  · exact passed
  · intro reg member
    exact kept reg (reached reg member)

theorem fills_nil : Fills filled [] filled :=
  Watch.Leads.nil

theorem Fills.append {middle : Reg → Prop} {later : List Insn} (first : Fills filled code middle)
    (second : Fills middle later behind) : Fills filled (code ++ later) behind :=
  Watch.Leads.append first second

theorem Fills.weaken {fewer : Reg → Prop} (fills : Fills filled code behind)
    (enough : ∀ reg, filled reg → more reg) (less : ∀ reg, fewer reg → behind reg) :
    Fills more code fewer := by
  apply Watch.Leads.weaken fills
  · intro _ known reg member
    exact known reg (enough reg member)
  · intro _ known reg member
    exact known reg (less reg member)

end Straight

end TraceProbe
