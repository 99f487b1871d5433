import TraceProbe.Proofs.Emission.Forms
import TraceProbe.Proofs.Lowering.Totality
import TraceProbe.Proofs.Verification.SafeRuns

/-!
# Emitted instructions and verification

Instructions that name existing registers, leave the frame pointer alone and
access the frame within its bounds pass the checks once they are lowered, and so
does a listing made of them whose jumps land.
-/

namespace TraceProbe

open MachineInsn Opcode

/-- A register that the machine has, or that lowering gives one. -/
def Reg.Known (reg : Reg) : Prop :=
  ∀ number, reg = .machine number → number ≤ framePointer

/-- What verification checks of a single instruction, jumps apart. -/
structure MachineInsn.Accepted (frame : Nat) (insn : MachineInsn) : Prop where
  registers : insn.dst ≤ framePointer ∧ insn.src ≤ framePointer
  keepsFrame : insn.writesDst = true → insn.dst ≠ framePointer
  wide : insn.opcode = lddw → insn.upper.isSome = true
  insideFrame : insn.accessesFrame = true → insn.insideFrame frame = true

namespace MachineInsn

variable {frame : Nat} {insn : MachineInsn}

theorem role_of_writesDst (writes : insn.writesDst = true) :
    role insn.opcode = .arithmetic ∨ role insn.opcode = .load ∨ role insn.opcode = .wide := by
  simp only [writesDst, Bool.or_eq_true, decide_eq_true_eq] at writes
  rcases writes with ((single | double) | loads) | wide
  · exact .inl (by rw [role, if_pos (.inr single)])
  · exact .inl (by rw [role, if_pos (.inl double)])
  · exact .inr (.inl (role_eq_load_iff.mpr loads))
  · exact .inr (.inr (by rw [wide]; rfl))

theorem role_of_accessesFrame (accesses : insn.accessesFrame = true) :
    role insn.opcode = .load ∧ insn.src = framePointer ∨
      (role insn.opcode = .storeImm ∨ role insn.opcode = .storeReg) ∧ insn.dst = framePointer := by
  simp only [accessesFrame, base?] at accesses
  split_ifs at accesses with loads stores
  · exact .inl ⟨role_eq_load_iff.mpr loads, by simpa using accesses⟩
  · exact .inr ⟨stores.imp role_eq_storeImm_iff.mpr role_eq_storeReg_iff.mpr,
      by simpa using accesses⟩
  · simp at accesses

theorem role_of_isJump (jumps : insn.isJump = true) : role insn.opcode = .jump := by
  simp only [isJump, Bool.and_eq_true, decide_eq_true_eq] at jumps
  obtain ⟨⟨jumps, calls⟩, leaves⟩ := jumps
  have narrow : insn.opcode ≠ lddw := by
    intro wide
    rw [wide] at jumps
    cases jumps
  simp only [role, jumps, narrow, calls, leaves, if_false]
  rfl

/-- The checks depend on the role of the opcode. -/
theorem accepted_of_role (registers : insn.dst ≤ framePointer ∧ insn.src ≤ framePointer)
    (sets : role insn.opcode = .arithmetic ∨ role insn.opcode = .load ∨ role insn.opcode = .wide →
      insn.dst ≠ framePointer)
    (wide : role insn.opcode = .wide → insn.upper.isSome = true)
    (loads : role insn.opcode = .load → insn.src = framePointer → insn.insideFrame frame = true)
    (stores : role insn.opcode = .storeImm ∨ role insn.opcode = .storeReg →
      insn.insideFrame frame = true) : insn.Accepted frame := by
  refine ⟨registers, sets ∘ role_of_writesDst, fun double => wide (by rw [double]; rfl), ?_⟩
  intro accesses
  rcases role_of_accessesFrame accesses with ⟨role, through⟩ | ⟨role, -⟩
  · exact loads role through
  · exact stores role

theorem accepted_wide {dst src : UInt8} {value : UInt64} (known : dst ≤ framePointer)
    (other : dst ≠ framePointer) (inside : src ≤ framePointer) :
    (wide dst src value).Accepted frame ∧ (wide dst src value).isJump = false := by
  have role : role (wide dst src value).opcode = .wide := (rfl : role lddw = .wide)
  refine ⟨accepted_of_role ⟨known, inside⟩ (fun _ => other) (fun _ => rfl) (by simp [role])
    (by simp [role]), Bool.eq_false_iff.mpr ?_⟩
  intro jumps
  simpa [role] using role_of_isJump jumps

theorem accepted_of_jump (jumps : role insn.opcode = .jump)
    (registers : insn.dst ≤ framePointer ∧ insn.src ≤ framePointer) : insn.Accepted frame := by
  apply accepted_of_role registers <;> simp [jumps]

theorem insideFrame_of_slot {width : Width} (sized : insn.accessWidth = width.bytes)
    (inside : ∀ position, Slot insn.offset width.bytes position →
      -(frame : Int) ≤ position ∧ position < 0) : insn.insideFrame frame = true := by
  have positive := width.bytes_pos
  have first := (inside insn.offset.toInt ⟨Int.le_refl _, by omega⟩).1
  have last := (inside (insn.offset.toInt + width.bytes - 1) ⟨by omega, by omega⟩).2
  simp only [insideFrame, sized, Bool.and_eq_true, decide_eq_true_eq]
  omega

end MachineInsn

namespace Insn

/-- What verification accepts in a frame of so many bytes. -/
def Grant.accepted (frame : Nat) : Grant where
  sets reg := reg.Known ∧ reg ≠ .frame
  uses := Reg.Known
  reads position := -(frame : Int) ≤ position ∧ position < 0
  writes position := -(frame : Int) ≤ position ∧ position < 0
  targets _ := True

/-- The number of the machine register that stands for an operand. -/
def Stands (number : UInt8) (reg : Reg) : Prop :=
  reg = .machine number ∨ number ∈ Allocation.allocatable

variable {number : UInt8} {reg : Reg} {frame slot : Nat} {insn : Insn} {machine : MachineInsn}
  {assignment : Assignment} {labels : List (Label × Nat)}

theorem Stands.le (stands : Stands number reg) (known : reg.Known) : number ≤ framePointer := by
  rcases stands with same | allocatable
  · exact known number same
  · rcases Allocation.eq_of_mem_allocatable allocatable with rfl | rfl | rfl <;> decide

theorem Stands.ne (stands : Stands number reg) (other : reg ≠ .frame) : number ≠ framePointer := by
  rintro rfl
  rcases stands with same | allocatable
  · exact other same
  · revert allocatable
    decide

theorem known_of_fixed {number : UInt8} (small : number ≤ framePointer) :
    (Reg.machine number).Known := by
  intro other same
  cases same
  exact small

theorem stands_of_plain {code : UInt8} {dst src : Reg} {off : Int16} {imm : Int32}
    (stands : ∀ reg ∈ (plain code dst src off imm).regs, ∀ number,
      machineReg assignment reg = .ok number → Stands number reg)
    (lowers : lowerAt assignment labels (slot, plain code dst src off imm) = .ok (some machine)) :
    ∃ dst' src', Stands dst' dst ∧ Stands src' src ∧
      machine = ⟨code, dst', src', off, imm, none⟩ := by
  obtain ⟨dst', src', toDst, toSrc, same⟩ := lowerAt_plain lowers
  cases same
  exact ⟨dst', src', stands dst List.mem_cons_self dst' toDst,
    stands src (List.mem_cons_of_mem _ List.mem_cons_self) src' toSrc, rfl⟩

/-- Calls and the exit pass the checks. -/
theorem accepted_of_quiet {code : UInt8} {imm : Int32}
    (quiet : role code = .call ∨ role code = .leave)
    (stands : ∀ reg ∈ (plain code .r0 .r0 0 imm).regs, ∀ number,
      machineReg assignment reg = .ok number → Stands number reg)
    (lowers : lowerAt assignment labels (slot, plain code .r0 .r0 0 imm) = .ok (some machine)) :
    machine.Accepted frame ∧ machine.isJump = false := by
  have scratch : Reg.r0.Known := known_of_fixed (by decide)
  obtain ⟨dst', src', toDst, toSrc, rfl⟩ := stands_of_plain stands lowers
  have still : role code ≠ .jump := by rcases quiet with role | role <;> simp [role]
  refine ⟨accepted_of_role ⟨toDst.le scratch, toSrc.le scratch⟩ ?_ ?_ ?_ ?_,
    Bool.eq_false_iff.mpr fun jumps => still (role_of_isJump jumps)⟩
  all_goals rcases quiet with role | role <;> simp [role]

theorem Form.accepted (form : Form (.accepted frame) insn)
    (stands : ∀ reg ∈ insn.regs, ∀ number, machineReg assignment reg = .ok number →
      Stands number reg)
    (lowers : lowerAt assignment labels (slot, insn) = .ok (some machine)) :
    machine.Accepted frame ∧ (machine.isJump = true → ∃ target, insn.target? = some target) := by
  have scratch : Reg.r0.Known := known_of_fixed (by decide)
  have pointer : Reg.frame.Known := known_of_fixed (by decide)
  have still {other : Prop} (role : role machine.opcode ≠ .jump) (jumps : machine.isJump = true) :
      other :=
    absurd (role_of_isJump jumps) role
  cases form with
  | @arithmetic code dst src imm found set use =>
      obtain ⟨dst', src', toDst, toSrc, rfl⟩ := stands_of_plain stands lowers
      exact ⟨accepted_of_role ⟨toDst.le set.1, toSrc.le use⟩ (fun _ => toDst.ne set.2)
        (by simp [found]) (by simp [found]) (by simp [found]), still (by simp [found])⟩
  | @load width dst off set inside =>
      obtain ⟨dst', src', toDst, toSrc, rfl⟩ := stands_of_plain stands lowers
      have role := Symbolic.role_load width
      exact ⟨accepted_of_role ⟨toDst.le set.1, toSrc.le pointer⟩ (fun _ => toDst.ne set.2)
        (by simp [role])
        (fun _ _ => insideFrame_of_slot (congrArg Width.bytes (Symbolic.ofCode_load width)) inside)
        (by simp [role]), still (by simp [role])⟩
  | @context width dst off set =>
      obtain ⟨dst', src', toDst, toSrc, rfl⟩ := stands_of_plain stands lowers
      have role := Symbolic.role_load width
      have known : src' ≤ framePointer := toSrc.le (known_of_fixed (by decide))
      have other : src' ≠ framePointer := toSrc.ne (by decide)
      exact ⟨accepted_of_role ⟨toDst.le set.1, known⟩ (fun _ => toDst.ne set.2) (by simp [role])
        (fun _ through => absurd through other) (by simp [role]), still (by simp [role])⟩
  | @store width src off use inside =>
      obtain ⟨dst', src', toDst, toSrc, rfl⟩ := stands_of_plain stands lowers
      have role := Symbolic.role_store width
      exact ⟨accepted_of_role ⟨toDst.le pointer, toSrc.le use⟩ (by simp [role]) (by simp [role])
        (by simp [role])
        (fun _ => insideFrame_of_slot (congrArg Width.bytes (Symbolic.ofCode_store width)) inside),
        still (by simp [role])⟩
  | @storeImm width off imm inside =>
      obtain ⟨dst', src', toDst, toSrc, rfl⟩ := stands_of_plain stands lowers
      have role := Symbolic.role_storeImm width
      exact ⟨accepted_of_role ⟨toDst.le pointer, toSrc.le scratch⟩ (by simp [role]) (by simp [role])
        (by simp [role])
        (fun _ =>
          insideFrame_of_slot (congrArg Width.bytes (Symbolic.ofCode_storeImm width)) inside),
        still (by simp [role])⟩
  | @wide dst value set =>
      obtain ⟨dst', toDst, same⟩ := lowerAt_wide lowers
      cases same
      have toDst : Stands dst' dst := stands dst (List.mem_singleton_self dst) dst' toDst
      have none : (0 : UInt8) ≤ framePointer := by decide
      obtain ⟨accepted, still⟩ := accepted_wide (toDst.le set.1) (toDst.ne set.2) none
      exact ⟨accepted, by simp [still]⟩
  | @mapRef dst map set =>
      obtain ⟨dst', toDst, same⟩ := lowerAt_mapRef lowers
      cases same
      have toDst : Stands dst' dst := stands dst (List.mem_singleton_self dst) dst' toDst
      have reference : mapReference ≤ framePointer := by decide
      obtain ⟨accepted, still⟩ := accepted_wide (toDst.le set.1) (toDst.ne set.2) reference
      exact ⟨accepted, by simp [still]⟩
  | @call helper quiet =>
      obtain ⟨accepted, none⟩ := accepted_of_quiet (.inl rfl) stands lowers
      exact ⟨accepted, by simp [none]⟩
  | @jump operation dst imm target operations use _ =>
      obtain ⟨distance, dst', src', -, toDst, toSrc, same⟩ := lowerAt_jump lowers
      cases same
      have toDst : Stands dst' dst := stands dst List.mem_cons_self dst' toDst
      have toSrc : Stands src' .r0 :=
        stands .r0 (List.mem_cons_of_mem _ List.mem_cons_self) src' toSrc
      have role : role (jmp ||| operation ||| immediateOperand) = .jump := by
        rcases operations with rfl | rfl <;> rfl
      exact ⟨accepted_of_jump role ⟨toDst.le use, toSrc.le scratch⟩, fun _ => ⟨target, rfl⟩⟩
  | @goto target _ =>
      obtain ⟨distance, dst', src', -, toDst, toSrc, same⟩ := lowerAt_jump lowers
      cases same
      have toDst : Stands dst' .r0 := stands .r0 List.mem_cons_self dst' toDst
      have toSrc : Stands src' .r0 :=
        stands .r0 (List.mem_cons_of_mem _ List.mem_cons_self) src' toSrc
      have role : role (jmp ||| ja) = .jump := rfl
      exact ⟨accepted_of_jump role ⟨toDst.le scratch, toSrc.le scratch⟩, fun _ => ⟨target, rfl⟩⟩
  | label name => cases lowers

/-- A lowered jump leads ahead, to a label of the listing. -/
theorem forward_of_lowerAt {code : List Insn} {target : Label}
    (target? : insn.target? = some target)
    (lowers : lowerAt assignment (labelSlots (placeFrom slots 0 code)) (slot, insn) =
      .ok (some machine)) :
    ∃ before after, code = before ++ label target :: after ∧
      machine.jumpTarget slot = totalOf slots before ∧ (slot : Int) < machine.jumpTarget slot := by
  cases insn with
  | jump operation dst src imm name =>
      cases target?
      obtain ⟨distance, _, _, far, -, -, same⟩ := lowerAt_jump lowers
      cases same
      obtain ⟨stop, known, ahead, place⟩ := jumpDistance_eq_ok far
      obtain ⟨before, after, split, rfl⟩ := exists_of_lookup_labelSlots known
      refine ⟨before, after, split, place, ?_⟩
      rw [jumpTarget, place]
      exact Int.ofNat_lt.mpr ahead
  | plain _ _ _ _ _ | wide _ _ | mapRef _ _ | label _ => cases target?

theorem label_lt_exit {body before after : List Insn} {name : Label}
    (split : body ++ [leave] = before ++ label name :: after) :
    totalOf slots before < totalOf slots (body ++ [leave]) := by
  have one : totalOf slots [leave] = 1 := rfl
  rw [totalOf_append, one]
  rcases List.append_eq_append_iff.mp split with ⟨middle, -, right⟩ | ⟨middle, rfl, -⟩
  · cases middle with
    | nil => cases right
    | cons head middle => simp at right
  · rw [totalOf_append]
    omega

/-- A listing that ends with the exit passes the checks if its instructions do. -/
theorem checked_of_lower {body : List Insn} {program : List MachineInsn}
    (forms : ∀ insn ∈ body, Form (.accepted frame) insn ∨ ∃ helper, insn = callOf helper)
    (found : lower (body ++ [leave]) = .ok program) : Program.Checked frame program := by
  obtain ⟨assignment, lowered, assigned, mapped, rfl⟩ := exists_of_lower found
  have separates := separates_of_assignRegisters assigned
  obtain ⟨total, layout⟩ := layout mapped
  have each : ∀ slot machine, (slot, machine) ∈
      placeFrom MachineInsn.slots 0 (lowered.filterMap id) →
      machine.Accepted frame ∧ (machine.isJump = true → (slot : Int) < machine.jumpTarget slot ∧
        machine.jumpTarget slot < Program.slots (lowered.filterMap id)) := by
    intro slot machine placed
    obtain ⟨before, insn, after, split, -, lowers⟩ := exists_of_placed mapped placed
    have member : insn ∈ body ++ [leave] := split ▸ List.mem_append_right _ List.mem_cons_self
    have stands (reg : Reg) (named : reg ∈ insn.regs) (number : UInt8)
        (known : machineReg assignment reg = .ok number) : Stands number reg :=
      number_of_machineReg separates member named known
    rcases List.mem_append.mp member with inside | last
    · rcases forms insn inside with form | ⟨helper, rfl⟩
      · obtain ⟨accepted, jumps⟩ := form.accepted stands lowers
        refine ⟨accepted, ?_⟩
        intro jump
        obtain ⟨target, names⟩ := jumps jump
        obtain ⟨front, back, whole, place, ahead⟩ := forward_of_lowerAt names lowers
        have inside := label_lt_exit whole
        rw [Program.slots, total]
        exact ⟨ahead, by omega⟩
      · obtain ⟨accepted, none⟩ := accepted_of_quiet (.inl rfl) stands lowers
        exact ⟨accepted, by simp [none]⟩
    · obtain rfl := List.mem_singleton.mp last
      obtain ⟨accepted, none⟩ := accepted_of_quiet (.inr rfl) stands lowers
      exact ⟨accepted, by simp [none]⟩
  have alone (insn : MachineInsn) (member : insn ∈ lowered.filterMap id) : insn.Accepted frame := by
    obtain ⟨slot, placed⟩ := Program.exists_slot member
    exact (each slot insn placed).1
  refine ⟨fun insn member => (alone insn member).registers,
    fun insn member => (alone insn member).keepsFrame, fun insn member =>
      (alone insn member).wide, fun insn member => (alone insn member).insideFrame,
    fun slot insn placed => (each slot insn placed).2, ?_⟩
  obtain ⟨result, lowers, placed⟩ := layout body leave [] rfl
  obtain ⟨dst', src', -, -, rfl⟩ := lowerAt_plain lowers
  obtain ⟨before, after, split, place⟩ := mem_placeFrom_iff.mp (placed _ rfl)
  have last : after = [] := by
    have one : totalOf slots [leave] = 1 := rfl
    have positive := MachineInsn.slots_pos ⟨exitProgram, dst', src', 0, 0, none⟩
    rw [split, totalOf_append, totalOf_append, totalOf] at total
    cases after with
    | nil => rfl
    | cons next after =>
        have more := next.slots_pos
        rw [totalOf] at total
        omega
  subst last
  exact ⟨before, _, split, rfl⟩

end Insn

end TraceProbe
