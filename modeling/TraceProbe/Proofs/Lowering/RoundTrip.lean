import TraceProbe.Proofs.Lowering.Simulation
import TraceProbe.Proofs.Lowering.Totality

/-!
# Programs read back from their bytes

The bytes of a program are read slot by slot, and the opcode alone decides
whether an instruction takes one slot or two.  So a program comes back whole
exactly when its upper immediates agree with its opcodes, and the slots that
lowering, verification and the bytes count are the same.
-/

namespace TraceProbe

namespace MachineInsn

/-- Instructions that are written out in full: register numbers of four bits, and
an upper immediate with the opcode of the wide load and no other. -/
structure Writable (insn : MachineInsn) : Prop where
  dst : insn.dst ≤ 15
  src : insn.src ≤ 15
  upper : insn.upper.isSome = true ↔ insn.opcode = Opcode.lddw

theorem Writable.readable {insn : MachineInsn} (writable : insn.Writable) : insn.Readable :=
  ⟨writable.dst, writable.src, writable.upper.mpr⟩

theorem size_pos (insn : MachineInsn) : 0 < insn.size :=
  Nat.mul_pos (by decide) insn.slots_pos

end MachineInsn

namespace Bytecode

/-- The instructions that bytes stand for, slot by slot: the opcode in the first
slot says whether a second one belongs to it. -/
def decode? (bytes : List UInt8) : Option (List MachineInsn) :=
  if bytes = [] then some []
  else
    match MachineInsn.decode? bytes with
    | none => none
    | some insn => (decode? (bytes.drop insn.size)).map (insn :: ·)
termination_by bytes.length
decreasing_by
  rename_i some
  have positive := insn.size_pos
  have length := List.length_pos_of_ne_nil some
  rw [List.length_drop]
  omega

theorem decode?_encodeProgram {program : List MachineInsn}
    (writable : ∀ insn ∈ program, insn.Writable) :
    decode? (encodeProgram program) = some program := by
  induction program with
  | nil =>
      rw [decode?]
      rfl
  | cons insn program ih =>
      have here := writable insn List.mem_cons_self
      have bytes : encodeProgram (insn :: program) = insn.encode ++ encodeProgram program :=
        List.flatMap_cons
      have some : insn.encode ++ encodeProgram program ≠ [] := by
        intro empty
        have length := congrArg List.length (List.append_eq_nil_iff.mp empty).1
        rw [insn.length_encode] at length
        exact absurd length (Nat.ne_of_gt insn.size_pos)
      have first := MachineInsn.decode?_encode_append here.readable (encodeProgram program)
      rw [MachineInsn.seen_eq_self here.upper.mp] at first
      rw [bytes, decode?, if_neg some, first]
      simp only
      rw [← insn.length_encode, List.drop_left,
        ih fun other member => writable other (List.mem_cons_of_mem _ member)]
      rfl

/-- The 64-bit immediate at a slot, put together from the low half in this slot and
the high half in the next one. -/
def immediate (bytes : List UInt8) (slot : Nat) : UInt64 :=
  let low := (bytes.drop (8 * slot + 4)).take 4
  let high := (bytes.drop (8 * slot + 12)).take 4
  UInt64.ofNat (fromLittleEndian (low ++ high))

theorem fromLittleEndian_append (left right : List UInt8) :
    fromLittleEndian (left ++ right) =
      fromLittleEndian left + 256 ^ left.length * fromLittleEndian right := by
  induction left with
  | nil => simp [fromLittleEndian]
  | cons byte left ih =>
      rw [List.cons_append, fromLittleEndian, fromLittleEndian, ih, List.length_cons, Nat.pow_succ,
        Nat.mul_add, Nat.mul_comm (256 ^ left.length) 256, Nat.mul_assoc, Nat.add_assoc]

theorem immediate_encodeProgram {program : List MachineInsn} {slot : Nat} {insn : MachineInsn}
    {upper : UInt32} (placed : (slot, insn) ∈ Program.placed program)
    (wide : insn.upper = some upper) :
    immediate (encodeProgram program) slot = wideImmediate insn.imm upper := by
  obtain ⟨rest, bytes⟩ := drop_encodeProgram placed
  have low : insn.imm.toUInt32.toNat < 256 ^ 4 := insn.imm.toUInt32.toNat_lt
  have high : upper.toNat < 256 ^ 4 := upper.toNat_lt
  have halves : ((insn.encode ++ rest).drop 4).take 4 ++ ((insn.encode ++ rest).drop 12).take 4 =
      littleEndian 4 insn.imm.toUInt32.toNat ++ littleEndian 4 upper.toNat := by
    simp only [MachineInsn.encode, wide, littleEndian, List.cons_append, List.nil_append,
      List.drop_succ_cons, List.drop_zero, List.take_succ_cons, List.take_zero]
  simp only [immediate, wideImmediate]
  rw [← List.drop_drop, ← List.drop_drop, bytes, halves, fromLittleEndian_append,
    fromLittleEndian_littleEndian, fromLittleEndian_littleEndian, Nat.mod_eq_of_lt low,
    Nat.mod_eq_of_lt high, length_littleEndian]
  rfl

end Bytecode

/-- What the bytes of a program give back. -/
structure Program.Shown (program : List MachineInsn) : Prop where
  whole : Bytecode.decode? (encodeProgram program) = some program
  immediates : ∀ before dst src value after,
    program = before ++ .wide dst src value :: after →
      Bytecode.immediate (encodeProgram program) (slots before) = value

/-- Where the instructions of a program stand: the slot that verification gives an
instruction is the number of slots before it, and its bytes start at eight times
this number. -/
def Program.InSlots (program : List MachineInsn) : Prop :=
  ∀ before insn after, program = before ++ insn :: after →
    (slots before, insn) ∈ placed program ∧
      (encodeProgram program).drop (8 * slots before) = insn.encode ++ encodeProgram after

theorem Program.inSlots (program : List MachineInsn) : InSlots program := by
  rintro before insn after rfl
  refine ⟨mem_placeFrom_iff.mpr ⟨before, after, rfl, (Nat.zero_add _).symm⟩, ?_⟩
  rw [← Bytecode.length_encodeProgram]
  simp only [encodeProgram, List.flatMap_append, List.flatMap_cons, List.drop_left]

theorem Program.shown {program : List MachineInsn} (writable : ∀ insn ∈ program, insn.Writable) :
    Shown program where
  whole := Bytecode.decode?_encodeProgram writable
  immediates := by
    intro before dst src value after split
    rw [Bytecode.immediate_encodeProgram (inSlots program _ _ _ split).1 rfl]
    exact Alike.wideImmediate_halves value

namespace Insn

/-- The opcode that an instruction of one slot brings along. -/
def opcode? : Insn → Option UInt8
  | plain code _ _ _ _ | jump code _ _ _ _ => some code
  | wide _ _ | mapRef _ _ | label _ => none

/-- How a lowered program stands to its listing. -/
structure Lowered (code : List Insn) (program : List MachineInsn) : Prop where
  /-- Upper immediates agree with the opcodes unless an instruction of one slot takes
  the opcode of the wide load. -/
  uppers : (∀ insn ∈ program, insn.upper.isSome = true ↔ insn.opcode = Opcode.lddw) ↔
    ∀ insn ∈ code, insn.opcode? ≠ some Opcode.lddw
  /-- Register numbers fit in four bits unless the listing names a larger one. -/
  registers : (∀ insn ∈ program, insn.dst ≤ 15 ∧ insn.src ≤ 15) ↔
    ∀ insn ∈ code, ∀ number, .machine number ∈ insn.regs → number ≤ 15
  /-- An instruction is found at the slot at which lowering places it, and takes as
  many slots as there. -/
  places : ∀ before insn after, code = before ++ insn :: after → (∀ name, insn ≠ label name) →
    ∃ machine, (totalOf slots before, machine) ∈ Program.placed program ∧
      machine.slots = insn.slots
  /-- A jump leads to the slot at which its label is bound. -/
  jumps : ∀ before insn after target, code = before ++ insn :: after → insn.target? = some target →
    ∃ machine front back, (totalOf slots before, machine) ∈ Program.placed program ∧
      code = front ++ label target :: back ∧
        machine.jumpTarget (totalOf slots before) = totalOf slots front

section

variable {code : List Insn} {program : List MachineInsn} {assignment : Assignment}
  {labels : List (Label × Nat)} {slot : Nat} {insn : Insn} {machine : MachineInsn}

theorem upper_of_lowerAt (found : lowerAt assignment labels (slot, insn) = .ok (some machine)) :
    (machine.upper.isSome = true ↔ machine.opcode = Opcode.lddw) ↔
      insn.opcode? ≠ some Opcode.lddw := by
  cases insn with
  | label name => cases found
  | plain code dst src off imm =>
      obtain ⟨_, _, -, -, same⟩ := lowerAt_plain found
      cases same
      simp [opcode?]
  | wide dst value =>
      obtain ⟨_, -, same⟩ := lowerAt_wide found
      cases same
      simp [opcode?, MachineInsn.wide]
  | mapRef dst map =>
      obtain ⟨_, -, same⟩ := lowerAt_mapRef found
      cases same
      simp [opcode?, MachineInsn.wide]
  | jump code dst src imm target =>
      obtain ⟨_, _, _, -, -, -, same⟩ := lowerAt_jump found
      cases same
      simp [opcode?]

theorem le_of_machineReg (separates : assignment.Separates code) (member : insn ∈ code) {reg : Reg}
    (named : reg ∈ insn.regs) {number : UInt8} (found : machineReg assignment reg = .ok number) :
    number ≤ 15 ↔ ∀ other, reg = .machine other → other ≤ 15 := by
  rcases number_of_machineReg separates member named found with rfl | allocated
  · simp
  · have small : number ≤ 15 := by
      rcases Allocation.eq_of_mem_allocatable allocated with rfl | rfl | rfl <;> decide
    refine iff_of_true small ?_
    rintro other rfl
    cases found
    exact small

theorem registers_of_lowerAt (separates : assignment.Separates code) (member : insn ∈ code)
    (found : lowerAt assignment labels (slot, insn) = .ok (some machine)) :
    machine.dst ≤ 15 ∧ machine.src ≤ 15 ↔ ∀ number, .machine number ∈ insn.regs → number ≤ 15 := by
  have known {reg : Reg} (named : reg ∈ insn.regs) {number : UInt8} :=
    @le_of_machineReg code assignment insn separates member reg named number
  have one {reg : Reg} : (∀ number, .machine number ∈ [reg] → number ≤ 15) ↔
      ∀ number, reg = .machine number → number ≤ 15 := by
    simp [eq_comm]
  have two {dst src : Reg} : (∀ number, .machine number ∈ [dst, src] → number ≤ 15) ↔
      (∀ number, dst = .machine number → number ≤ 15) ∧
        ∀ number, src = .machine number → number ≤ 15 := by
    simp [or_imp, forall_and, eq_comm]
  cases insn with
  | label name => cases found
  | plain code dst src off imm =>
      obtain ⟨_, _, toDst, toSrc, same⟩ := lowerAt_plain found
      cases same
      rw [regs, two, ← known List.mem_cons_self toDst,
        ← known (List.mem_cons_of_mem _ List.mem_cons_self) toSrc]
  | wide dst value =>
      obtain ⟨_, toDst, same⟩ := lowerAt_wide found
      cases same
      rw [regs, one, ← known List.mem_cons_self toDst]
      exact and_iff_left (show (0 : UInt8) ≤ 15 by decide)
  | mapRef dst map =>
      obtain ⟨_, toDst, same⟩ := lowerAt_mapRef found
      cases same
      rw [regs, one, ← known List.mem_cons_self toDst]
      exact and_iff_left (show mapReference ≤ 15 by decide)
  | jump code dst src imm target =>
      obtain ⟨_, _, _, -, toDst, toSrc, same⟩ := lowerAt_jump found
      cases same
      rw [regs, two, ← known List.mem_cons_self toDst,
        ← known (List.mem_cons_of_mem _ List.mem_cons_self) toSrc]

end

/-- A property of machine instructions goes back to one of the listing. -/
theorem forall_lowered_iff {code : List Insn} {start : Nat} {lowered : List (Option MachineInsn)}
    {assignment : Assignment} {labels : List (Label × Nat)} {shown : MachineInsn → Prop}
    {asked : Insn → Prop}
    (found : (placeFrom slots start code).mapM (lowerAt assignment labels) = .ok lowered)
    (free : ∀ name, asked (label name))
    (each : ∀ slot insn machine, insn ∈ code →
      lowerAt assignment labels (slot, insn) = .ok (some machine) → (shown machine ↔ asked insn)) :
    (∀ machine ∈ lowered.filterMap id, shown machine) ↔ ∀ insn ∈ code, asked insn := by
  constructor
  · intro all insn member
    obtain ⟨before, after, split⟩ := List.append_of_mem member
    obtain ⟨result, lowers, placed⟩ := (layout found).2 before insn after split
    cases result with
    | none =>
        obtain ⟨name, rfl⟩ := exists_label_of_lowerAt lowers
        exact free name
    | some machine =>
        exact (each _ insn machine member lowers).mp
          (all machine (mem_of_mem_placeFrom (placed machine rfl)))
  · intro all machine member
    obtain ⟨result, inside, rfl⟩ := List.mem_filterMap.mp member
    obtain ⟨⟨slot, insn⟩, placed, lowers⟩ := exists_of_mem_mapM found inside
    have among := mem_of_mem_placeFrom placed
    exact (each slot insn machine among lowers).mpr (all insn among)

theorem lowered {code : List Insn} {program : List MachineInsn} (found : lower code = .ok program) :
    Lowered code program := by
  obtain ⟨assignment, lowered, assigned, mapped, rfl⟩ := exists_of_lower found
  have separates := separates_of_assignRegisters assigned
  have placed := (layout mapped).2
  simp only [Nat.zero_add] at placed
  refine ⟨?_, ?_, ?_, ?_⟩
  · exact forall_lowered_iff mapped (by simp [opcode?]) fun _ _ _ _ lowers =>
      upper_of_lowerAt lowers
  · exact forall_lowered_iff mapped (by simp [regs]) fun _ _ _ member lowers =>
      registers_of_lowerAt separates member lowers
  · intro before insn after split coded
    obtain ⟨result, lowers, there⟩ := placed before insn after split
    cases result with
    | none =>
        obtain ⟨name, rfl⟩ := exists_label_of_lowerAt lowers
        exact absurd rfl (coded name)
    | some machine => exact ⟨machine, there machine rfl, slots_of_lowerAt lowers⟩
  · intro before insn after target split jumps
    obtain ⟨result, lowers, there⟩ := placed before insn after split
    cases insn with
    | jump operation dst src imm target =>
        cases jumps
        obtain ⟨distance, _, _, far, -, -, rfl⟩ := lowerAt_jump lowers
        obtain ⟨stop, known, -, same⟩ := jumpDistance_eq_ok far
        obtain ⟨front, back, bound, rfl⟩ := exists_of_lookup_labelSlots known
        exact ⟨_, front, back, there _ rfl, bound, same⟩
    | _ => cases jumps

end Insn

/-- The bytes of a program give it back, every instruction starts at its slot, and
lowering counts the same slots: of what it returns, all is given back unless an
instruction of one slot has the opcode of the wide load or names a register that
does not exist. -/
theorem encodeProgram_roundTrip (program : List MachineInsn) :
    ((∀ insn ∈ program, insn.Writable) → Program.Shown program) ∧ Program.InSlots program ∧
      ∀ code, Insn.lower code = .ok program → Insn.Lowered code program := by
  refine ⟨?_, Program.inSlots program, ?_⟩
  · intro writable
    exact Program.shown writable
  · intro code found
    exact Insn.lowered found

/-- A jump over a wide load, whose low half has the sign bit, and over a store at a
negative offset. -/
def wideListing : List Insn :=
  [.jumpImm Opcode.jeq .r0 0 ⟨0⟩, .wide .r1 0x800000018000000f,
    .store Width.double.bits .frame .r1 (-8), .label ⟨0⟩, .leave]

def wideProgram : List MachineInsn :=
  [⟨0x15, 0, 0, 3, 0, none⟩, .wide 1 0 0x800000018000000f, ⟨0x7b, 10, 1, -8, 0, none⟩,
    ⟨0x95, 0, 0, 0, 0, none⟩]

theorem wideProgram_roundTrip :
    (∀ insn ∈ wideProgram, insn.Writable) ∧ Program.Shown wideProgram ∧
      Insn.lower wideListing = .ok wideProgram ∧ Insn.Lowered wideListing wideProgram := by
  have writable : ∀ insn ∈ wideProgram, insn.Writable := by
    simp only [wideProgram, List.mem_cons, List.not_mem_nil, or_false]
    rintro insn (rfl | rfl | rfl | rfl) <;> exact ⟨by decide, by decide, by decide⟩
  have lowers : Insn.lower wideListing = .ok wideProgram := by decide +kernel
  obtain ⟨shown, -, lowered⟩ := encodeProgram_roundTrip wideProgram
  exact ⟨writable, shown writable, lowers, lowered wideListing lowers⟩

end TraceProbe
