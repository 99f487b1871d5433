import TraceProbe.Bytecode.Lowering
import TraceProbe.Proofs.Machine.Decoding
import TraceProbe.Proofs.Results

/-!
# The layout of a lowered program

Lowering leaves every instruction at the slot it was placed at, and labels
vanish.  A jump keeps the distance from the slot after it to the slot of its
label.
-/

namespace TraceProbe.Insn

/-- The labels that are bound in a listing. -/
def boundLabels (code : List Insn) : List Label :=
  code.filterMap fun insn =>
    match insn with
    | label name => some name
    | _ => none

theorem boundLabels_append (before after : List Insn) :
    boundLabels (before ++ after) = boundLabels before ++ boundLabels after :=
  List.filterMap_append

@[simp] theorem boundLabels_label (name : Label) (rest : List Insn) :
    boundLabels (label name :: rest) = name :: boundLabels rest :=
  rfl

theorem binding?_eq_some_iff {entry : Nat × Insn} {name : Label} {slot : Nat} :
    binding? entry = some (name, slot) ↔ entry = (slot, label name) := by
  obtain ⟨place, insn⟩ := entry
  cases insn <;> simp [binding?, and_comm]

/-- The slot that a label is known by is one at which it is bound. -/
theorem exists_of_lookup_labelSlots {code : List Insn} {name : Label} {stop : Nat}
    (found : (labelSlots (placeFrom slots 0 code)).lookup name = some stop) :
    ∃ before after, code = before ++ label name :: after ∧ stop = totalOf slots before := by
  obtain ⟨front, back, split, -⟩ := List.lookup_eq_some_iff.mp found
  have member : (name, stop) ∈ labelSlots (placeFrom slots 0 code) :=
    split ▸ List.mem_append_right front List.mem_cons_self
  rw [labelSlots, List.mem_reverse, List.mem_filterMap] at member
  obtain ⟨entry, placed, binds⟩ := member
  obtain rfl := binding?_eq_some_iff.mp binds
  obtain ⟨before, after, split, place⟩ := mem_placeFrom_iff.mp placed
  exact ⟨before, after, split, by omega⟩

theorem jumpDistance_eq_ok {labels : List (Label × Nat)} {slot : Nat} {target : Label}
    {distance : Int16} (found : jumpDistance labels slot target = .ok distance) :
    ∃ stop, labels.lookup target = some stop ∧ slot < stop ∧
      (slot : Int) + 1 + distance.toInt = stop := by
  unfold jumpDistance at found
  cases known : labels.lookup target with
  | none => simp [known] at found
  | some stop =>
      simp only [known] at found
      split at found
      · cases found
      · rename_i ahead
        split at found
        · cases found
        · rename_i near
          cases found
          have small : stop - slot - 1 < 2 ^ 15 := by omega
          have exact : (Int16.ofNat (stop - slot - 1)).toInt = stop - slot - 1 := by
            rw [Int16.toInt_ofNat_of_lt small]
            omega
          exact ⟨stop, rfl, by omega, by omega⟩

section Lowered

variable {assignment : Assignment} {labels : List (Label × Nat)}

theorem lowerAt_plain {slot : Nat} {code : UInt8} {dst src : Reg} {off : Int16} {imm : Int32}
    {lowered : Option MachineInsn}
    (found : lowerAt assignment labels (slot, plain code dst src off imm) = .ok lowered) :
    ∃ dstReg srcReg, machineReg assignment dst = .ok dstReg ∧
      machineReg assignment src = .ok srcReg ∧
      lowered = some ⟨code, dstReg, srcReg, off, imm, none⟩ := by
  obtain ⟨dstReg, toDst, found⟩ := ok_of_bind found
  obtain ⟨srcReg, toSrc, found⟩ := ok_of_bind found
  cases found
  exact ⟨dstReg, srcReg, toDst, toSrc, rfl⟩

theorem lowerAt_wide {slot : Nat} {dst : Reg} {value : UInt64} {lowered : Option MachineInsn}
    (found : lowerAt assignment labels (slot, wide dst value) = .ok lowered) :
    ∃ dstReg, machineReg assignment dst = .ok dstReg ∧
      lowered = some (.wide dstReg 0 value) := by
  obtain ⟨dstReg, toDst, found⟩ := ok_of_bind found
  cases found
  exact ⟨dstReg, toDst, rfl⟩

theorem lowerAt_mapRef {slot : Nat} {dst : Reg} {map : Nat} {lowered : Option MachineInsn}
    (found : lowerAt assignment labels (slot, mapRef dst map) = .ok lowered) :
    ∃ dstReg, machineReg assignment dst = .ok dstReg ∧
      lowered = some (.wide dstReg mapReference (UInt64.ofNat map)) := by
  obtain ⟨dstReg, toDst, found⟩ := ok_of_bind found
  cases found
  exact ⟨dstReg, toDst, rfl⟩

theorem lowerAt_jump {slot : Nat} {code : UInt8} {dst src : Reg} {imm : Int32} {target : Label}
    {lowered : Option MachineInsn}
    (found : lowerAt assignment labels (slot, jump code dst src imm target) = .ok lowered) :
    ∃ distance dstReg srcReg, jumpDistance labels slot target = .ok distance ∧
      machineReg assignment dst = .ok dstReg ∧ machineReg assignment src = .ok srcReg ∧
      lowered = some ⟨code, dstReg, srcReg, distance, imm, none⟩ := by
  obtain ⟨distance, far, found⟩ := ok_of_bind found
  obtain ⟨dstReg, toDst, found⟩ := ok_of_bind found
  obtain ⟨srcReg, toSrc, found⟩ := ok_of_bind found
  cases found
  exact ⟨distance, dstReg, srcReg, far, toDst, toSrc, rfl⟩

theorem slots_of_lowerAt {slot : Nat} {insn : Insn} {lowered : Option MachineInsn}
    (found : lowerAt assignment labels (slot, insn) = .ok lowered) :
    totalOf MachineInsn.slots lowered.toList = insn.slots := by
  cases insn with
  | label name =>
      cases found
      rfl
  | plain code dst src off imm =>
      obtain ⟨_, _, -, -, rfl⟩ := lowerAt_plain found
      rfl
  | wide dst value =>
      obtain ⟨_, -, rfl⟩ := lowerAt_wide found
      rfl
  | mapRef dst map =>
      obtain ⟨_, -, rfl⟩ := lowerAt_mapRef found
      rfl
  | jump code dst src imm target =>
      obtain ⟨_, _, _, -, -, -, rfl⟩ := lowerAt_jump found
      rfl

theorem exists_label_of_lowerAt {slot : Nat} {insn : Insn}
    (found : lowerAt assignment labels (slot, insn) = .ok none) :
    ∃ name, insn = label name := by
  cases insn with
  | label name => exact ⟨name, rfl⟩
  | plain code dst src off imm =>
      obtain ⟨_, _, -, -, same⟩ := lowerAt_plain found
      cases same
  | wide dst value =>
      obtain ⟨_, -, same⟩ := lowerAt_wide found
      cases same
  | mapRef dst map =>
      obtain ⟨_, -, same⟩ := lowerAt_mapRef found
      cases same
  | jump code dst src imm target =>
      obtain ⟨_, _, _, -, -, -, same⟩ := lowerAt_jump found
      cases same

theorem slots_pos_of_lowerAt {slot : Nat} {insn : Insn} {lowered : MachineInsn}
    (found : lowerAt assignment labels (slot, insn) = .ok (some lowered)) : 0 < insn.slots := by
  rw [← slots_of_lowerAt found]
  exact Nat.lt_of_lt_of_le lowered.slots_pos (Nat.le_add_right _ _)

theorem layout {code : List Insn} {start : Nat} {lowered : List (Option MachineInsn)}
    (found : (placeFrom slots start code).mapM (lowerAt assignment labels) = .ok lowered) :
    totalOf MachineInsn.slots (lowered.filterMap id) = totalOf slots code ∧
      ∀ before insn after, code = before ++ insn :: after →
        ∃ result, lowerAt assignment labels (start + totalOf slots before, insn) = .ok result ∧
          ∀ machine ∈ result, (start + totalOf slots before, machine) ∈
            placeFrom MachineInsn.slots start (lowered.filterMap id) := by
  -- The slot of the first instruction is arbitrary, since it moves on with the
  -- listing.
  induction code generalizing start lowered with
  | nil =>
      cases found
      refine ⟨rfl, ?_⟩
      intro before insn after split
      cases before <;> cases split
  | cons head rest ih =>
      obtain ⟨result, later, first, others, rfl⟩ := cons_of_mapM found
      have size := slots_of_lowerAt first
      obtain ⟨total, each⟩ := ih others
      have split : (result :: later).filterMap id = result.toList ++ later.filterMap id := by
        cases result <;> rfl
      rw [split, totalOf_append, placeFrom_append, size, total]
      refine ⟨rfl, ?_⟩
      intro before insn after parts
      cases before with
      | nil =>
          cases parts
          refine ⟨result, first, ?_⟩
          intro machine member
          cases member
          exact List.mem_cons_self
      | cons next before =>
          cases parts
          obtain ⟨result', lowers, placed⟩ := each before insn after rfl
          have place : start + totalOf slots (head :: before) =
              start + head.slots + totalOf slots before := by
            rw [totalOf]
            omega
          rw [place]
          exact ⟨result', lowers, fun machine member =>
            List.mem_append_right _ (placed machine member)⟩

/-- Every instruction of the result comes from one of the listing. -/
theorem exists_of_placed {code : List Insn} {start slot : Nat} {lowered : List (Option MachineInsn)}
    {machine : MachineInsn}
    (found : (placeFrom slots start code).mapM (lowerAt assignment labels) = .ok lowered)
    (placed : (slot, machine) ∈ placeFrom MachineInsn.slots start (lowered.filterMap id)) :
    ∃ before insn after, code = before ++ insn :: after ∧ slot = start + totalOf slots before ∧
      lowerAt assignment labels (slot, insn) = .ok (some machine) := by
  induction code generalizing start lowered with
  | nil =>
      cases found
      cases placed
  | cons head rest ih =>
      obtain ⟨result, later, first, others, rfl⟩ := cons_of_mapM found
      have further (placed : (slot, machine) ∈
          placeFrom MachineInsn.slots (start + head.slots) (later.filterMap id)) :
          ∃ before insn after, head :: rest = before ++ insn :: after ∧
            slot = start + totalOf slots before ∧
              lowerAt assignment labels (slot, insn) = .ok (some machine) := by
        obtain ⟨before, insn, after, rfl, place, lowers⟩ := ih others placed
        exact ⟨head :: before, insn, after, rfl, by rw [place, totalOf, Nat.add_assoc], lowers⟩
      have size := slots_of_lowerAt first
      cases result with
      | none =>
          have none : head.slots = 0 := size.symm
          rw [none] at further
          exact further placed
      | some machine' =>
          have same : machine'.slots = head.slots := size
          rcases List.mem_cons.mp placed with here | there
          · cases here
            exact ⟨[], head, rest, rfl, rfl, first⟩
          · exact further (same ▸ there)

end Lowered

theorem exists_of_lower {code : List Insn} {program : List MachineInsn}
    (found : lower code = .ok program) :
    ∃ assignment lowered, assignRegisters code = .ok assignment ∧
      (placeFrom slots 0 code).mapM
        (lowerAt assignment (labelSlots (placeFrom slots 0 code))) = .ok lowered ∧
      program = lowered.filterMap id := by
  obtain ⟨assignment, assigned, found⟩ := ok_of_bind found
  obtain ⟨lowered, mapped, found⟩ := ok_of_bind found
  cases found
  exact ⟨assignment, lowered, assigned, mapped, rfl⟩

end TraceProbe.Insn
