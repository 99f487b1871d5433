import TraceProbe.Bytecode.Encoding
import TraceProbe.Bytecode.Registers
import TraceProbe.Bytecode.Slots
import TraceProbe.Insn.Text

/-!
# Lowering

Virtual registers become machine registers, and labels become distances in
slots.  Jumps only go forward, and a distance has to fit in sixteen bits with a
sign.
-/

namespace TraceProbe

/-- The source field by which a wide load names a map. -/
def mapReference : UInt8 := 1

namespace Insn

/-- The label that an instruction binds, with its slot. -/
def binding? : Nat × Insn → Option (Label × Nat)
  | (slot, label name) => some (name, slot)
  | _ => none

/-- The slots of all labels, the last binding first. -/
def labelSlots (placed : List (Nat × Insn)) : List (Label × Nat) :=
  (placed.filterMap binding?).reverse

/-- The machine register of an operand. -/
def machineReg (assignment : Assignment) : Reg → Except Diagnostic UInt8
  | .machine number => .ok number
  | .virtual number =>
      match assignment.lookup number with
      | some register => .ok register
      | none => .error (.internal s!"v{number} has no register")

/-- The distance of a jump at a slot to a label. -/
def jumpDistance (labels : List (Label × Nat)) (slot : Nat) (target : Label) :
    Except Diagnostic Int16 :=
  match labels.lookup target with
  | none => .error (.internal s!"jump to unbound label {target.text}")
  | some stop =>
      if stop ≤ slot then .error (.internal s!"backward jump to {target.text} at slot {slot}")
      else
        let distance := stop - slot - 1
        if 0x8000 ≤ distance then .error (.internal s!"jump offset too large: {distance}")
        else .ok (Int16.ofNat distance)

/-- The machine instruction of a symbolic one; a label has none. -/
def lowerAt (assignment : Assignment) (labels : List (Label × Nat)) :
    Nat × Insn → Except Diagnostic (Option MachineInsn)
  | (_, label _) => return none
  | (_, plain code dst src off imm) => do
      let dst ← machineReg assignment dst
      let src ← machineReg assignment src
      return some ⟨code, dst, src, off, imm, none⟩
  | (_, wide dst value) => do
      let dst ← machineReg assignment dst
      return some (.wide dst 0 value)
  | (_, mapRef dst map) => do
      let dst ← machineReg assignment dst
      return some (.wide dst mapReference (UInt64.ofNat map))
  | (slot, jump code dst src imm target) => do
      let distance ← jumpDistance labels slot target
      let dst ← machineReg assignment dst
      let src ← machineReg assignment src
      return some ⟨code, dst, src, distance, imm, none⟩

/-- Lowers the instructions of a stream. -/
def lower (insns : List Insn) : Except Diagnostic (List MachineInsn) := do
  let assignment ← assignRegisters insns
  let placed := placeFrom slots 0 insns
  let lowered ← placed.mapM (lowerAt assignment (labelSlots placed))
  return lowered.filterMap id

end Insn

end TraceProbe
