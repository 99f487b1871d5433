import TraceProbe.Proofs.Lowering.Preservation
import TraceProbe.Proofs.Verification.SafeRuns

/-!
# The bytes of a lowered program

A lowered program that passes the checks is found again in its bytes, so
running the bytes is running the program.
-/

namespace TraceProbe

namespace Insn

theorem seen_of_lower {code : List Insn} {program : List MachineInsn}
    (found : lower code = .ok program) {insn : MachineInsn} (member : insn ∈ program) :
    insn.seen = insn := by
  obtain ⟨assignment, lowered, -, mapped, rfl⟩ := exists_of_lower found
  obtain ⟨result, inside, rfl⟩ := List.mem_filterMap.mp member
  obtain ⟨⟨slot, symbolic⟩, -, lowers⟩ := exists_of_mem_mapM mapped inside
  cases symbolic with
  | label name => cases lowers
  | plain code dst src off imm =>
      obtain ⟨_, _, -, -, same⟩ := lowerAt_plain lowers
      cases same
      exact MachineInsn.seen_eq_self fun upper => by cases upper
  | wide dst value =>
      obtain ⟨_, -, same⟩ := lowerAt_wide lowers
      cases same
      exact MachineInsn.seen_eq_self fun _ => rfl
  | mapRef dst map =>
      obtain ⟨_, -, same⟩ := lowerAt_mapRef lowers
      cases same
      exact MachineInsn.seen_eq_self fun _ => rfl
  | jump code dst src imm target =>
      obtain ⟨_, _, _, -, -, -, same⟩ := lowerAt_jump lowers
      cases same
      exact MachineInsn.seen_eq_self fun upper => by cases upper

end Insn

open Program in
/-- What is fetched from a checked program is fetched from its bytes. -/
theorem Bytecode.fetch_of_checked {maxStack slot : Nat} {code : List Insn}
    {program : List MachineInsn} {insn : MachineInsn} (checked : Checked maxStack program)
    (lowered : Insn.lower code = .ok program) (found : Program.fetch program slot = some insn) :
    fetch (encodeProgram program) slot = some insn := by
  have placed := Program.fetch_eq_some_iff.mp found
  obtain ⟨before, after, split, -⟩ := mem_placeFrom_iff.mp placed
  have member : insn ∈ program := split ▸ List.mem_append_right before List.mem_cons_self
  rw [fetch_encodeProgram placed (readable_of_checked checked member),
    Insn.seen_of_lower lowered member]

end TraceProbe
