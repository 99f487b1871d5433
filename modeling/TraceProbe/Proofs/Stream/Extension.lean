import TraceProbe.Proofs.Stream.Built

/-!
# Extended streams

What the steps of emission do to a stream: code is added at its end, and
labels, registers and slots are handed out.
-/

namespace TraceProbe.Stream

/-- A stream with more code at its end. -/
structure Extends (stream finish : Stream) (added : List Insn) : Prop where
  code : finish.code = stream.code ++ added
  used : stream.used ≤ finish.used
  regs : stream.nextReg ≤ finish.nextReg
  limit : finish.limit = stream.limit
  fits : stream.used ≤ stream.limit → finish.used ≤ finish.limit
  built : stream.Built → finish.Built

variable {stream middle finish : Stream}

theorem Extends.refl (stream : Stream) : stream.Extends stream [] where
  code := (List.append_nil _).symm
  used := Nat.le_refl _
  regs := Nat.le_refl _
  limit := rfl
  fits := id
  built := id

theorem Extends.trans {first second : List Insn} (before : stream.Extends middle first)
    (after : middle.Extends finish second) : stream.Extends finish (first ++ second) := by
  refine ⟨?_, Nat.le_trans before.used after.used, Nat.le_trans before.regs after.regs,
    after.limit.trans before.limit, after.fits ∘ before.fits, after.built ∘ before.built⟩
  rw [after.code, before.code, List.append_assoc]

theorem Built.of_yields {α : Type} {step : Emit α} {value : α}
    (found : Yields step stream value finish) (built : (stream.after step).Built) :
    finish.Built := by
  rwa [after, found] at built

theorem extends_append {insns : List Insn} (noLabels : Insn.boundLabels insns = []) :
    stream.Extends (stream.append insns) insns where
  code := code_append stream insns
  used := Nat.le_refl _
  regs := Nat.le_refl _
  limit := rfl
  fits := id
  built built := .code insns built noLabels

theorem extends_freshLabel :
    stream.Extends { stream with labels := stream.labels.push false } [] where
  code := (List.append_nil _).symm
  used := Nat.le_refl _
  regs := Nat.le_refl _
  limit := rfl
  fits := id
  built built := .freshLabel built

theorem extends_freshReg :
    stream.Extends { stream with nextReg := stream.nextReg + 1 } [] where
  code := (List.append_nil _).symm
  used := Nat.le_refl _
  regs := Nat.le_succ _
  limit := rfl
  fits := id
  built built := .freshReg built

theorem extends_bound {label : Label} (free : stream.labels[label.index]? = some false) :
    stream.Extends (Emit.bound stream label) [.label label] := by
  refine ⟨?_, Nat.le_refl _, Nat.le_refl _, rfl, id, ?_⟩
  · simp only [code, Emit.bound, Array.toList_push]
  · intro built
    exact .of_yields (Emit.outcome_bind_of_free free) (.bind label built)

theorem le_frameEnd (used size alignment : Nat) :
    used + size ≤ Emit.frameEnd used size alignment := by
  have up := le_alignUp (used + max size 1) (min (max alignment 1) 8)
  unfold Emit.frameEnd
  omega

theorem extends_freshSlot {size alignment : Nat} {offset : Int16}
    (found : Yields (Emit.freshSlot size alignment) stream offset finish) :
    stream.Extends finish [] := by
  have built : stream.Built → finish.Built := fun built =>
    .of_yields found (.freshSlot size alignment built)
  obtain ⟨fits, -, rfl⟩ := Emit.yields_freshSlot_iff.mp found
  have room := le_frameEnd stream.used size alignment
  refine ⟨(List.append_nil _).symm, ?_, Nat.le_refl _, rfl, fun _ => fits, built⟩
  show stream.used ≤ Emit.frameEnd stream.used size alignment
  omega

end TraceProbe.Stream
