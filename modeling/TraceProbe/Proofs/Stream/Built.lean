import TraceProbe.Proofs.Lowering.Layout
import TraceProbe.Proofs.Stream.Steps

/-!
# Built streams

A stream that starts empty and grows by steps of its own binds every label at
most once.
-/

namespace TraceProbe

namespace Stream

open Insn

/-- The code of a stream, from front to back. -/
def code (stream : Stream) : List Insn :=
  stream.insns.toList

@[simp] theorem code_new (limit : Nat) : (new limit).code = [] :=
  rfl

@[simp] theorem code_append (stream : Stream) (insns : List Insn) :
    (stream.append insns).code = stream.code ++ insns := by
  simp [append, code]

/-- The stream that a step leaves behind, whether or not it ends with a
fault. -/
def after {α : Type} (stream : Stream) (step : Emit α) : Stream :=
  (outcome step stream).2

/-- Streams that grew from an empty one by the primitive steps.  Only binding
adds a label. -/
inductive Built : Stream → Prop
  | new (limit : Nat) : Built (.new limit)
  | code {stream : Stream} (insns : List Insn) :
      Built stream → boundLabels insns = [] → Built (stream.after (Emit.code insns))
  | freshLabel {stream : Stream} : Built stream → Built (stream.after Emit.freshLabel)
  | bind {stream : Stream} (label : Label) : Built stream → Built (stream.after (Emit.bind label))
  | freshReg {stream : Stream} : Built stream → Built (stream.after Emit.freshReg)
  | freshSlot {stream : Stream} (size alignment : Nat) :
      Built stream → Built (stream.after (Emit.freshSlot size alignment))

/-- Bound labels are different and known to be bound. -/
structure LabelsOnce (stream : Stream) : Prop where
  distinct : (boundLabels stream.code).Nodup
  known : ∀ label ∈ boundLabels stream.code, stream.labels[label.index]? = some true

theorem LabelsOnce.bind {stream : Stream} (once : stream.LabelsOnce) (label : Label) :
    (stream.after (Emit.bind label)).LabelsOnce := by
  by_cases free : stream.labels[label.index]? = some false
  · have inside : label.index < stream.labels.size := by
      rcases Nat.lt_or_ge label.index stream.labels.size with inside | outside
      · exact inside
      · rw [Array.getElem?_eq_none outside] at free
        cases free
    have other : label ∉ boundLabels stream.code := by
      intro member
      have taken := once.known label member
      rw [free] at taken
      cases taken
    have added : boundLabels (Emit.bound stream label).code =
        boundLabels stream.code ++ [label] := by
      simp only [code, Emit.bound, Array.toList_push, boundLabels_append]
      rfl
    rw [after, Emit.outcome_bind_of_free free]
    constructor
    · rw [added]
      refine List.nodup_append.mpr ⟨once.distinct, by simp, ?_⟩
      intro earlier member last same equal
      rw [List.mem_singleton.mp same] at equal
      exact other (equal ▸ member)
    · intro name member
      rw [added] at member
      simp only [Emit.bound, Array.getElem?_setIfInBounds]
      split
      · rfl
      · rename_i different
        rcases List.mem_append.mp member with earlier | last
        · exact once.known name earlier
        · exact absurd (congrArg Label.index (List.mem_singleton.mp last).symm) different
  · obtain ⟨fault, result⟩ := Emit.outcome_bind_of_not_free free
    rw [after, result]
    exact once

theorem Built.labelsOnce {stream : Stream} (built : stream.Built) : stream.LabelsOnce := by
  induction built with
  | new limit => exact ⟨List.nodup_nil, fun label member => by cases member⟩
  | @code stream insns built noLabels ih =>
      have same : boundLabels (stream.after (Emit.code insns)).code = boundLabels stream.code := by
        rw [after, Emit.outcome_code, code_append, boundLabels_append, noLabels, List.append_nil]
      exact ⟨same ▸ ih.distinct, fun label member => ih.known label (same ▸ member)⟩
  | freshLabel built ih =>
      refine ⟨ih.distinct, ?_⟩
      intro label member
      have taken := ih.known label member
      rw [after, Emit.outcome_freshLabel]
      simp only [Array.getElem?_push]
      split
      · rename_i last
        rw [Array.getElem?_eq_none (Nat.le_of_eq last.symm)] at taken
        cases taken
      · exact taken
  | bind label built ih => exact ih.bind label
  | freshReg built ih =>
      rw [after, Emit.outcome_freshReg]
      exact ⟨ih.distinct, ih.known⟩
  | @freshSlot stream size alignment built ih =>
      obtain ⟨result, used, same⟩ := Emit.outcome_freshSlot size alignment stream
      rw [after, same]
      exact ⟨ih.distinct, ih.known⟩

end Stream

end TraceProbe
