import TraceProbe.Proofs.Lowering.Preservation
import TraceProbe.Proofs.Stream.Extension

/-!
# Growing streams

A step that appends code to a stream may also hand out labels and slots.  Code
that names no register which depends on lowering can be run as it is.
-/

namespace TraceProbe

namespace Insn

/-- Whether an instruction names only registers that lowering leaves alone. -/
def fixed (insn : Insn) : Bool :=
  insn.regs.all fun reg =>
    match reg with
    | .machine number => number ∉ Allocation.allocatable
    | .virtual _ => false

/-- Whether an instruction is such a one and no label. -/
def inert (insn : Insn) : Bool :=
  insn.fixed &&
    match insn with
    | label _ => false
    | _ => true

theorem fixed_of_inert {code : List Insn} (inert : code.all Insn.inert = true) :
    code.all Insn.fixed = true := by
  rw [List.all_eq_true] at inert ⊢
  intro insn member
  exact (Bool.and_eq_true_iff.mp (inert insn member)).1

theorem boundLabels_of_inert {code : List Insn} (inert : code.all Insn.inert = true) :
    boundLabels code = [] := by
  rw [List.all_eq_true] at inert
  refine List.filterMap_eq_nil_iff.mpr ?_
  intro insn member
  have noLabel := (Bool.and_eq_true_iff.mp (inert insn member)).2
  cases insn with
  | label name => cases noLabel
  | plain _ _ _ _ _ | wide _ _ | mapRef _ _ | jump _ _ _ _ _ => rfl

theorem avoidsAllocatable_of_fixed {insn : Insn} (fixed : insn.fixed = true) :
    insn.AvoidsAllocatable := by
  intro number taken named
  have free := List.all_eq_true.mp fixed _ named
  exact of_decide_eq_true free taken

theorem not_virtual_of_fixed {insn : Insn} (fixed : insn.fixed = true) (number : Nat) :
    .virtual number ∉ insn.regs := by
  intro named
  cases List.all_eq_true.mp fixed _ named

theorem writtenBeforeRead_of_fixed {code : List Insn} (fixed : code.all Insn.fixed = true) :
    WrittenBeforeRead code := by
  intro before insn after split visited walk number read
  have member : insn ∈ code := split ▸ List.mem_append_right before List.mem_cons_self
  rcases mem_regs_of_mem_reads read with named | ⟨argument, -, same⟩
  · exact absurd named (not_virtual_of_fixed (List.all_eq_true.mp fixed insn member) number)
  · cases same

end Insn

/-- The positions of a slot. -/
def Slot (offset : Int16) (size : Nat) (position : Int) : Prop :=
  offset.toInt ≤ position ∧ position < offset.toInt + size

/-- A slot lies in a frame of so many bytes. -/
structure Inside (limit : Nat) (offset : Int16) (size : Nat) : Prop where
  low : -(limit : Int) ≤ offset.toInt
  high : offset.toInt + size ≤ 0

theorem Inside.mono {limit wider : Nat} {offset : Int16} {size : Nat}
    (inside : Inside limit offset size) (more : limit ≤ wider) : Inside wider offset size := by
  obtain ⟨low, high⟩ := inside
  exact ⟨by omega, high⟩

/-- The positions that were handed out between two streams. -/
def Handed (stream finish : Stream) (position : Int) : Prop :=
  -(finish.used : Int) ≤ position ∧ position < -(stream.used : Int)

theorem Handed.mono {stream stream' finish finish' : Stream} {position : Int}
    (handed : Handed stream finish position) (before : stream'.used ≤ stream.used)
    (after : finish.used ≤ finish'.used) : Handed stream' finish' position := by
  obtain ⟨low, high⟩ := handed
  exact ⟨by omega, by omega⟩

theorem Handed.bounds {stream finish : Stream} {position : Int} {limit : Nat}
    (handed : Handed stream finish position) (fits : finish.used ≤ limit) :
    -(limit : Int) ≤ position ∧ position < 0 := by
  obtain ⟨low, high⟩ := handed
  exact ⟨by omega, by omega⟩

namespace Stream

/-- A stream with more code at its end that can be run as it is. -/
structure Grows (stream finish : Stream) (added : List Insn) : Prop
    extends stream.Extends finish added where
  fixed : added.all Insn.fixed = true

variable {stream middle finish : Stream}

theorem Grows.refl (stream : Stream) : stream.Grows stream [] :=
  ⟨.refl stream, rfl⟩

theorem Grows.trans {first second : List Insn} (before : stream.Grows middle first)
    (after : middle.Grows finish second) : stream.Grows finish (first ++ second) := by
  refine ⟨before.toExtends.trans after.toExtends, ?_⟩
  rw [List.all_append, before.fixed, after.fixed]
  rfl

theorem grows_append (insns : List Insn) (inert : insns.all Insn.inert = true) :
    stream.Grows (stream.append insns) insns := by
  constructor
  · exact extends_append (Insn.boundLabels_of_inert inert)
  · exact Insn.fixed_of_inert inert

theorem grows_freshLabel :
    stream.Grows { stream with labels := stream.labels.push false } [] :=
  ⟨extends_freshLabel, rfl⟩

theorem grows_bound {label : Label} (free : stream.labels[label.index]? = some false) :
    stream.Grows (Emit.bound stream label) [.label label] :=
  ⟨extends_bound free, rfl⟩

/-- A slot that was handed out lies below all others. -/
structure Reserves (stream : Stream) (size : Nat) (offset : Int16) (finish : Stream) : Prop where
  grows : stream.Grows finish []
  offset : offset.toInt = -(finish.used : Int)
  room : stream.used + size ≤ finish.used
  fits : finish.used ≤ finish.limit

theorem Reserves.inside {size : Nat} {offset : Int16}
    (reserves : stream.Reserves size offset finish) :
    Inside finish.used offset size := by
  obtain ⟨-, place, room, -⟩ := reserves
  exact ⟨by omega, by omega⟩

theorem Reserves.handed {size : Nat} {offset : Int16}
    (reserves : stream.Reserves size offset finish)
    {position : Int} (member : Slot offset size position) : Handed stream finish position := by
  obtain ⟨-, place, room, -⟩ := reserves
  obtain ⟨low, high⟩ := member
  exact ⟨by omega, by omega⟩

/-- At some time between two streams a slot was handed out. -/
def HandsOut (stream finish : Stream) (offset : Int16) (size : Nat) : Prop :=
  ∃ alignment before after early late, stream.Extends before early ∧
    Yields (Emit.freshSlot size alignment) before offset after ∧ after.Extends finish late

theorem HandsOut.mono {start last : Stream} {offset : Int16} {size : Nat} {early late : List Insn}
    (hands : stream.HandsOut finish offset size) (before : start.Extends stream early)
    (after : finish.Extends last late) : start.HandsOut last offset size := by
  obtain ⟨alignment, first, second, _, _, earlier, reserved, later⟩ := hands
  exact ⟨alignment, first, second, _, _, before.trans earlier, reserved, later.trans after⟩

theorem handsOut_of_freshSlot {size alignment : Nat} {offset : Int16}
    (found : Yields (Emit.freshSlot size alignment) stream offset finish) :
    stream.HandsOut finish offset size :=
  ⟨alignment, stream, finish, [], [], .refl stream, found, .refl finish⟩

theorem toInt_of_slotOffset? {used : Nat} {offset : Int16} (small : used ≤ 32767)
    (found : Emit.slotOffset? used = some offset) : offset.toInt = -(used : Int) := by
  unfold Emit.slotOffset? at found
  simp only at found
  split at found
  · cases found
  · cases found
    rw [Int16.toInt_neg, Int16.toInt_ofNat_of_lt (by omega)]
    exact Int.bmod_eq_of_le (by omega) (by omega)

theorem reserves_of_freshSlot {size alignment : Nat} {offset : Int16} (small : stream.limit ≤ 32767)
    (found : Yields (Emit.freshSlot size alignment) stream offset finish) :
    stream.Reserves size offset finish := by
  have grows : stream.Grows finish [] := ⟨extends_freshSlot found, rfl⟩
  obtain ⟨fits, known, rfl⟩ := Emit.yields_freshSlot_iff.mp found
  have room := le_frameEnd stream.used size alignment
  exact ⟨grows, toInt_of_slotOffset? (Nat.le_trans fits small) known, room, fits⟩

end Stream

end TraceProbe
