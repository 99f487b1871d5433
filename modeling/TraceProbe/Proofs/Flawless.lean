import TraceProbe.Proofs.Actionable
import TraceProbe.Stream.Moves

/-!
# Computations without defects

A defect is a state that an earlier stage should have excluded.  A result is
flawless if it is a value or a diagnostic, and a step is clean at a state if it
ends with such a result.  A sequence is clean if every step is, at the states
that it is reached in.
-/

namespace TraceProbe

/-- A value or a diagnostic. -/
def Flawless {α : Type} (result : Except Fault α) : Prop :=
  ∀ cause, result ≠ .error (.defect cause)

/-- The step ends with a value or a diagnostic. -/
def Clean {σ α : Type} (step : ExceptT Fault (StateM σ) α) (start : σ) : Prop :=
  Flawless (outcome step start).1

section Results

variable {α β : Type}

theorem flawless_ok (value : α) : Flawless (.ok value) := by
  intro _ same
  cases same

theorem flawless_diagnostic (cause : Diagnostic) :
    Flawless (.error (.diagnostic cause) : Except Fault α) := by
  intro _ same
  cases same

theorem flawless_lift (given : Except Diagnostic α) : Flawless (liftM given : Except Fault α) := by
  cases given with
  | error cause => exact flawless_diagnostic cause
  | ok value => exact flawless_ok value

theorem flawless_iff {result : Except Fault α} :
    Flawless result ↔ Faults (fun fault => ∀ cause, fault ≠ .defect cause) result := by
  constructor
  · rintro flawless _ same cause rfl
    exact flawless cause same
  · intro faults cause same
    exact faults _ same cause rfl

theorem Faults.flawless {result : Except Fault α} (faults : Faults Fault.Actionable result) :
    Flawless result := by
  intro cause same
  obtain ⟨_, diagnostic, -⟩ := faults _ same
  cases diagnostic

theorem Faults.actionable {result : Except Fault α} (faults : Faults Fault.Tolerable result)
    (flawless : Flawless result) : Faults Fault.Actionable result := by
  intro fault same
  cases fault with
  | diagnostic cause => exact ⟨cause, rfl, faults _ same cause rfl⟩
  | defect cause => exact absurd same (flawless cause)

theorem Flawless.passed_on {fault : Fault} (flawless : Flawless (.error fault : Except Fault α)) :
    Flawless (.error fault : Except Fault β) :=
  flawless_iff.mpr (flawless_iff.mp flawless).passed_on

theorem Flawless.bind {step : Except Fault α} {next : α → Except Fault β} (flawless : Flawless step)
    (each : ∀ value, step = .ok value → Flawless (next value)) : Flawless (step >>= next) := by
  apply flawless_iff.mpr
  apply (flawless_iff.mp flawless).bind
  intro value same
  exact flawless_iff.mp (each value same)

end Results

namespace Node

theorem flawless_knownType (node : Node) : Flawless node.knownType := by
  unfold knownType
  split
  · exact flawless_ok _
  · exact flawless_diagnostic _

theorem flawless_memberName (node : Node) : Flawless node.memberName := by
  unfold memberName
  split
  · exact flawless_ok _
  · exact flawless_diagnostic _

theorem flawless_argument {node : Node} {index : Nat} (there : index < node.args.length) :
    Flawless (node.argument index) := by
  unfold argument
  rw [List.getElem?_eq_getElem there]
  exact flawless_ok _

end Node

section Steps

variable {σ α β : Type} {start : σ}

theorem clean_pure (value : α) (start : σ) : Clean (pure value) start :=
  flawless_ok value

theorem clean_throw (cause : Diagnostic) (start : σ) :
    Clean (throw (.diagnostic cause) : ExceptT Fault (StateM σ) α) start :=
  flawless_diagnostic cause

theorem clean_liftExcept {given : Except Fault α} (flawless : Flawless given) (start : σ) :
    Clean (liftM given : ExceptT Fault (StateM σ) α) start :=
  flawless

theorem Clean.bind {step : ExceptT Fault (StateM σ) α} {next : α → ExceptT Fault (StateM σ) β}
    (clean : Clean step start)
    (each : ∀ value middle, Yields step start value middle → Clean (next value) middle) :
    Clean (step >>= next) start := by
  unfold Clean at clean ⊢
  rw [outcome_bind]
  rcases found : outcome step start with ⟨result, middle⟩
  rw [found] at clean
  cases result with
  | error fault => exact clean.passed_on
  | ok value => exact each value middle found

theorem Clean.then {step : ExceptT Fault (StateM σ) α} {next : α → ExceptT Fault (StateM σ) β}
    (clean : ∀ start, Clean step start) (each : ∀ value start, Clean (next value) start) :
    Clean (step >>= next) start :=
  (clean start).bind fun value middle _ => each value middle

end Steps

namespace Emit

variable {stream : Stream}

theorem clean_code (insns : List Insn) (stream : Stream) : Clean (code insns) stream :=
  flawless_ok ()

theorem clean_insn (added : Insn) (stream : Stream) : Clean (insn added) stream :=
  flawless_ok ()

theorem clean_reach {stop : Int} (inside : stop < 0x80000000) (stream : Stream) :
    Clean (reach stop) stream := by
  unfold reach
  rw [if_pos inside]
  exact clean_pure _ _

theorem clean_clear {offset : Int16} {size : Nat} (inside : offset.toInt + size < 0x80000000)
    (stream : Stream) : Clean (clear offset size) stream :=
  .then (clean_reach inside) fun _ => clean_code _

theorem clean_fill {offset : Int16} {bytes : List UInt8}
    (inside : offset.toInt + bytes.length < 0x80000000) (stream : Stream) :
    Clean (fill offset bytes) stream := by
  refine .then (clean_reach inside) ?_
  intro _
  rw [if_pos (Block.sliced_cut _ _ _)]
  exact clean_code _

theorem clean_freshLabel (stream : Stream) : Clean freshLabel stream :=
  flawless_ok _

theorem clean_freshReg (stream : Stream) : Clean freshReg stream :=
  flawless_ok _

theorem clean_bindLabel (label : Label) (stream : Stream) : Clean (Emit.bind label) stream := by
  unfold Clean
  simp only [Emit.bind, outcome_bind, outcome_get]
  split
  · exact flawless_ok _
  · exact flawless_diagnostic _
  · exact flawless_diagnostic _

theorem clean_accessWidth (size : Nat) (otherwise : String) (stream : Stream) :
    Clean (accessWidth size otherwise) stream := by
  unfold accessWidth
  split
  · exact clean_pure _ _
  · exact clean_throw _ _

theorem clean_storeReg (dst : Storage) (src : Reg) (stream : Stream) :
    Clean (storeReg dst src) stream := by
  unfold storeReg
  split
  · split
    · exact clean_insn _ _
    · exact clean_pure _ _
  · exact .then (clean_accessWidth _ _) fun _ => clean_insn _
  · exact clean_throw _ _

theorem clean_constant (dst : Storage) (value : UInt64) (stream : Stream) :
    Clean (constant dst value) stream := by
  unfold constant
  split
  · exact clean_insn _ _
  · exact clean_insn _ _
  · exact .then (clean_accessWidth _ _) fun _ => clean_insn _
  · exact .then (clean_insn _) fun _ => clean_storeReg _ _
  · exact clean_throw _ _

theorem clean_loadReg (dst : Reg) (src : Storage) (stream : Stream) :
    Clean (loadReg dst src) stream := by
  unfold loadReg
  split
  · split
    · exact clean_insn _ _
    · exact clean_pure _ _
  · exact .then (clean_accessWidth _ _) fun _ => clean_insn _
  · exact clean_throw _ _

theorem clean_loadWidened (dst : Reg) (src : Storage) (signed : Bool) (stream : Stream) :
    Clean (loadWidened dst src signed) stream := by
  unfold loadWidened
  refine .then (clean_loadReg _ _) ?_
  intro _ _
  split
  · exact clean_code _ _
  · exact clean_pure _ _

theorem clean_copyToSlot (offset : Int16) (src : Storage) (stream : Stream) :
    Clean (copyToSlot offset src) stream := by
  unfold copyToSlot
  split
  · exact .then (clean_accessWidth _ _) fun _ => clean_insn _
  · exact clean_code _ _
  · exact clean_throw _ _

theorem clean_copyTo (dst src : Storage) (stream : Stream) : Clean (copyTo dst src) stream := by
  unfold copyTo
  split
  · exact clean_loadReg _ _ _
  · exact clean_copyToSlot _ _ _
  · exact clean_throw _ _

theorem clean_readFrom (dst : Storage) (src : Reg) (stream : Stream) :
    Clean (readFrom dst src) stream := by
  unfold readFrom
  split
  · exact clean_throw _ _
  · have rest (offset : Int16) (stream : Stream) : Clean (do
        insn (.movImm .r2 (Int32.ofNat dst.size))
        code (Block.address .r1 offset)
        insn (.callOf .probeRead)) stream :=
      .then (clean_insn _) fun _ _ => .then (clean_code _) fun _ => clean_insn _
    split
    · exact .then (clean_insn _) fun _ => rest _
    · exact rest _ _

theorem clean_freshSlot (small : stream.limit ≤ 32767) (size alignment : Nat) :
    Clean (freshSlot size alignment) stream := by
  unfold Clean
  simp only [freshSlot, outcome_bind, outcome_get]
  split
  · exact flawless_diagnostic _
  · rename_i fits
    obtain ⟨offset, known⟩ : ∃ offset,
      slotOffset? (frameEnd stream.used size alignment) = some offset :=
      exists_slotOffset? (by omega)
    simp only [outcome_bind, outcome_set, known]
    exact flawless_ok _

theorem clean_freshPlace (small : stream.limit ≤ 32767) (type : Ty) (request : Request) :
    Clean (freshPlace type request) stream := by
  unfold freshPlace
  split
  · exact clean_pure _ _
  · split
    · exact .then clean_freshReg fun _ => clean_pure _
    · split
      · exact (clean_freshSlot small _ _).bind fun _ _ _ => clean_pure _ _
      · exact clean_pure _ _

theorem clean_storageFor (small : stream.limit ≤ 32767) (storage : Storage) (type : Ty)
    (request : Request) : Clean (storageFor storage type request) stream := by
  unfold storageFor
  split
  · exact clean_pure _ _
  · exact (clean_freshPlace small _ _).bind fun _ _ _ => clean_pure _ _

end Emit

end TraceProbe
