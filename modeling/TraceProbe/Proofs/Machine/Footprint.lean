import TraceProbe.Proofs.Machine.Frame
import TraceProbe.Proofs.Machine.Runs

/-!
# What runs change in a frame

Every event names the bytes of memory that it may change.  Where all of them lie
in a region of the frame, a run leaves the rest of the frame as it is, if helpers
do no more than they are asked to.
-/

namespace TraceProbe

open Symbolic

/-- Whether a helper reads memory into the frame. -/
def Helper.fills : Helper → Bool
  | probeRead | probeReadStr => true
  | mapLookupElem | mapUpdateElem | mapDeleteElem => false

namespace Event

/-- The bytes that an event may change, by their first address and their number:
those that are stored, and those that a helper reads memory into. -/
def target? : Event → Option (UInt64 × Nat)
  | load _ _ => none
  | store width address _ => some (address, width.bytes)
  | call helper arguments =>
      if (Helper.ofId? helper).any Helper.fills then
        match arguments with
        | destination :: size :: _ => some (destination, size.toNat)
        | _ => none
      else none

/-- An event changes bytes of a frame only at positions of a region. -/
def Within (base : UInt64) (region : Int → Prop) (event : Event) : Prop :=
  ∀ address size, event.target? = some (address, size) →
    ∃ start : Int, address = base + UInt64.ofInt start ∧
      ∀ position, start ≤ position → position < start + size → region position

end Event

/-- Helpers change no bytes of a frame but those that they are asked to fill. -/
def Environment.Spares {World : Type} (env : Environment World) (base : UInt64) : Prop :=
  ∀ (helper : Int32) (arguments : List UInt64) (memory : Memory) (world : World) (position : Int),
    -0x8000 ≤ position → position < 0 →
      (∀ address size, (Event.call helper arguments).target? = some (address, size) →
        ∀ index < size, base + UInt64.ofInt position ≠ address + UInt64.ofNat index) →
      (env.call helper arguments memory world).memory.byte (base + UInt64.ofInt position) =
        memory.byte (base + UInt64.ofInt position)

variable {World : Type} {env : Environment World} {machine : Machine World} {base : UInt64}
  {region : Int → Prop} {insn : Insn} {code visited : List Insn}

/-- The events that an instruction shows. -/
def Machine.shows (machine : Machine World) : Insn → List Event
  | .plain code dst src off imm =>
      match Opcode.role code with
      | .load => [.load (Width.ofCode code) (machine.address src off)]
      | .storeImm =>
          [.store (Width.ofCode code) (machine.address dst off) (Opcode.immediate imm)]
      | .storeReg => [.store (Width.ofCode code) (machine.address dst off) (machine.regs src)]
      | .call => [.call imm machine.arguments]
      | _ => []
  | _ => []

theorem trace_carryOut :
    (carryOut env machine insn).machine.trace = machine.trace ++ machine.shows insn := by
  unfold carryOut
  cases insn with
  | plain code dst src off imm =>
      cases role : Opcode.role code <;>
        simp [Insn.meaningful, role, Machine.shows, Machine.perform, Machine.set, Machine.load,
          Machine.store, Machine.record, Machine.call]
  | jump code dst src imm target =>
      split
      · simp only [Machine.shows, List.append_nil]
        split <;> rfl
      · simp [Machine.shows]
  | wide dst value | mapRef dst map => simp [Insn.meaningful, Machine.shows, Machine.set]
  | label name => simp [Insn.meaningful, Machine.shows]

/-- A byte that an event may change lies in the region. -/
theorem Event.Within.ne_of_outside {event : Event} (within : event.Within base region)
    (low : ∀ position, region position → -0x8000 ≤ position ∧ position < 0) {position : Int}
    (near : -0x8000 ≤ position ∧ position < 0) (outside : ¬ region position) {address : UInt64}
    {size : Nat} (found : event.target? = some (address, size)) {index : Nat}
    (less : index < size) :
    base + UInt64.ofInt position ≠ address + UInt64.ofNat index := by
  obtain ⟨start, rfl, inside⟩ := within address size found
  have member := inside (start + index) (by omega) (by omega)
  have bounds := low _ member
  rw [Memory.address_add]
  intro same
  obtain rfl := eq_of_addresses ⟨by omega, by omega⟩ same
  exact outside member

/-- An instruction leaves bytes alone that its events do not change. -/
theorem byte_carryOut (spares : env.Spares base)
    (low : ∀ position, region position → -0x8000 ≤ position ∧ position < 0)
    (within : ∀ event ∈ machine.shows insn, event.Within base region) {position : Int}
    (near : -0x8000 ≤ position ∧ position < 0) (outside : ¬ region position) :
    (carryOut env machine insn).machine.memory.byte (base + UInt64.ofInt position) =
      machine.memory.byte (base + UInt64.ofInt position) := by
  have stored {width : Width} {address value : UInt64}
      (within : (Event.store width address value).Within base region) :
      (machine.store width address value).memory.byte (base + UInt64.ofInt position) =
        machine.memory.byte (base + UInt64.ofInt position) := by
    have length : (littleEndian width.bytes value.toNat).length = width.bytes :=
      length_littleEndian _ _
    rw [Machine.memory_store, Memory.byte_write_of_ne]
    · rw [length]
      cases width <;> decide
    · intro index less
      rw [length] at less
      exact within.ne_of_outside low near outside rfl less
  unfold carryOut
  split
  · cases insn with
    | plain code dst src off imm =>
        simp only
        split
        · rfl
        · unfold Machine.perform
          simp only [Machine.shows] at within
          cases role : Opcode.role code with
          | storeImm | storeReg =>
              rw [role] at within
              exact stored (within _ List.mem_cons_self)
          | call =>
              rw [role] at within
              exact spares _ _ _ _ _ near.1 near.2 fun address size found index less =>
                (within _ List.mem_cons_self).ne_of_outside low near outside found less
          | arithmetic | load | wide | jump | leave | unknown => rfl
    | wide dst value | mapRef dst map | label name => rfl
    | jump code dst src imm target =>
        simp only
        split <;> rfl
  · rfl

namespace Symbolic

/-- Asks that instructions change only positions of a region. -/
def writing (env : Environment World) (base : UInt64) (region : Int → Prop) :
    Watch (Machine World) :=
  carrying env fun machine insn => ∀ event ∈ machine.shows insn, event.Within base region

theorem trace_of_passes (passes : (writing env base region).Passes machine visited) :
    ∃ events, ((writing env base region).after machine visited).trace = machine.trace ++ events ∧
      ∀ event ∈ events, event.Within base region := by
  induction visited generalizing machine with
  | nil => exact ⟨[], (List.append_nil _).symm, fun _ member => by cases member⟩
  | cons insn visited ih =>
      obtain ⟨events, same, within⟩ := ih passes.2
      refine ⟨machine.shows insn ++ events, ?_, ?_⟩
      · rw [Watch.after_cons, same, ← List.append_assoc, ← trace_carryOut]
        rfl
      · intro event member
        exact (List.mem_append.mp member).elim (passes.1 event) (within event)

theorem byte_of_passes (spares : env.Spares base)
    (low : ∀ position, region position → -0x8000 ≤ position ∧ position < 0)
    (passes : (writing env base region).Passes machine visited) {position : Int}
    (near : -0x8000 ≤ position ∧ position < 0) (outside : ¬ region position) :
    ((writing env base region).after machine visited).memory.byte (base + UInt64.ofInt position) =
      machine.memory.byte (base + UInt64.ofInt position) := by
  induction visited generalizing machine with
  | nil => rfl
  | cons insn visited ih =>
      rw [Watch.after_cons, ih passes.2]
      exact byte_carryOut spares low passes.1 near outside

theorem after_of_straight {good : Machine World → Insn → Prop}
    (straight : code.all Insn.straight = true) :
    (carrying env good).after machine code = (run env code ⟨.running, machine⟩).machine := by
  obtain ⟨visited, walk, same⟩ := exists_carrying env good code ⟨.running, machine⟩
  obtain ⟨rfl, -⟩ := walk.of_straight straight
  exact same.symm

/-- Code that changes only positions of a region, as long as the frame stays where
it is. -/
def Confined (region : Int → Prop) (code : List Insn) : Prop :=
  ∀ (World : Type) (env : Environment World) (base : UInt64),
    (writing env base region).Keeps (fun machine => machine.regs .frame = base) code

variable {early late : List Insn}

theorem Confined.trace_run (confined : Confined region (early ++ late)) (env : Environment World)
    (machine : Machine World) :
    ∃ events, (run env early ⟨.running, machine⟩).machine.trace = machine.trace ++ events ∧
      ∀ event ∈ events, event.Within (machine.regs .frame) region := by
  obtain ⟨visited, walk, same⟩ := exists_carrying env (fun machine' insn =>
    ∀ event ∈ machine'.shows insn, event.Within (machine.regs .frame) region)
        early ⟨.running, machine⟩
  rw [same]
  exact trace_of_passes ((confined World env _).passes_before rfl walk)

/-- What a run has left alone in the middle of such code. -/
theorem Confined.byte_run (confined : Confined region (early ++ late)) (env : Environment World)
    (machine : Machine World) (spares : env.Spares (machine.regs .frame))
    (low : ∀ position, region position → -0x8000 ≤ position ∧ position < 0) {position : Int}
    (near : -0x8000 ≤ position ∧ position < 0) (outside : ¬ region position) :
    (run env early ⟨.running, machine⟩).machine.memory.byte
        (machine.regs .frame + UInt64.ofInt position) =
      machine.memory.byte (machine.regs .frame + UInt64.ofInt position) := by
  obtain ⟨visited, walk, same⟩ := exists_carrying env (fun machine' insn =>
    ∀ event ∈ machine'.shows insn, event.Within (machine.regs .frame) region)
        early ⟨.running, machine⟩
  rw [same]
  exact byte_of_passes spares low ((confined World env _).passes_before rfl walk) near outside

end Symbolic

end TraceProbe
