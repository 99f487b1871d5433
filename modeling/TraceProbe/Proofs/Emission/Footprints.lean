import TraceProbe.Proofs.Emission.Composition
import TraceProbe.Proofs.Emission.Forms

/-!
# What pieces change in the frame

Stores name their place, and a helper that fills a slot is given its address and
its size right before.  So a piece changes its own storage only.
-/

namespace TraceProbe

open Insn Symbolic

variable {region : Int → Prop} {grant : Grant} {insn : Insn} {code : List Insn} {World : Type}
  {env : Environment World} {machine : Machine World} {base : UInt64}

theorem within_of_none {event : Event} (none : event.target? = none) :
    event.Within base region := by
  intro address size found
  rw [none] at found
  cases found

theorem within_of_slot {event : Event} {offset : Int16} {size : Nat}
    (frame : machine.regs .frame = base)
    (target : event.target? = some (machine.address .frame offset, size))
    (inside : ∀ position, Slot offset size position → region position) :
    event.Within base region := by
  intro address size' found
  rw [target] at found
  cases found
  exact ⟨offset.toInt, by rw [← frame]; rfl, fun position low high => inside position ⟨low, high⟩⟩

theorem Insn.Form.shows (form : Form grant insn) (frame : machine.regs .frame = base)
    (writable : ∀ position, grant.writes position → region position) :
    ∀ event ∈ machine.shows insn, event.Within base region := by
  have one {event other : Event} (within : event.Within base region) (member : other ∈ [event]) :
      other.Within base region := by rwa [List.mem_singleton.mp member]
  intro event member
  cases form with
  | arithmetic imm role _ _ =>
      simp only [Machine.shows, role] at member
      cases member
  | load _ _ | context _ _ _ =>
      simp only [Machine.shows, Insn.load, role_load] at member
      exact one (within_of_none rfl) member
  | @store width src off use inside =>
      simp only [Machine.shows, Insn.store, role_store, ofCode_store] at member
      exact one (within_of_slot frame rfl fun position inSlot =>
        writable _ (inside _ inSlot)) member
  | storeImm imm inside =>
      simp only [Machine.shows, Insn.storeImm, role_storeImm, ofCode_storeImm] at member
      exact one (within_of_slot frame rfl fun position inSlot =>
        writable _ (inside _ inSlot)) member
  | @call helper quiet =>
      cases helper with
      | probeRead | probeReadStr => cases quiet
      | mapLookupElem | mapUpdateElem | mapDeleteElem => exact one (within_of_none rfl) member
  | wide _ _ | mapRef _ _ | jump _ _ _ _ | goto _ | label _ => cases member

theorem passes_of_silent (silent : ∀ {World : Type} (machine : Machine World), ∀ insn ∈ code,
    machine.shows insn = []) : (writing env base region).Passes machine code := by
  induction code generalizing machine with
  | nil => trivial
  | cons insn code ih =>
      refine ⟨?_, ih fun machine other member =>
        silent machine other (List.mem_cons_of_mem _ member)⟩
      intro event member
      rw [silent machine insn List.mem_cons_self] at member
      cases member

/-- A call behind what gives the helper the address and the size of a slot. -/
theorem Insn.Asks.split {offset : Int16} {size : Nat} (asks : Asks offset size code)
    (small : size < 2 ^ 31) : ∃ setup helper, code = setup ++ [callOf helper] ∧
      helper.fills = true ∧ setup.all straight = true ∧ (∀ name, .label name ∉ setup) ∧
      (∀ {World : Type} (machine : Machine World), ∀ insn ∈ setup, machine.shows insn = []) ∧
      ∀ {World : Type} (env : Environment World) (machine : Machine World),
        ∃ ready, run env setup ⟨.running, machine⟩ = ⟨.running, ready⟩ ∧
          ready.regs .frame = machine.regs .frame ∧
          ready.regs .r1 = machine.address .frame offset ∧ (ready.regs .r2).toNat = size := by
  have count : (Opcode.immediate (Int32.ofNat size)).toNat = size := by
    rw [immediate_ofNat small, UInt64.toNat_ofNat']
    exact Nat.mod_eq_of_lt (by omega)
  cases asks with
  | read =>
      refine ⟨movImm .r2 (Int32.ofNat size) :: Block.address .r1 offset, .probeRead, rfl, rfl, rfl,
        by simp [Block.address, movImm, move, alu64Imm, alu64Reg], ?_, fun env machine =>
          ⟨(machine.set .r2 (Opcode.immediate (Int32.ofNat size))).set .r1
              (machine.address .frame offset),
            ?_, rfl, rfl, count⟩⟩
      · simp [Block.address]
        intros
        exact ⟨rfl, rfl, rfl⟩
      · rw [run_movImm, ← List.append_nil (Block.address _ _), Block.run_address]
        rfl
  | readText =>
      refine ⟨Block.address .r1 offset ++ [movImm .r2 (Int32.ofNat size)], .probeReadStr, ?_,
        rfl, rfl, by simp [Block.address, movImm, move, alu64Imm, alu64Reg], ?_, fun env machine =>
          ⟨(machine.set .r1 (machine.address .frame offset)).set .r2
              (Opcode.immediate (Int32.ofNat size)),
            ?_, rfl, rfl, count⟩⟩
      · simp
      · simp [Block.address]
        intros
        exact ⟨rfl, rfl, rfl⟩
      · rw [Block.run_address, run_movImm]
        rfl

theorem Insn.Asks.keeps {offset : Int16} {size : Nat} (asks : Asks offset size code)
    (small : size < 2 ^ 31) (inside : ∀ position, Slot offset size position → region position) :
    Confined region code := by
  intro World env base
  obtain ⟨setup, helper, rfl, fills, straight, free, silent, runs⟩ := asks.split small
  refine .of_straight ?_ ?_ ?_
  · simp [straight, straight_callOf]
  · simpa [callOf] using free
  · intro machine frame
    obtain ⟨ready, reached, frame', address, count⟩ := runs env machine
    have after : (writing env base region).after machine setup = ready := by
      rw [writing, after_of_straight straight, reached]
    have shown : ∀ event ∈ ready.shows (callOf helper), event.Within base region := by
      intro event member
      obtain rfl : event = .call helper.id ready.arguments := by
        cases helper <;> exact List.mem_singleton.mp member
      refine within_of_slot frame ?_ inside
      simp only [Event.target?, Helper.ofId?_id, Option.any_some, fills, if_true,
        Machine.arguments_eq, address, count]
    have kept : (carryOut env ready (callOf helper)).machine.regs .frame = base := by
      rw [regs_carryOut env Reg.lasting_frame (by cases helper <;> exact nofun) ready,
        frame', frame]
    refine ⟨Watch.passes_append.mpr ⟨passes_of_silent silent, ?_, trivial⟩, ?_⟩
    · rw [after]
      exact shown
    · rw [Watch.after_append, after]
      exact kept

theorem Insn.Formed.confined (formed : Formed grant code)
    (fixed : ¬ grant.sets .frame) (writable : ∀ position, grant.writes position → region position)
    (low : ∀ position, region position → -0x8000 ≤ position ∧ position < 0) :
    Confined region code := by
  intro World env base
  induction formed with
  | nil => exact Watch.Keeps.of_each fun _ member => by cases member
  | @cons insn code form _ ih =>
      rw [← List.singleton_append]
      refine .append (.of_each ?_) ih
      intro other member machine frame
      obtain rfl := List.mem_singleton.mp member
      refine ⟨form.shows frame writable, ?_⟩
      exact (regs_carryOut env Reg.lasting_frame (fun set => fixed (form.writes? set))
        machine).trans frame
  | @asks offset size code rest asked inside _ ih =>
      have inside (position : Int) (member : Slot offset size position) : region position :=
        writable _ (inside _ member)
      have small : size < 2 ^ 31 := by
        rcases Nat.eq_zero_or_pos size with rfl | some
        · decide
        · have least := offset.le_toInt
          have last := low _ (inside (offset.toInt + size - 1) ⟨by omega, by omega⟩)
          omega
      exact .append (asked.keeps small inside World env base) ih

theorem Piece.confined {dst : Option Storage} {srcs : List Storage} (piece : Piece dst srcs code)
    (free : ∀ own, dst = some own → own.place ≠ .register .frame)
    (filled : ∀ own, dst = some own → ∀ position, own.Covers position → region position)
    (low : ∀ position, region position → -0x8000 ≤ position ∧ position < 0) :
    Confined region code := by
  have formed := piece.formed fun _ _ => (trivial : (fun _ => True) _)
  refine formed.confined ?_ ?_ low
  · rintro (⟨number, same, small⟩ | ⟨own, same, placed⟩)
    · cases same
      exact absurd small (by decide)
    · exact free own same placed
  · intro position writes
    obtain ⟨own, same, covers⟩ := writes fun own same position covers =>
      (low _ (filled own same position covers)).2
    exact filled own same position covers

/-- Pieces change the storages that they fill. -/
theorem confined_moves {moves : List Move}
    (pieces : ∀ move ∈ moves, Piece move.dst move.srcs move.code)
    (free : ∀ move ∈ moves, ¬ move.Fills .frame)
    (filled : ∀ move ∈ moves, ∀ dst, move.dst = some dst → ∀ position, dst.Covers position →
      region position)
    (low : ∀ position, region position → -0x8000 ≤ position ∧ position < 0) :
    Confined region (moves.flatMap Move.code) := by
  induction moves with
  | nil => exact fun _ env base => .of_each fun _ member => by cases member
  | cons move moves ih =>
      intro World env base
      have piece := (pieces move List.mem_cons_self).confined
        (fun own same placed => free move List.mem_cons_self ⟨own, same, placed⟩)
        (filled move List.mem_cons_self) low
      have later {other : Move} (member : other ∈ moves) : other ∈ move :: moves :=
        List.mem_cons_of_mem _ member
      have rest := ih (fun other member => pieces other (later member))
        (fun other member => free other (later member))
        (fun other member => filled other (later member))
      exact .append (piece World env base) (rest World env base)

end TraceProbe
