import TraceProbe.Proofs.Emission.Composition
import TraceProbe.Proofs.Emission.DefinedRegisters

/-!
# Registers of pieces in a row

Pieces that read registers only behind the pieces that fill them need nothing
but what stands when they start.  They set the scratch registers and registers
of their own.
-/

namespace TraceProbe

open Insn

/-- Pieces that read registers only behind the pieces that fill them; those
registers have numbers in a range. -/
structure Woven (first last : Nat) (moves : List Move) : Prop where
  pieces : ∀ move ∈ moves, Piece move.dst move.srcs move.code
  sourced : Sourced (fun _ => False) moves
  fresh : ∀ move ∈ moves, ∀ reg, move.Fills reg →
    ∃ number, reg = .virtual number ∧ first ≤ number ∧ number < last

/-- A register that holds a value in a range of numbers. -/
def Reg.Among (first last : Nat) (reg : Reg) : Prop :=
  ∃ number, reg = .virtual number ∧ first ≤ number ∧ number < last

variable {filled : Reg → Prop} {moves : List Move} {first last : Nat} {insn : Insn} {reg : Reg}

theorem Standing.more {more : Reg → Prop} (standing : Standing filled)
    (virtual : ∀ reg, more reg → reg.Among first last) :
    Standing fun reg => filled reg ∨ more reg := by
  refine ⟨.inl standing.frame, .inl standing.context, ?_⟩
  rintro reg (known | known)
  · exact standing.lasting reg known
  · obtain ⟨number, rfl, -⟩ := virtual reg known
    simp

/-- What stands once the context is saved. -/
def Reg.saved (reg : Reg) : Prop :=
  reg = .context ∨ reg = .frame

theorem standing_saved : Standing Reg.saved := by
  refine ⟨.inr rfl, .inl rfl, ?_⟩
  rintro reg (rfl | rfl) <;> decide

theorem fills_moves (standing : Standing filled)
    (pieces : ∀ move ∈ moves, Piece move.dst move.srcs move.code) (sourced : Sourced filled moves)
    (fresh : ∀ move ∈ moves, ∀ reg, move.Fills reg → reg.Among first last) :
    Fills filled (moves.flatMap Move.code) filled := by
  induction moves generalizing filled with
  | nil => exact fills_nil
  | cons move moves ih =>
      have piece := (pieces move List.mem_cons_self).fills standing sourced.1
      have others := ih (standing.more (fresh move List.mem_cons_self))
        (fun other member => pieces other (List.mem_cons_of_mem _ member)) sourced.2
        fun other member => fresh other (List.mem_cons_of_mem _ member)
      exact (piece.append others).weaken (fun _ => id) fun _ => .inl

theorem Sourced.known (sourced : Sourced filled moves) {move : Move} (member : move ∈ moves)
    {src : Storage} (among : src ∈ move.srcs) (placed : src.place = .register reg) :
    filled reg ∨ ∃ other ∈ moves, other.Fills reg := by
  induction moves generalizing filled with
  | nil => cases member
  | cons head moves ih =>
      rcases List.mem_cons.mp member with rfl | later
      · exact .inl (sourced.1 src among reg placed)
      · rcases ih sourced.2 later with (before | here) | ⟨other, behind, fills⟩
        · exact .inl before
        · exact .inr ⟨head, List.mem_cons_self, here⟩
        · exact .inr ⟨other, List.mem_cons_of_mem _ behind, fills⟩

theorem sets_of_pieces (pieces : ∀ move ∈ moves, Piece move.dst move.srcs move.code)
    (member : insn ∈ moves.flatMap Move.code) (written : insn.writes? = some reg) :
    reg.Scratch ∨ ∃ move ∈ moves, move.Fills reg := by
  obtain ⟨move, among, inside⟩ := List.mem_flatMap.mp member
  have formed := (pieces move among).formed fun _ _ => (trivial : (fun _ => True) _)
  exact (formed.writes? Piece.ample inside written).imp_right fun fills => ⟨move, among, fills⟩

namespace Woven

theorem fills (woven : Woven first last moves) (standing : Standing filled) :
    Fills filled (moves.flatMap Move.code) filled := by
  have sourced : Sourced filled moves := woven.sourced.mono fun _ => False.elim
  exact fills_moves standing woven.pieces sourced woven.fresh

/-- No registers are named but those of the values, scratch registers, the frame
pointer and the context. -/
theorem regs (woven : Woven first last moves) (member : insn ∈ moves.flatMap Move.code)
    (named : reg ∈ insn.regs) :
    reg.Scratch ∨ reg.Among first last ∨ reg = .frame ∨ reg = .context := by
  obtain ⟨move, among, inside⟩ := List.mem_flatMap.mp member
  have formed := (woven.pieces move among).formed fun _ _ => (trivial : (fun _ => True) _)
  rcases formed.regs Piece.ample inside named with settable | frame | context | ⟨src, read, placed⟩
  · exact settable.imp_right fun fills => .inl (woven.fresh move among reg fills)
  · exact .inr (.inr (.inl frame))
  · exact .inr (.inr (.inr context))
  · rcases woven.sourced.known among read placed with before | ⟨other, behind, fills⟩
    · exact before.elim
    · exact .inr (.inl (woven.fresh other behind reg fills))

theorem writes? (woven : Woven first last moves) (member : insn ∈ moves.flatMap Move.code)
    (written : insn.writes? = some reg) : reg.Scratch ∨ reg.Among first last := by
  rcases sets_of_pieces woven.pieces member written with scratch | ⟨move, among, fills⟩
  · exact .inl scratch
  · exact .inr (woven.fresh move among reg fills)

end Woven

namespace Node

variable {sure : Prop} {literal : List Ty → Ty → Prop} {node tree : Node} {nodes trees : List Node}
  {request : Request} {requests : List Request} {stream finish : Stream}

theorem Composed.woven (composed : Composed sure literal node request stream tree finish moves) :
    Woven stream.nextReg finish.nextReg moves :=
  ⟨composed.moved.pieces, composed.sourced, composed.fresh⟩

theorem ComposedAll.woven
    (composed : ComposedAll literal nodes requests stream trees finish moves) :
    Woven stream.nextReg finish.nextReg moves :=
  ⟨composed.moved.pieces, composed.sourced, composed.fresh⟩

end Node

end TraceProbe
