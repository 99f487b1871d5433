import TraceProbe.Proofs.Emission.Composition
import TraceProbe.Proofs.Emission.Footprints
import TraceProbe.Proofs.Emission.Registers

/-!
# Values of siblings

What an application appends behind one of its arguments fills other registers
and other positions of the frame than those of the argument.
-/

namespace TraceProbe

open Symbolic

/-- A value is as it was on an earlier machine. -/
def Storage.Held {World : Type} (storage : Storage) (before after : Machine World) : Prop :=
  (∀ reg, storage.place = .register reg → after.regs reg = before.regs reg) ∧
    ∀ position, storage.Covers position → after.cell position = before.cell position

/-- Pieces that fill other registers and other positions leave a value alone, also
in the middle of them. -/
theorem held_of_moves {storage : Storage} {moves : List Move} {early late : List Insn}
    (pieces : ∀ move ∈ moves, Piece move.dst move.srcs move.code)
    (virtual : ∀ reg, storage.place = .register reg → ∃ number, reg = .virtual number)
    (registers : ∀ move ∈ moves, ∀ reg, move.Fills reg →
      reg ≠ .frame ∧ storage.place ≠ .register reg)
    (near : ∀ position, storage.Covers position → -0x8000 ≤ position ∧ position < 0)
    (positions : ∀ move ∈ moves, ∀ dst, move.dst = some dst → ∀ position, dst.Covers position →
      (-0x8000 ≤ position ∧ position < 0) ∧ ¬ storage.Covers position)
    (split : moves.flatMap Move.code = early ++ late) {World : Type} (env : Environment World)
    (machine : Machine World) (spares : env.Spares (machine.regs .frame)) :
    storage.Held machine (run env early ⟨.running, machine⟩).machine := by
  have unset {reg : Reg} (lasting : ¬ reg.Scratch) (unfilled : ∀ move ∈ moves, ¬ move.Fills reg) :
      ∀ insn ∈ early, insn.writes? ≠ some reg := by
    intro insn member written
    rcases sets_of_pieces pieces (split ▸ List.mem_append_left _ member) written with
      scratch | ⟨move, among, fills⟩
    · exact lasting scratch
    · exact unfilled move among fills
  have frame : (run env early ⟨.running, machine⟩).machine.regs .frame = machine.regs .frame := by
    refine regs_run env Reg.lasting_frame (unset ?_ ?_) _
    · rintro ⟨number, same, small⟩
      cases same
      exact absurd small (by decide)
    · intro move among fills
      exact (registers move among _ fills).1 rfl
  constructor
  · intro reg placed
    obtain ⟨number, rfl⟩ := virtual reg placed
    refine regs_run env (Reg.lasting_virtual number) (unset ?_ ?_) _
    · rintro ⟨_, same, -⟩
      cases same
    · intro move among fills
      exact (registers move among _ fills).2 placed
  · intro position covers
    have confined :=
      confined_moves pieces (fun move among fills => (registers move among _ fills).1 rfl)
      positions fun _ => And.left
    rw [split] at confined
    rw [Machine.cell, frame]
    exact confined.byte_run env machine spares (fun _ => And.left) (near position covers)
      fun inside => inside.2 covers

namespace Node

variable {symbols typing : Symbols} {literal : List Ty → Ty → Prop} {nodes args trees : List Node}
  {requests : List Request} {stream reserved middle finish : Stream} {index : Nat} {tree : Node}

/-- The emission of one of several trees. -/
theorem EmitsAll.at (emits : EmitsAll symbols nodes requests stream trees finish)
    (lengths : requests.length = nodes.length) (here : trees[index]? = some tree) :
    ∃ node asked before after, nodes[index]? = some node ∧ requests[index]? = some asked ∧
      EmitsAll symbols (nodes.take index) (requests.take index) stream (trees.take index) before ∧
      Emits symbols node asked before tree after ∧
      EmitsAll symbols (nodes.drop (index + 1)) (requests.drop (index + 1)) after
        (trees.drop (index + 1)) finish := by
  induction nodes generalizing requests stream trees index with
  | nil =>
      obtain ⟨rfl, -⟩ := emitsAll_nil_iff.mp emits
      cases here
  | cons node nodes ih =>
      cases requests with
      | nil => cases lengths
      | cons asked requests =>
          obtain ⟨first, between, others, head, tail, rfl⟩ := emitsAll_cons_iff.mp emits
          cases index with
          | zero =>
              cases here
              exact ⟨node, asked, stream, between, rfl, rfl,
                emitsAll_nil_iff.mpr ⟨rfl, rfl⟩, head, tail⟩
          | succ index =>
              obtain ⟨other, asked', before, after, there, there', early, same, late⟩ :=
                ih tail (Nat.succ.inj lengths) here
              exact ⟨other, asked', before, after, there, there',
                emitsAll_cons_iff.mpr ⟨first, between, _, head, early, rfl⟩, same, late⟩

variable {sure : Prop} {operator : String} {request asked : Request} {plan : Plan} {own : Storage}
  {planned inner finished moves late : List Move} {node part : Node} {before after : Stream}
  {position : Int}

/-- One argument of an application, with what is known about its emission and that
of the arguments behind it. -/
structure Argument (symbols : Symbols) (literal : List Ty → Ty → Prop) (args : List Node)
    (plan : Plan) (reserved : Stream) (trees : List Node) (middle : Stream) (index : Nat)
    (node : Node) (asked : Request) (before : Stream) (tree : Node) (after : Stream)
    (moves late : List Move) : Prop where
  given : args[index]? = some node
  requested : plan.args[index]? = some asked
  emits : Emits symbols node asked before tree after
  earlier : ∃ moves, ComposedAll literal (args.take index) (plan.args.take index) reserved
    (trees.take index) before moves
  composed : ∃ sure, Composed sure literal node asked before tree after moves
  rest : ComposedAll literal (args.drop (index + 1)) (plan.args.drop (index + 1)) after
    (trees.drop (index + 1)) middle late

theorem Applied.argument
    (applied : Applied symbols sure literal operator args request plan stream reserved
      trees middle finish own planned inner finished)
    (emittable : ∀ (index : Nat) (arg : Node), args[index]? = some arg →
      Emittable literal typing (Role.of operator args index) arg)
    (here : trees[index]? = some tree) : ∃ node asked before after moves late,
      Argument symbols literal args plan reserved trees middle index node asked
        before tree after moves
        late := by
  obtain ⟨node, asked, before, after, given, requested, first, emits, rest⟩ :=
    applied.emits.at applied.lengths here
  have targets (index : Nat) (asked : Request) (found : plan.args[index]? = some asked)
      (target : Role.of operator args index = .target) : asked.target = true :=
    applied.around.targets index asked found
      (Role.of_eq_target_iff.mpr (Role.of_eq_target_iff.mp target))
  have lengths := applied.lengths
  have taken {α : Type} {items : List α} {other : Nat} {item : α}
      (found : (items.take index)[other]? = some item) : items[other]? = some item := by
    rw [List.getElem?_take] at found
    split at found
    · exact found
    · cases found
  obtain ⟨earlier, started⟩ := composesAll (fun arg _ => composes arg)
    (fun other arg found => emittable other arg (taken found)) (by simp [lengths])
    (fun other asked found => targets other asked (taken found)) first
  obtain ⟨moves, composed⟩ :=
    composes node _ asked before tree after (emittable index node given) emits
  obtain ⟨late, ended⟩ := composesAll (fun arg _ => composes arg)
    (fun other arg found => emittable (index + 1 + other) arg
      (by rwa [List.getElem?_drop] at found))
    (by simp [lengths])
    (fun other asked found => targets (index + 1 + other) asked
        (by rwa [List.getElem?_drop] at found))
    rest
  exact ⟨node, asked, before, after, moves, late, given, requested, emits, ⟨earlier, started⟩,
    ⟨_, composed⟩, ended⟩

section Held

variable
    (argument : Argument symbols literal args plan reserved trees middle index node asked before
    tree after moves late)

include argument

theorem Argument.starts :
    ∃ earlier : List Move, reserved.Extends before (earlier.flatMap Move.code) := by
  obtain ⟨earlier, started⟩ := argument.earlier
  exact ⟨earlier, started.moved.extended⟩

/-- Only targets are asked into a slot that something else is put in later. -/
theorem Argument.covered (fit : Fit literal asked before tree.storage) (among : PartOf part tree)
    (value : Role.of operator trees index = .target → part ≠ tree)
    (element : Role.of operator trees index = .target → tree.applies "[]" = true)
    (covers : part.storage.Covers position) : Handed before after position ∨
      asked.Claims tree.storage position ∧ Role.of operator trees index ≠ .target := by
  obtain ⟨sure, composed⟩ := argument.composed
  by_cases target : Role.of operator trees index = .target
  · cases among with
    | root => exact absurd rfl (value target)
    | inner member inside =>
        refine (composed.inner fit _ member part inside position covers).imp_right ?_
        intro claims
        rw [element target] at claims
        cases claims.2
  · exact (composed.covers fit among covers).imp_right fun claims => ⟨claims, target⟩

variable (around : Around sure literal operator request plan stream reserved trees middle finish own
    planned finished)

include around

/-- Registers that are filled behind an argument have larger numbers. -/
theorem Argument.fresh {move : Move} (member : move ∈ late ++ finished) {reg : Reg}
    (fills : move.Fills reg) :
    ∃ number, reg = .virtual number ∧ after.nextReg ≤ number := by
  rcases List.mem_append.mp member with member | member
  · obtain ⟨number, same, low, -⟩ := argument.rest.fresh move member reg fills
    exact ⟨number, same, low⟩
  · obtain ⟨dst, filled, placed⟩ := fills
    rcases around.writes move member dst filled with ⟨free, -⟩ | ⟨rfl, -⟩
    · exact absurd placed (free reg)
    · obtain ⟨number, same, low, -⟩ := around.register reg placed
      exact ⟨number, same, Nat.le_trans argument.rest.moved.extended.regs low⟩

variable (fit : Fit literal request stream own) (here : trees[index]? = some tree)

include fit here

theorem Argument.roomy : Fit literal asked before tree.storage := by
  obtain ⟨earlier, started⟩ := argument.starts
  have whole := around.plans.extended.trans started
  refine ⟨whole.limit ▸ fit.small, whole.fits fit.fits, ?_, fit.literal⟩
  intro position claims
  obtain ⟨-, low, high⟩ := around.asked fit index tree asked here argument.requested position claims
  have used := started.used
  exact ⟨by omega, high⟩

/-- Later arguments are asked into other positions than this one. -/
theorem Argument.fitAll :
    FitAll literal (plan.args.drop (index + 1)) after (trees.drop (index + 1)) fun position =>
      (-(reserved.used : Int) ≤ position ∧ position < 0) ∧
        (Role.of operator trees index ≠ .target → ¬ asked.Claims tree.storage position) := by
  obtain ⟨earlier, started⟩ := argument.starts
  obtain ⟨sure, composed⟩ := argument.composed
  have before := started.trans composed.moved.extended
  have whole := around.plans.extended.trans before
  refine ⟨whole.limit ▸ fit.small, whole.fits fit.fits, ?_, fit.literal⟩
  intro other tree' asked' there found position claims
  rw [List.getElem?_drop] at there found
  obtain ⟨-, low, high⟩ := around.asked fit _ tree' asked' there found position claims
  have used := before.used
  refine ⟨⟨⟨low, high⟩, ?_⟩, by omega, high⟩
  intro other' claims'
  exact around.separate fit index _ tree tree' asked asked' (by omega) here there argument.requested
    found other' position claims' claims

/-- Behind an argument nothing is put where its value is. -/
theorem Argument.spared
    (covered : Handed before after position ∨
      asked.Claims tree.storage position ∧ Role.of operator trees index ≠ .target)
    {move : Move} (member : move ∈ late ++ finished) {dst : Storage} (filled : move.dst = some dst)
    (covers : dst.Covers position) : False := by
  obtain ⟨earlier, started⟩ := argument.starts
  obtain ⟨sure, composed⟩ := argument.composed
  have inner := composed.moved.extended
  have behind := argument.rest.moved.extended
  have small : middle.limit ≤ 32767 :=
    (((around.plans.extended.trans started).trans inner).trans behind).limit ▸ fit.small
  -- Where the value is: in what the argument was handed out, or where it was asked to be.
  have place : -(after.used : Int) ≤ position ∧ (position < -(before.used : Int) ∨
      -(reserved.used : Int) ≤ position) := by
    rcases covered with ⟨low, high⟩ | ⟨claims, -⟩
    · exact ⟨low, .inl high⟩
    · obtain ⟨-, low, high⟩ :=
        around.asked fit index tree asked here argument.requested position claims
      have used := (started.trans inner).used
      exact ⟨by omega, .inr low⟩
  obtain ⟨above, place⟩ := place
  have usedBefore := started.used
  have usedReserved := around.plans.extended.used
  have usedMiddle := behind.used
  rcases List.mem_append.mp member with member | member
  · rcases argument.rest.writes _ (argument.fitAll around fit here) move member dst filled
        position covers with
      ⟨-, high⟩ | ⟨⟨low, high⟩, apart⟩
    · omega
    · rcases covered with ⟨-, last⟩ | ⟨claims, value⟩
      · omega
      · exact apart value claims
  · rcases around.writes move member dst filled with ⟨-, handed⟩ | ⟨rfl, unclaimed⟩
    · have high := (handed small position covers).2
      omega
    · rcases covered with ⟨-, last⟩ | ⟨claims, value⟩
      · rcases around.covers fit.small position covers with ⟨low, -⟩ | ⟨-, high⟩ | claims
        · omega
        · omega
        · have low := (fit.inside position claims).1
          omega
      · exact value (unclaimed index asked argument.requested claims.1)

theorem Argument.near {move : Move} (member : move ∈ late ++ finished) {dst : Storage}
    (filled : move.dst = some dst) (covers : dst.Covers position) :
    -(finish.used : Int) ≤ position ∧ position < 0 := by
  obtain ⟨earlier, started⟩ := argument.starts
  obtain ⟨sure, composed⟩ := argument.composed
  have whole := ((around.plans.extended.trans started).trans composed.moved.extended).trans
    argument.rest.moved.extended
  have used := whole.used
  have usedFinish := around.finishes.extended.used
  have usedReserved := (((started.trans composed.moved.extended).trans
    argument.rest.moved.extended).trans around.finishes.extended).used
  rcases List.mem_append.mp member with member | member
  · rcases argument.rest.writes _ (argument.fitAll around fit here) move member dst filled
        position covers with
      ⟨low, high⟩ | ⟨⟨low, high⟩, -⟩
    · exact ⟨by omega, by omega⟩
    · exact ⟨by omega, high⟩
  · rcases around.writes move member dst filled with ⟨-, handed⟩ | ⟨rfl, -⟩
    · obtain ⟨low, high⟩ := handed (whole.limit ▸ fit.small) position covers
      exact ⟨low, by omega⟩
    · rcases around.covers fit.small position covers with ⟨low, high⟩ | ⟨low, high⟩ | claims
      · exact ⟨by omega, by omega⟩
      · exact ⟨low, by omega⟩
      · obtain ⟨low, high⟩ := fit.inside position claims
        exact ⟨by omega, high⟩

/-- The code behind an argument, which leaves the values of the argument alone. -/
theorem Argument.held (among : PartOf part tree)
    (value : Role.of operator trees index = .target → part ≠ tree)
    (element : Role.of operator trees index = .target → tree.applies "[]" = true)
    {early behind : List Insn} (split : (late ++ finished).flatMap Move.code = early ++ behind)
    {World : Type} (env : Environment World) (machine : Machine World)
    (spares : env.Spares (machine.regs .frame)) :
    part.storage.Held machine (run env early ⟨.running, machine⟩).machine := by
  obtain ⟨earlier, started⟩ := argument.starts
  obtain ⟨sure', composed⟩ := argument.composed
  have own' := argument.roomy around fit here
  have within := around.plans.extended.trans started
  have limits : finish.used ≤ 0x8000 := by
    have whole := ((within.trans composed.moved.extended).trans argument.rest.moved.extended).trans
      around.finishes.extended
    have limit := whole.limit
    have fits := whole.fits fit.fits
    have small := fit.small
    omega
  have numbered {reg : Reg} (placed : part.storage.place = .register reg) :
      ∃ number, reg = .virtual number ∧ number < after.nextReg := by
    obtain ⟨move, member, fills⟩ := composed.filled part among reg placed
    obtain ⟨number, same, -, high⟩ := composed.fresh move member reg fills
    exact ⟨number, same, high⟩
  refine held_of_moves ?_ ?_ ?_ ?_ ?_ split env machine spares
  · intro move member
    exact (List.mem_append.mp member).elim (argument.rest.moved.pieces move)
      (around.finishes.pieces move)
  · intro reg placed
    obtain ⟨number, same, -⟩ := numbered placed
    exact ⟨number, same⟩
  · intro move member reg fills
    obtain ⟨number, rfl, low⟩ := argument.fresh around member fills
    refine ⟨fun same => (by cases same), ?_⟩
    intro placed
    obtain ⟨other, same, high⟩ := numbered placed
    cases same
    omega
  · intro position covers
    rcases argument.covered own' among value element covers with handed | ⟨claims, -⟩
    · obtain ⟨low, high⟩ := handed
      have used := (argument.rest.moved.extended.trans around.finishes.extended).used
      exact ⟨by omega, by omega⟩
    · obtain ⟨low, high⟩ := own'.inside position claims
      have used := ((composed.moved.extended.trans argument.rest.moved.extended).trans
        around.finishes.extended).used
      exact ⟨by omega, high⟩
  · intro move member dst filled position covers
    obtain ⟨low, high⟩ := argument.near around fit here member filled covers
    refine ⟨⟨by omega, high⟩, ?_⟩
    intro covers'
    exact argument.spared around fit here
      (argument.covered own' among value element covers') member filled
      covers

end Held

end Node

end TraceProbe
