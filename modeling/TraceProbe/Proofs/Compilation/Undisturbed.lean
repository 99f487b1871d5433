import TraceProbe.Proofs.Compilation.Stages
import TraceProbe.Proofs.Emission.Siblings

/-!
# Emissions that do not disturb each other

What the emission of a typed tree appends sets registers of its own, besides
those that hold no values, and changes the frame only where room was handed out
for it or where its parent asked for it.  So the value of an argument is still
there when its operator reads it, whatever was emitted in between.
-/

namespace TraceProbe

open Symbolic

/-- Code that ends normally, sets registers with numbers of a range and such as
hold no values, and changes only positions of a region. -/
structure Localized (region : Int → Prop) (first last : Nat) (code : List Insn) : Prop where
  sets : ∀ insn ∈ code, ∀ reg, insn.writes? = some reg → reg.Scratch ∨ reg.Among first last
  runs : ∀ (World : Type) (env : Environment World) (machine : Machine World), ∃ final events,
    run env code ⟨.running, machine⟩ = ⟨.running, final⟩ ∧
      final.trace = machine.trace ++ events ∧
      (∀ event ∈ events, event.Within (machine.regs .frame) region) ∧
      ∀ reg : Reg, reg.Lasting → ¬ reg.Among first last → final.regs reg = machine.regs reg

theorem Reg.Lasting.not_scratch {reg : Reg} (lasting : reg.Lasting) : ¬ reg.Scratch := by
  rintro ⟨number, rfl, small⟩
  have few : number = 0 ∨ number ∈ Machine.argumentRegs := by
    have less : number.toNat < 5 := small
    simp only [Machine.argumentRegs, List.mem_cons, ← UInt8.toNat_inj]
    simp
    omega
  rcases few with rfl | argument
  · exact lasting.1 rfl
  · exact lasting.2 (List.mem_map_of_mem argument)

namespace Node

variable {sure : Prop} {literal : List Ty → Ty → Prop} {symbols typing : Symbols} {role : Role}
  {request : Request} {stream finish : Stream} {node tree : Node} {moves : List Move}

/-- The positions that the emission of a tree may change: those handed out
meanwhile, and those of the slot that was chosen. -/
def Room (request : Request) (stream finish : Stream) (own : Storage) (position : Int) : Prop :=
  Handed stream finish position ∨
      ∃ offset, request.slot = some offset ∧ Slot offset own.size position

/-- The values of the arguments of a node survive everything that is appended
behind them: every part keeps its register and its slot, except that the target
of an assignment has no value but the one that is put there. -/
def Spared (symbols : Symbols) (node tree : Node) (finish : Stream) : Prop :=
  ∀ (index : Nat) (arg final : Node), node.args[index]? = some arg →
    tree.args[index]? = some final →
    ∃ asked before after rest, Emits symbols arg asked before final after ∧
      finish.code = after.code ++ rest ∧
      ∀ part, PartOf part final → (node.applies "=" = true → index = 0 → part ≠ final) →
        ∀ (World : Type) (env : Environment World) (machine : Machine World),
          env.Spares (machine.regs .frame) → ∀ early late, rest = early ++ late →
            part.storage.Held machine (run env early ⟨.running, machine⟩).machine

/-- What is appended behind an argument leaves its values alone. -/
theorem spared_of_emits (emittable : Emittable literal typing role node)
    (emits : Emits symbols node request stream tree finish)
    (fit : Fit literal request stream tree.storage) : Spared symbols node tree finish := by
  intro index arg final here there
  cases node with
  | ident _ _ | str _ _ | num _ _ _ => cases here
  | apply operator args info =>
      obtain ⟨plan, site, trees, middle, own, planned, inner, finished, -, -,
        applied, placed, rfl⟩ :=
        applied_of_emits (fun arg _ => composes arg) emittable emits
      obtain ⟨node, asked, before, after, moves, late, argument⟩ :=
        applied.argument (fun index arg found => emittable.arg found) there
      have same := argument.given
      rw [show args[index]? = some arg from here] at same
      cases same
      obtain ⟨sure, composed⟩ := argument.composed
      have code : finish.code = after.code ++ (late ++ finished).flatMap Move.code := by
        rw [applied.around.finishes.extended.code, argument.rest.moved.extended.code,
          List.flatMap_append, List.append_assoc]
      have target (isTarget : Role.of operator trees index = .target) :
          (apply operator args info).applies "=" = true ∧ index = 0 := by
        obtain ⟨rfl, rfl⟩ := Role.of_eq_target_iff.mp isTarget
        exact ⟨rfl, rfl⟩
      refine ⟨asked, before, after, _, argument.emits, code, ?_⟩
      intro part among value World env machine spares early behind split
      refine argument.held applied.around fit there among
        (fun isTarget => value (target isTarget).1 (target isTarget).2) ?_ split env machine spares
      intro isTarget
      have element := (emittable.arg here).applies
        (Role.of_eq_target_iff.mpr (Role.of_eq_target_iff.mp isTarget))
      have same := congrArg operator? composed.same
      simp only [unstored, operator?_mapInfo] at same
      rwa [applies, same]

theorem Composed.localized (composed : Composed sure literal node request stream tree finish moves)
    (fit : Fit literal request stream tree.storage) :
    Localized (Room request stream finish tree.storage) stream.nextReg finish.nextReg
      (moves.flatMap Move.code) := by
  have woven := composed.woven
  have used := composed.moved.extended.used
  have frame := composed.moved.extended.fits fit.fits
  have limit := composed.moved.extended.limit
  have small := fit.small
  have confined : Confined (fun position => (-0x8000 ≤ position ∧ position < 0) ∧
      Room request stream finish tree.storage position) (moves.flatMap Move.code) := by
    refine confined_moves woven.pieces ?_ ?_ fun _ => And.left
    · intro move member fills
      obtain ⟨number, same, -⟩ := woven.fresh move member _ fills
      cases same
    · intro move member dst filled position covers
      rcases composed.writes fit move member dst filled position covers with
          ⟨low, high⟩ | ⟨claims, -⟩
      · exact ⟨⟨by omega, by omega⟩, .inl ⟨low, high⟩⟩
      · obtain ⟨low, high⟩ := fit.inside position claims
        obtain ⟨offset, slot, inside⟩ := composed.slot_of_claims claims
        exact ⟨⟨by omega, high⟩, .inr ⟨offset, slot, inside⟩⟩
  refine ⟨fun insn member reg written => woven.writes? member written, ?_⟩
  intro World env machine
  obtain ⟨final, runs⟩ := run_of_leads env (woven.fills standing_saved)
    (show ∀ reg, Reg.saved reg → (fun _ => True) reg from fun _ _ => trivial) machine
  have whole : moves.flatMap Move.code = moves.flatMap Move.code ++ [] := (List.append_nil _).symm
  rw [whole] at confined
  obtain ⟨events, shown, within⟩ := confined.trace_run env machine
  refine ⟨final, events, runs, ?_, ?_, ?_⟩
  · rw [runs] at shown
    exact shown
  · intro event member address size target
    obtain ⟨start, same, inside⟩ := within event member address size target
    exact ⟨start, same, fun position low high => (inside position low high).2⟩
  · intro reg lasting other
    have unset : ∀ insn ∈ moves.flatMap Move.code, insn.writes? ≠ some reg :=
      fun insn member written =>
      (woven.writes? member written).elim lasting.not_scratch other
    have kept := regs_run env lasting unset ⟨.running, machine⟩
    rw [runs] at kept
    exact kept

/-- An emission of a typed tree with room for what is asked touches nothing else,
and its parts do not disturb each other. -/
theorem emission_undisturbing {options : Options} {statements prepared trees : List Node}
    {scope after : Scope} {count : Nat} {root : Node} (registry : scope.types.Built)
    (fresh : ∀ statement ∈ statements, statement.Fresh)
    (prepares : statements.mapM prepare = .ok prepared)
    (passed : passes options count prepared scope = ⟨trees, after, .ok ()⟩)
    (complete : ∀ tree ∈ trees, tree.Complete) (member : root ∈ trees) (part : PartOf node root)
    (small : stream.limit ≤ 32767) (fits : stream.used ≤ stream.limit)
    (emits : Emits symbols node request stream tree finish)
    (room : ∀ offset, request.slot = some offset →
      ∀ position, Slot offset tree.storage.size position →
      -(stream.used : Int) ≤ position ∧ position < 0) :
    ∃ added, finish.code = stream.code ++ added ∧
      (∀ offset, request.slot = some offset → tree.storage.isAssigned = true →
        tree.storage.place = .slot offset) ∧
      Localized (Room request stream finish tree.storage) stream.nextReg finish.nextReg added ∧
      Spared symbols node tree finish := by
  have emittable :=
    emittable_of_passes Registry.gives_literal registry.honest fresh prepares passed complete
  obtain ⟨role, known⟩ := (emittable root member).part part
  obtain ⟨moves, composed⟩ := composes node role request stream tree finish known emits
  have fit := composed.fit (fun _ _ => id) small fits room
  exact ⟨_, composed.moved.extended.code, composed.placed.obeyed, composed.localized fit,
    spared_of_emits known emits fit⟩

/-- A stream with eight bytes of its frame in use. -/
def opened : Stream :=
  { Stream.new 512 with used := 8 }

/-- The first statement of the probe, once it is typed. -/
def keyed : Node :=
  (passes {} 2 structKey pointerScope).tree.head?.getD default

/-- The emission of the statement with its value in the bytes in use. -/
def keyedEmission : Emitted Node :=
  emit (passes {} 2 structKey pointerScope).scope.symbols keyed (Request.inSlot (-8)) opened

theorem emission_undisturbing_keyed :
    ∃ added, keyedEmission.stream.code = opened.code ++ added ∧
      (∀ offset, (Request.inSlot (-8)).slot = some offset →
        keyedEmission.tree.storage.isAssigned = true →
        keyedEmission.tree.storage.place = .slot offset) ∧
      Localized (Room (Request.inSlot (-8)) opened keyedEmission.stream keyedEmission.tree.storage)
        opened.nextReg keyedEmission.stream.nextReg added ∧
      Spared (passes {} 2 structKey pointerScope).scope.symbols keyed keyedEmission.tree
        keyedEmission.stream := by
  have size : keyedEmission.tree.storage.size = 8 := by decide +kernel
  have emits : Emits (passes {} 2 structKey pointerScope).scope.symbols keyed
      (Request.inSlot (-8)) opened
      keyedEmission.tree keyedEmission.stream := emits_of_succeeds (by decide +kernel)
  refine emission_undisturbing (show pointerScope.types.Built from .new)
    (by simp [structKey, fresh_apply_iff, fresh_ident_iff, fresh_str_iff, fresh_num_iff])
    (show structKey.mapM prepare = .ok structKey from rfl)
    (show passes {} 2 structKey pointerScope = ⟨_, _, .ok ()⟩ from rfl)
    (fun tree member => complete_of_firstUntyped? (firstUntyped?_of_mem (by rfl) member))
    (List.mem_of_getElem?
        (show (passes {} 2 structKey pointerScope).tree[0]? = some keyed from rfl)) .root
    (by decide) (by decide) emits ?_
  intro offset chosen position inside
  cases chosen
  rw [size] at inside
  have start : (-8 : Int16).toInt = -8 := rfl
  have used : opened.used = 8 := rfl
  obtain ⟨low, high⟩ := inside
  exact ⟨by omega, by omega⟩

end Node

end TraceProbe
