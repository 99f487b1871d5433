import TraceProbe.Proofs.Compilation.RegisterDiscipline
import TraceProbe.Proofs.Emission.Acceptance
import TraceProbe.Proofs.Emission.Landings

/-!
# Lowering and verification of emitted probes

What emission leaves behind can be lowered, unless it needs more registers than
the machine has, and passes verification, unless it is too long.
-/

namespace TraceProbe

open Insn

variable {first last frame : Nat} {moves : List Move} {insn : Insn}

/-- Pieces that fill and read a frame. -/
structure Framed (frame : Nat) (moves : List Move) : Prop where
  fills : ∀ move ∈ moves, ∀ dst, move.dst = some dst → ∀ position, dst.Covers position →
    -(frame : Int) ≤ position ∧ position < 0
  reads : ∀ move ∈ moves, ∀ src ∈ move.srcs, ∀ position, src.Covers position →
    -(frame : Int) ≤ position ∧ position < 0

theorem Reg.Scratch.known {reg : Reg} (scratch : reg.Scratch) : reg.Known ∧ reg ≠ .frame := by
  obtain ⟨number, rfl, small⟩ := scratch
  refine ⟨known_of_fixed (UInt8.le_trans (UInt8.le_of_lt small) (by decide)), ?_⟩
  rintro same
  cases same
  exact absurd small (by decide)

theorem Reg.Among.known {reg : Reg} (among : reg.Among first last) : reg.Known ∧ reg ≠ .frame := by
  obtain ⟨number, rfl, -⟩ := among
  exact ⟨nofun, nofun⟩

/-- Instructions of pieces in a frame are accepted by verification. -/
theorem Woven.accepted (woven : Woven first last moves) (framed : Framed frame moves)
    (member : insn ∈ moves.flatMap Move.code) :
    Form (.accepted frame) insn ∨ ∃ helper, insn = callOf helper := by
  obtain ⟨move, among, inside⟩ := List.mem_flatMap.mp member
  have formed := (woven.pieces move among).formed fun _ _ => (trivial : (fun _ => True) _)
  have settable {reg : Reg} (set : Piece.Sets move.dst reg) : reg.Known ∧ reg ≠ .frame :=
    set.elim Reg.Scratch.known fun fills => Reg.Among.known (woven.fresh move among reg fills)
  refine (formed.form Piece.ample inside).imp_left fun form =>
    form.mono (fun _ => settable) ?_ ?_ ?_ fun _ => id
  · rintro reg (set | rfl | rfl | ⟨src, read, placed⟩)
    · exact (settable set).1
    · exact known_of_fixed (by decide)
    · exact known_of_fixed (by decide)
    · rcases woven.sourced.known among read placed with before | ⟨other, behind, fills⟩
      · exact before.elim
      · exact (Reg.Among.known (woven.fresh other behind reg fills)).1
  · intro position reads
    obtain ⟨src, read, covers⟩ := reads fun src read position covers =>
      (framed.reads move among src read position covers).2
    exact framed.reads move among src read position covers
  · intro position writes
    obtain ⟨own, same, covers⟩ := writes fun own same position covers =>
      (framed.fills move among own same position covers).2
    exact framed.fills move among own same position covers

theorem landing_moves (pieces : ∀ move ∈ moves, Piece move.dst move.srcs move.code)
    (framed : Framed 512 moves) : Landing 0x8000 (moves.flatMap Move.code) := by
  induction moves with
  | nil => exact landing_nil
  | cons move moves ih =>
      obtain ⟨fills, reads⟩ := framed
      have first := (pieces move List.mem_cons_self).landing (fills move List.mem_cons_self)
        (reads move List.mem_cons_self)
      have framed' : Framed 512 moves :=
        ⟨fun other member => fills other (List.mem_cons_of_mem _ member),
          fun other member => reads other (List.mem_cons_of_mem _ member)⟩
      have pieces' : ∀ other ∈ moves, Piece other.dst other.srcs other.code :=
        fun other member => pieces other (List.mem_cons_of_mem _ member)
      exact first.append (ih pieces' framed')

theorem Framed.mono {more : Nat} (framed : Framed frame moves) (enough : frame ≤ more) :
    Framed more moves := by
  constructor
  · intro move member dst filled position covers
    obtain ⟨low, high⟩ := framed.fills move member dst filled position covers
    exact ⟨by omega, high⟩
  · intro move member src among position covers
    obtain ⟨low, high⟩ := framed.reads move member src among position covers
    exact ⟨by omega, high⟩

/-- Pieces of statements, of which no slot is asked, stay in the frame that is
handed out. -/
theorem Node.ComposedAll.framed {literal : List Ty → Ty → Prop} {nodes trees : List Node}
    {stream finish : Stream}
    (composed : ComposedAll literal nodes (nodes.map fun _ => {}) stream trees finish moves)
    (small : stream.limit ≤ 32767) (fits : stream.used ≤ stream.limit)
    (honest : ∀ members type, literal members type → Registry.Literal members type) :
    Framed finish.used moves := by
  have fit : FitAll literal (nodes.map fun _ => {}) stream trees fun _ => False := by
    refine ⟨small, fits, ?_, honest⟩
    intro index tree asked here there position claims
    obtain ⟨node, -, rfl⟩ := List.mem_map.mp (List.mem_of_getElem? there)
    exact absurd rfl claims.1
  refine ⟨?_, composed.reads _ fit⟩
  intro move member dst filled position covers
  rcases composed.writes _ fit move member dst filled position covers with handed | none
  · exact handed.bounds (Nat.le_refl _)
  · exact none.elim

section Listing

/-- Pieces behind the prologue, with the result zero; the exit is left. -/
def body (moves : List Move) : List Insn :=
  prologue ++ moves.flatMap Move.code ++ [movImm .r0 0]

theorem Woven.accepted_body (woven : Woven first last moves) (framed : Framed frame moves)
    (member : insn ∈ body moves) :
    Form (.accepted frame) insn ∨ ∃ helper, insn = callOf helper := by
  have scratch : Reg.r0.Known := known_of_fixed (by decide)
  rcases List.mem_append.mp member with before | last
  · rcases List.mem_append.mp before with saves | inside
    · obtain rfl := List.mem_singleton.mp saves
      exact .inl
        (.arithmetic 0 rfl ⟨known_of_fixed (by decide), by decide⟩ (known_of_fixed (by decide)))
    · exact woven.accepted framed inside
  · obtain rfl := List.mem_singleton.mp last
    exact .inl (.arithmetic 0 rfl ⟨scratch, by decide⟩ scratch)

theorem landing_body (pieces : ∀ move ∈ moves, Piece move.dst move.srcs move.code)
    (framed : Framed 512 moves) : Landing 0x8000 (body moves ++ [leave]) := by
  have saves : Landing 0x8000 prologue := landing_nil.cons rfl
  have returns : Landing 0x8000 [movImm .r0 0] := landing_nil.cons rfl
  exact ((saves.append (landing_moves pieces framed)).append returns).append (landing_nil.cons rfl)

end Listing

/-- Compilation gets as far as emission, and emission ends with a stream. -/
def Probe.Emits (options : Options) (types : Registry) (probe : Probe) (stream : Stream) : Prop :=
  ∃ prepared trees scope, probe.statements.mapM Node.prepare = .ok prepared ∧
    Node.inferTypes options prepared ⟨probe.symbols, types⟩ = ⟨trees, scope, .ok ()⟩ ∧
      emitStatements options scope.symbols trees = .ok stream

theorem Probe.emits_of_compile {options : Options} {types : Registry} {probe : Probe}
    {compiled : CompiledProbe} (found : (compile options types probe).1 = .ok compiled) :
    ∃ stream, probe.Emits options types stream ∧ compiled.listing = stream.code ∧
      compiled.stackSize = stream.used ∧ lower stream.code = .ok compiled.program := by
  obtain ⟨prepared, trees, scope, prepares, typed, completed⟩ := compile_ok found
  obtain ⟨stream, emitted, lowered, -, -, listing, stack⟩ := compileTyped_ok completed
  exact ⟨stream, ⟨prepared, trees, scope, prepares, typed, emitted⟩, listing, stack, lowered⟩

/-- Lowering fails for lack of registers at most, and what comes of it is accepted
unless it is too long. -/
theorem accepted_of_emittable {options : Options} {symbols typing : Symbols} {trees : List Node}
    {stream : Stream} (small : options.maxStack ≤ 512)
    (emittable : ∀ tree ∈ trees, Node.Emittable Registry.Literal typing .value tree)
    (emitted : emitStatements options symbols trees = .ok stream) :
    stream.used ≤ options.maxStack ∧
      ((∃ program, lower stream.code = .ok program) ∨ lower stream.code = .error registerPressure) ∧
      ∀ program, lower stream.code = .ok program →
        (Program.verify { maxStack := options.maxStack } program).statistics.stackDepth ≤
          stream.used ∧
        (Program.slots program ≤ 4096 →
          (Program.verify { maxStack := options.maxStack } program).valid = true) := by
  obtain ⟨stored, middle, moves, rfl, composed⟩ := Node.composed_of_emitStatements emittable emitted
  have extended := composed.moved.extended
  have opened : (Stream.new options.maxStack).Extends _ prologue := Stream.extends_append rfl
  have closed : middle.Extends (middle.append epilogue) epilogue := Stream.extends_append rfl
  have limit : middle.limit = options.maxStack := extended.limit
  have used : middle.used ≤ options.maxStack := limit ▸ extended.fits (Nat.zero_le _)
  have framed :=
    composed.framed (show options.maxStack ≤ 32767 by omega) (Nat.zero_le _) fun _ _ => id
  have code : (middle.append epilogue).code = body moves ++ [leave] := by
    rw [Stream.code_append, extended.code, Stream.code_append]
    simp [body, prologue, epilogue]
  have once := (closed.built (extended.built (opened.built (.new _)))).labelsOnce.distinct
  rw [code] at once ⊢
  have landing := landing_body composed.moved.pieces (framed.mono (by omega))
  refine ⟨used, lower_total landing once, ?_⟩
  intro program lowered
  have checked := checked_of_lower (fun insn => composed.woven.accepted_body framed) lowered
  exact ⟨Program.stackDepth_le checked _, fun few =>
    Program.valid_of_checked (checked.mono used) few rfl⟩

/-- Lowering and verification reject nothing that was emitted, but for lack of
registers and for its length. -/
theorem emitted_accepted {options : Options} {types : Registry} {probe : Probe} {stream : Stream}
    (registry : types.Built) (fresh : ∀ statement ∈ probe.statements, statement.Fresh)
    (small : options.maxStack ≤ 512) (emits : probe.Emits options types stream) :
    stream.used ≤ options.maxStack ∧
      ((∃ program, lower stream.code = .ok program) ∨ lower stream.code = .error registerPressure) ∧
      ∀ program, lower stream.code = .ok program →
        (Program.verify { maxStack := options.maxStack } program).statistics.stackDepth ≤
          stream.used ∧
        (Program.slots program ≤ 4096 →
          (Program.verify { maxStack := options.maxStack } program).valid = true) := by
  obtain ⟨prepared, trees, scope, prepares, typed, emitted⟩ := emits
  exact accepted_of_emittable small
    (Node.emittable_of_inferTypes Registry.gives_literal registry.honest fresh
      prepares typed) emitted

/-- The comparison and the lookup jump. -/
theorem comparingProbe_accepted :
    ∃ stream, comparingProbe.Emits {} .new stream ∧ stream.used ≤ 512 ∧
      ((∃ program, lower stream.code = .ok program) ∨ lower stream.code = .error registerPressure) ∧
      ∀ program, lower stream.code = .ok program →
        (Program.verify {} program).statistics.stackDepth ≤ stream.used ∧
        (Program.slots program ≤ 4096 → (Program.verify {} program).valid = true) := by
  obtain ⟨compiled, found⟩ := compiles_comparingProbe
  obtain ⟨stream, emits, -⟩ := Probe.emits_of_compile found
  have small : ({} : Options).maxStack ≤ 512 := by decide
  exact ⟨stream, emits, emitted_accepted .new fresh_comparingProbe small emits⟩

end TraceProbe
