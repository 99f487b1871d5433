import TraceProbe.Proofs.Compilation.Stages
import TraceProbe.Proofs.Emission.Registers
import TraceProbe.Proofs.Machine.Runs

/-!
# Register discipline of compiled probes

The kernel accepts a program only if no register is used that does not hold
something certain.  On every walk through the listing of a compiled probe this
is so, the context stays where the prologue saves it, and the walk ends with the
result zero.
-/

namespace TraceProbe

open Insn

/-- A listing that uses its registers as the kernel asks. -/
structure Disciplined (listing : List Insn) : Prop where
  /-- The context is saved first, and never set again. -/
  saves : ∃ rest, listing = .move .context .r1 :: rest ∧ ∀ insn ∈ rest, insn.writes? ≠ some .context
  /-- The registers of the scan are left to it. -/
  avoids : ∀ insn ∈ listing, insn.AvoidsAllocatable
  /-- Walks use what is certain, and end with the epilogue. -/
  walks : ∀ visited last, Walk .running listing visited last →
    last = .left ∧ discipline.Passes Reg.given visited ∧ ∃ earlier, visited = earlier ++ epilogue
  context : ∀ {World : Type} (env : Environment World) (machine : Machine World)
      (before after : List Insn),
    listing = before ++ after → before ≠ [] →
      (Symbolic.run env before ⟨.running, machine⟩).machine.regs .context = machine.regs .r1
  returns : ∀ {World : Type} (env : Environment World) (machine : Machine World),
    ∃ final, Symbolic.run env listing ⟨.running, machine⟩ = ⟨.left, final⟩ ∧ final.regs .r0 = 0

variable {first last : Nat} {moves : List Move}

theorem fills_prologue : Fills Reg.given prologue Reg.saved := by
  refine fills_of_straight rfl (by simp [prologue, Reg.given]) ?_
  rintro reg (rfl | rfl) <;> simp [prologue, Reg.given]

/-- The registers of the scan are neither scratch registers nor fixed ones. -/
theorem Allocation.le_of_mem {number : UInt8} (member : number ∈ allocatable) :
    ¬ number < 5 ∧ number ≠ 9 ∧ number ≠ 10 := by
  rcases eq_of_mem_allocatable member with rfl | rfl | rfl <;> decide

theorem not_sets_context {reg : Reg} (set : reg.Scratch ∨ reg.Among first last) :
    reg ≠ .context := by
  rintro rfl
  rcases set with ⟨number, same, small⟩ | ⟨number, same, -⟩
  · cases same
    exact absurd small (by decide)
  · cases same

theorem Walk.of_epilogue {visited : List Insn} {last : Flow}
    (walk : Walk .running epilogue visited last) :
    visited = epilogue ∧ last = .left := by
  have stays : (movImm .r0 0).exits = [.running] := rfl
  have leaves : leave.exits = [.left] := rfl
  cases walk with
  | pass stands _ => exact absurd rfl stands
  | visit possible rest =>
      rw [stays, List.mem_singleton] at possible
      subst possible
      cases rest with
      | pass stands _ => exact absurd rfl stands
      | visit possible rest =>
          rw [leaves, List.mem_singleton] at possible
          subst possible
          cases rest
          exact ⟨rfl, rfl⟩

namespace Woven

theorem avoids (woven : Woven first last moves) {insn : Insn}
    (member : insn ∈ moves.flatMap Move.code) :
    insn.AvoidsAllocatable := by
  intro number taken named
  obtain ⟨large, notContext, notFrame⟩ := Allocation.le_of_mem taken
  rcases woven.regs member named with ⟨small, same, below⟩ | ⟨other, same, -⟩ | same | same
  · cases same
    exact large below
  · cases same
  · exact notFrame (Reg.machine.inj same)
  · exact notContext (Reg.machine.inj same)

theorem keeps_context (woven : Woven first last moves) {insn : Insn}
    (member : insn ∈ moves.flatMap Move.code ++ epilogue) : insn.writes? ≠ some .context := by
  intro written
  rcases List.mem_append.mp member with inside | last
  · exact not_sets_context (woven.writes? inside written) rfl
  · rcases List.mem_pair.mp last with rfl | rfl <;> exact absurd written (by decide)

theorem disciplined (woven : Woven first last moves) :
    Disciplined (prologue ++ moves.flatMap Move.code ++ epilogue) := by
  have body : Fills Reg.given (prologue ++ moves.flatMap Move.code) Reg.saved :=
    fills_prologue.append (woven.fills standing_saved)
  refine ⟨⟨_, rfl, ?_⟩, ?_, ?_, ?_, ?_⟩
  · intro insn
    exact woven.keeps_context
  · intro insn member
    rcases List.mem_append.mp member with earlier | last
    · rcases List.mem_append.mp earlier with first | inside
      · obtain rfl := List.mem_singleton.mp first
        exact avoidsAllocatable_of_fixed rfl
      · exact woven.avoids inside
    · rcases List.mem_pair.mp last with rfl | rfl <;> exact avoidsAllocatable_of_fixed rfl
  · intro visited last walk
    obtain ⟨_, earlier, later, start, finish, rfl⟩ := walk.split
    obtain ⟨rfl, passes, known⟩ := body Reg.given (fun _ => id) _ _ start
    obtain ⟨rfl, rfl⟩ := finish.of_epilogue
    refine ⟨rfl, Watch.passes_append.mpr ⟨passes, ?_⟩, earlier, rfl⟩
    simp [epilogue]
  · intro World env machine before after same some
    cases before with
    | nil => exact absurd rfl some
    | cons insn before =>
        obtain ⟨rfl, rest⟩ := List.cons.inj same
        have rest : moves.flatMap Move.code ++ epilogue = before ++ after := rest
        rw [Symbolic.run_move, Symbolic.regs_run env Reg.lasting_context]
        · rfl
        · intro insn member
          exact woven.keeps_context (rest ▸ List.mem_append_left _ member)
  · intro World env machine
    obtain ⟨final, runs⟩ := Symbolic.run_of_leads env body (fun _ => id) machine
    refine ⟨final.set .r0 0, ?_, rfl⟩
    rw [Symbolic.run_append, runs]
    rfl

end Woven

/-- Compiled probes use their registers as the kernel asks. -/
theorem compile_disciplined {options : Options} {types : Registry} {probe : Probe}
    {compiled : CompiledProbe} (fresh : ∀ statement ∈ probe.statements, statement.Fresh)
    (found : (compile options types probe).1 = .ok compiled) : Disciplined compiled.listing := by
  obtain ⟨prepared, trees, scope, prepares, typed, completed⟩ := compile_ok found
  obtain ⟨stream, emitted, -, -, -, same, -⟩ := compileTyped_ok completed
  have emittable :=
    Node.emittable_of_inferTypes Registry.gives_anything trivial fresh prepares typed
  obtain ⟨stored, middle, moves, rfl, composed⟩ := Node.composed_of_emitStatements emittable emitted
  have code : (middle.append epilogue).code = prologue ++ moves.flatMap Move.code ++ epilogue := by
    rw [Stream.code_append, composed.moved.extended.code, Stream.code_append]
    rfl
  rw [same, code]
  exact composed.woven.disciplined

open Node in
/-- `m[1] = strcmp(str(p), "ab")` and `n[1] = m[1]`, for a context variable `p`. -/
def comparingProbe : Probe where
  name := "comparing"
  statements :=
    [apply "=" [apply "[]" [ident "m" {}, num 1 false {}] {},
        apply "strcmp" [apply "str" [ident "p" {}] {}, str "ab" {}] {}] {},
      apply "=" [apply "[]" [ident "n" {}, num 1 false {}] {},
        apply "[]" [ident "m" {}, num 1 false {}] {}] {}]
  symbols := (Symbols.declareContext {} "p" .u64 0).2

theorem fresh_comparingProbe : ∀ statement ∈ comparingProbe.statements, statement.Fresh := by
  simp [comparingProbe, Node.fresh_apply_iff, Node.fresh_ident_iff, Node.fresh_str_iff,
    Node.fresh_num_iff]

theorem compiles_comparingProbe :
    ∃ compiled, (compile {} .new comparingProbe).1 = .ok compiled := by
  have compiles : (compile {} .new comparingProbe).1.toOption.isSome = true := by decide +kernel
  cases found : (compile {} .new comparingProbe).1 with
  | error fault =>
      rw [found] at compiles
      cases compiles
  | ok compiled => exact ⟨compiled, rfl⟩

/-- The comparison leaves its loop early, and the lookup may find nothing. -/
theorem comparingProbe_disciplined :
    ∃ compiled, (compile {} .new comparingProbe).1 = .ok compiled ∧
      Disciplined compiled.listing := by
  obtain ⟨compiled, found⟩ := compiles_comparingProbe
  exact ⟨compiled, found, compile_disciplined fresh_comparingProbe found⟩

end TraceProbe
