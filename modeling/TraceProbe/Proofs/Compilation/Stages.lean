import TraceProbe.Compilation
import TraceProbe.Proofs.Emission.Composition
import TraceProbe.Proofs.Verification.Checks

/-!
# Stages of compilation

What a probe has gone through when compilation succeeds, and what its statements
are like when they are emitted.
-/

namespace TraceProbe

/-- What typed statements have gone through once they are compiled. -/
theorem compileTyped_ok {options : Options} {name : String} {symbols : Symbols}
    {statements : List Node} {compiled : CompiledProbe}
    (found : compileTyped options name symbols statements = .ok compiled) :
    ∃ stream, emitStatements options symbols statements = .ok stream ∧
      Insn.lower stream.code = .ok compiled.program ∧
      Program.Checked options.maxStack compiled.program ∧
      MapSpec.ofSymbols options.mapEntries symbols = .ok compiled.maps ∧
      compiled.listing = stream.code ∧ compiled.stackSize = stream.used := by
  unfold compileTyped at found
  obtain ⟨stream, emitted, found⟩ := ok_of_bind found
  obtain ⟨program, lowered, found⟩ := ok_of_bind found
  obtain ⟨report, checked, found⟩ := ok_of_bind found
  obtain ⟨maps, specs, found⟩ := ok_of_bind found
  cases found
  refine ⟨stream, emitted, ok_of_lift lowered, ?_, ok_of_lift specs, rfl, rfl⟩
  have checked := ok_of_lift checked
  unfold checkProgram at checked
  simp only at checked
  split at checked
  · rename_i valid
    exact Program.checked_of_valid valid
  · cases checked

/-- The stream of statements that were emitted, between prologue and epilogue. -/
theorem emitStatements_ok {options : Options} {symbols : Symbols} {statements : List Node}
    {stream : Stream} (found : emitStatements options symbols statements = .ok stream) :
    ∃ trees middle, Node.EmitsAll symbols statements (statements.map fun _ => {})
      ((Stream.new options.maxStack).append prologue) trees middle ∧
        stream = middle.append epilogue := by
  unfold emitStatements at found
  obtain ⟨result, emitted, found⟩ := ok_of_bind found
  cases found
  rcases whole : Node.emitAll symbols statements (statements.map fun _ => {})
    ((Stream.new options.maxStack).append prologue) with ⟨trees, middle, outcome⟩
  rw [whole] at emitted
  obtain rfl : outcome = .ok result := emitted
  exact ⟨trees, middle, whole, rfl⟩

/-- The statements of a compiled probe were prepared and typed. -/
theorem compile_ok {options : Options} {types : Registry} {probe : Probe} {compiled : CompiledProbe}
    (found : (compile options types probe).1 = .ok compiled) :
    ∃ prepared trees finish, probe.statements.mapM Node.prepare = .ok prepared ∧
      Node.inferTypes options prepared ⟨probe.symbols, types⟩ = ⟨trees, finish, .ok ()⟩ ∧
      compileTyped options probe.name finish.symbols trees = .ok compiled := by
  unfold compile at found
  cases prepared : probe.statements.mapM Node.prepare with
  | error fault =>
      rw [prepared] at found
      cases found
  | ok statements =>
      rw [prepared] at found
      simp only at found
      obtain ⟨_, outcome, compiled⟩ := ok_of_bind found
      refine ⟨statements, _, _, rfl, ?_, compiled⟩
      rw [← outcome]

namespace Node

theorem emittable_of_passes {options : Options} {holds : Registry → Prop}
    {literal : List Ty → Ty → Prop} {statements prepared trees : List Node} {scope finish : Scope}
    {count : Nat} (gives : Registry.Gives holds literal) (registry : holds scope.types)
    (fresh : ∀ statement ∈ statements, statement.Fresh)
    (prepares : statements.mapM prepare = .ok prepared)
    (passed : passes options count prepared scope = ⟨trees, finish, .ok ()⟩)
    (complete : ∀ tree ∈ trees, tree.Complete) :
    ∀ tree ∈ trees, Emittable literal finish.symbols .value tree := by
  have visit := visitAll_of_prepared gives registry fresh prepares passed
  have all := prepare_all_ok prepares fresh
  intro tree member
  obtain ⟨index, place⟩ := List.mem_iff_getElem?.mp member
  obtain ⟨original, there, same⟩ := visit.persists.original place
  obtain ⟨unmarked, shaped⟩ := all original (List.mem_of_getElem? there)
  refine ⟨everywhere_sound (visit.settled index tree place) (complete tree member),
    fun target => (by cases target), shaped.of_bare (bare_of_untyped same), ?_⟩
  exact Unstored.of_untyped (fun part inside => (unmarked part inside).2.1) same

theorem emittable_of_inferTypes {options : Options} {holds : Registry → Prop}
    {literal : List Ty → Ty → Prop} {statements prepared trees : List Node} {scope finish : Scope}
    (gives : Registry.Gives holds literal) (registry : holds scope.types)
    (fresh : ∀ statement ∈ statements, statement.Fresh)
    (prepares : statements.mapM prepare = .ok prepared)
    (typed : inferTypes options prepared scope = ⟨trees, finish, .ok ()⟩) :
    ∀ tree ∈ trees, Emittable literal finish.symbols .value tree := by
  obtain ⟨⟨count, passed⟩, complete⟩ := passes_of_inferTypes typed
  exact emittable_of_passes gives registry fresh prepares passed complete

/-- Statements that are emitted are composed of pieces. -/
theorem composed_of_emitStatements {options : Options} {symbols typing : Symbols}
    {literal : List Ty → Ty → Prop} {trees : List Node} {stream : Stream}
    (emittable : ∀ tree ∈ trees, Emittable literal typing .value tree)
    (emitted : emitStatements options symbols trees = .ok stream) :
    ∃ stored middle moves, stream = middle.append epilogue ∧
      ComposedAll literal trees (trees.map fun _ => {})
        ((Stream.new options.maxStack).append prologue)
        stored middle moves := by
  obtain ⟨stored, middle, found, rfl⟩ := emitStatements_ok emitted
  obtain ⟨moves, composed⟩ := composesAll (fun tree _ => composes tree)
    (fun index tree here => emittable tree (List.mem_of_getElem? here)) (List.length_map _)
    (fun _ _ _ target => by cases target) found
  exact ⟨stored, middle, moves, rfl, composed⟩

end Node

end TraceProbe
