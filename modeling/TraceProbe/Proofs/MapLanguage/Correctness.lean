import TraceProbe.Proofs.Compilation.Stages
import TraceProbe.Proofs.Lowering.Bytes
import TraceProbe.Proofs.MapLanguage.Statements

/-!
# Compiled map statements

A compiled probe of the map language leaves the maps as its statements say, on
every machine on which a probe may start.
-/

namespace TraceProbe

open Symbolic Kernel

/-- A machine on which a probe may start: frame and context variables belong to
the program, and lie apart. -/
structure Kernel.Boots {World : Type} (kernel : Kernel World) (limit : Nat) (symbols : Symbols)
    (machine : Machine World) : Prop where
  frame : ∀ address, machine.InFrame limit address → kernel.owned address
  context : ∀ {name type offset}, symbols.context? name = some (type, offset) →
    ∀ index < type.size,
      kernel.owned (machine.address .r1 offset + UInt64.ofNat index) ∧
        ¬ machine.InFrame limit (machine.address .r1 offset + UInt64.ofNat index)

/-- The contents of the context, by offset and size. -/
def Machine.contextBytes {World : Type} (machine : Machine World) (offset : Int16) (size : Nat) :
    List UInt8 :=
  machine.memory.read (machine.address .r1 offset) size

namespace MapCommand

section Listing

variable {World : Type} {kernel : Kernel World} {symbols : Symbols}
  {context : Int16 → Nat → List UInt8} {stream finish : Stream}

theorem exists_carries (context : Int16 → Nat → List UInt8)
    (created : ∀ {name : String} {shape : MapShape}, symbols.map? name = some shape →
      kernel.sizes shape.id = some (shape.key.size, shape.value.size))
    {command : MapCommand} (declared : command.declared symbols = true)
    (small : stream.limit ≤ 32767) (fits : stream.used ≤ stream.limit) {tree : Node}
    (found : Node.Emits symbols (command.typed symbols) {} stream tree finish) :
    ∃ code, stream.Grows finish code ∧ finish.used ≤ finish.limit ∧
      Carries kernel symbols context stream.limit (exec symbols context · command) code := by
  cases command with
  | store map key value loc targetLoc mapLoc =>
      exact exists_store created declared small rfl found
  | remove map key loc targetLoc mapLoc => exact exists_remove created declared small fits found

/-- The code of statements. -/
theorem exists_carries_all (context : Int16 → Nat → List UInt8)
    (created : ∀ {name : String} {shape : MapShape}, symbols.map? name = some shape →
      kernel.sizes shape.id = some (shape.key.size, shape.value.size))
    {commands : List MapCommand} (declared : ∀ command ∈ commands, command.declared symbols = true)
    (small : stream.limit ≤ 32767) (fits : stream.used ≤ stream.limit) {trees : List Node}
    (found : Node.EmitsAll symbols (commands.map (typed symbols)) (commands.map fun _ => {}) stream
      trees finish) :
    ∃ code, stream.Grows finish code ∧ finish.used ≤ finish.limit ∧
      Carries kernel symbols context stream.limit (execAll symbols context commands) code := by
  induction commands generalizing stream trees with
  | nil =>
      obtain ⟨rfl, rfl⟩ := Node.emitsAll_nil_iff.mp found
      exact ⟨[], .refl _, fits, fun machine ready => ⟨machine, .nil machine, ready, rfl⟩⟩
  | cons command commands ih =>
      obtain ⟨first, middle, others, head, tail, rfl⟩ := Node.emitsAll_cons_iff.mp found
      obtain ⟨code, grows, middleFits, carries⟩ := exists_carries context created
        (declared _ List.mem_cons_self) small fits head
      have limit := grows.limit
      obtain ⟨more, moreGrows, finishFits, others⟩ := ih
        (fun command member => declared _ (List.mem_cons_of_mem _ member))
        (by omega) middleFits tail
      refine ⟨code ++ more, grows.trans moreGrows, finishFits, ?_⟩
      intro machine ready
      obtain ⟨between, runs, betweenReady, contents⟩ := carries machine ready
      obtain ⟨after, moreRuns, afterReady, moreContents⟩ :=
        others between (limit.symm ▸ betweenReady)
      refine ⟨after, runs.append moreRuns, limit ▸ afterReady, ?_⟩
      rw [moreContents, contents]
      rfl

end Listing

end MapCommand

/-- Every declared map is among those that a loader creates. -/
theorem MapSpec.exists_of_map? {entries : Nat} {symbols : Symbols} {maps : List MapSpec}
    (found : ofSymbols entries symbols = .ok maps) {name : String} {shape : MapShape}
    (known : symbols.map? name = some shape) :
    ∃ spec ∈ maps, spec.name = name ∧ spec.number = shape.number ∧ spec.keySize = shape.key.size ∧
      spec.valueSize = shape.value.size := by
  obtain ⟨symbol, stored, typed, kind⟩ := Symbols.get?_of_map? known
  have named : symbol.name = name := Symbols.name_of_get? stored
  have member : symbol ∈ symbols.maps := by
    refine List.mem_filter.mpr ⟨List.mem_of_find?_eq_some stored, ?_⟩
    rw [kind]
    rfl
  obtain ⟨spec, inside, made⟩ := exists_result_of_mapM found member
  refine ⟨spec, inside, ?_⟩
  unfold ofSymbol at made
  rw [kind, typed, MapShape.type] at made
  cases made
  exact ⟨named, rfl, rfl, rfl⟩

/-- A probe may start: once the context is saved, the machine is ready. -/
theorem Kernel.Boots.ready {World : Type} {kernel : Kernel World} {limit : Nat} {symbols : Symbols}
    {machine : Machine World} (boots : kernel.Boots limit symbols machine) :
    kernel.Ready limit symbols machine.contextBytes (machine.set .context (machine.regs .r1)) :=
  ⟨boots.frame, boots.context, fun _ => rfl⟩

/-- The listing of emitted statements changes the maps as the statements say. -/
theorem MapCommand.run_listing {World : Type} {options : Options} {symbols : Symbols}
    {commands : List MapCommand} {kernel : Kernel World} {stream : Stream} {machine : Machine World}
    (declared : ∀ command ∈ commands, command.declared symbols = true)
    (small : options.maxStack ≤ 32767)
    (created : ∀ {name : String} {shape : MapShape}, symbols.map? name = some shape →
      kernel.sizes shape.id = some (shape.key.size, shape.value.size))
    (emitted : emitStatements options symbols (commands.map (typed symbols)) = .ok stream)
    (boots : kernel.Boots options.maxStack symbols machine) :
    (Stream.new options.maxStack).Grows stream stream.code ∧
      ∃ after, run kernel.toEnvironment stream.code ⟨.running, machine⟩ = ⟨.left, after⟩ ∧
        kernel.contents after.world =
          execAll symbols machine.contextBytes commands (kernel.contents machine.world) := by
  obtain ⟨trees, middle, found, rfl⟩ := emitStatements_ok emitted
  rw [List.map_map] at found
  have opened : (Stream.new options.maxStack).Grows
      ((Stream.new options.maxStack).append prologue) prologue := Stream.grows_append prologue rfl
  obtain ⟨code, grows, -, carries⟩ := exists_carries_all machine.contextBytes created
    declared small (Nat.zero_le _) found
  have closed : middle.Grows (middle.append epilogue) epilogue :=
    Stream.grows_append epilogue rfl
  have whole := (opened.trans grows).trans closed
  have same : (middle.append epilogue).code = prologue ++ code ++ epilogue := whole.code
  obtain ⟨after, runs, -, contents⟩ := carries _ boots.ready
  refine ⟨same ▸ whole, after.set .r0 (Opcode.immediate 0), ?_, contents⟩
  rw [same, List.append_assoc, prologue, List.cons_append, run_move, List.nil_append, run_append,
    runs]
  rfl

/-- Compiler correctness for map statements: a probe of them that compiles
leaves, on every machine on which it may start, every map with the contents
that the statements give it. -/
theorem compile_correct {World : Type} {options : Options} {types : Registry} {probe : Probe}
    {commands : List MapCommand} {compiled : CompiledProbe} {kernel : Kernel World}
    {machine : Machine World} (statements : probe.statements = commands.map MapCommand.toNode)
    (declared : ∀ command ∈ commands, command.declared probe.symbols = true)
    (small : options.maxStack ≤ 32767) (found : (compile options types probe).1 = .ok compiled)
    (created : ∀ spec ∈ compiled.maps,
      kernel.sizes (UInt64.ofNat spec.number) = some (spec.keySize, spec.valueSize))
    (boots : kernel.Boots options.maxStack probe.symbols machine) :
    ∃ count,
      let execution := Execution.steps kernel.toEnvironment (Bytecode.fetch compiled.bytecode) count
        (.start machine)
      execution.control = .left ∧
        kernel.contents execution.machine.world =
          MapCommand.execAll probe.symbols machine.contextBytes commands
            (kernel.contents machine.world) := by
  obtain ⟨stream, emitted, lowered, checked, specs, -⟩ :=
    compileTyped_ok (MapCommand.compiled_of_compile declared statements found)
  have sized {name : String} {shape : MapShape} (known : probe.symbols.map? name = some shape) :
      kernel.sizes shape.id = some (shape.key.size, shape.value.size) := by
    obtain ⟨spec, member, -, number, keySize, valueSize⟩ := MapSpec.exists_of_map? specs known
    rw [MapShape.id, ← number, ← keySize, ← valueSize]
    exact created spec member
  obtain ⟨grows, after, runs, contents⟩ :=
    MapCommand.run_listing declared small sized emitted boots
  have avoids : ∀ insn ∈ stream.code, insn.AvoidsAllocatable := fun insn member =>
    Insn.avoidsAllocatable_of_fixed (List.all_eq_true.mp grows.fixed insn member)
  obtain ⟨count, ends, agree⟩ := run_agrees avoids (Insn.writtenBeforeRead_of_fixed grows.fixed)
    (grows.built (.new _)).labelsOnce.distinct lowered kernel.toEnvironment machine
  rw [runs] at ends agree
  have left : (Execution.steps kernel.toEnvironment (Program.fetch compiled.program) count
      (.start machine)).control = .left := ends
  have same := Execution.steps_of_extends kernel.toEnvironment (Program.fetch compiled.program)
    (fun slot insn found => Bytecode.fetch_of_checked checked lowered found)
    (show _ ≠ Control.stuck by rw [left]; decide)
  refine ⟨count, ?_⟩
  rw [CompiledProbe.bytecode, same]
  exact ⟨left, (congrArg kernel.contents agree.world).trans contents⟩

end TraceProbe
