import TraceProbe.Proofs.Compilation.RegisterDiscipline
import TraceProbe.Proofs.Compilation.Stages
import TraceProbe.Proofs.Emission.Limits
import TraceProbe.Proofs.Typing.FixedPoint

/-!
# Compilation under greater limits

The sizes of the frame and the number of passes only decide whether a probe is
accepted.  A probe that is compiled is compiled to the same program under
greater limits.
-/

namespace TraceProbe

/-- The same defaults, and limits that are no less. -/
structure Options.Within (options larger : Options) : Prop where
  strings : larger.stringSize = options.stringSize
  entries : larger.mapEntries = options.mapEntries
  stack : options.maxStack ≤ larger.maxStack
  passes : options.maxPasses ≤ larger.maxPasses

variable {options larger : Options} {scope finish : Scope}

namespace Node

theorem readLength_of_le {node length : Node} {count limit more : Nat} (le : limit ≤ more)
    (found : node.readLength length limit = .ok count) :
    node.readLength length more = .ok count := by
  unfold readLength at found ⊢
  cases given : length.num? with
  | none =>
      rw [given] at found
      obtain ⟨_, -, found⟩ := ok_of_bind found
      cases found
  | some value =>
      rw [given] at found
      simp only at found ⊢
      split at found
      · cases found
      · rename_i fits
        rw [if_neg (by omega)]
        exact found

theorem typeRead_of_within (within : options.Within larger) {node tree : Node}
    (found : node.typeRead options = .ok tree) : node.typeRead larger = .ok tree := by
  unfold typeRead at found ⊢
  split at found
  · rename_i idle
    rw [if_pos idle]
    exact found
  · rename_i waiting
    rw [if_neg waiting]
    obtain ⟨source, first, found⟩ := ok_of_bind found
    obtain ⟨_, address, found⟩ := ok_of_bind found
    simp only [first, address, bind, Except.bind]
    cases second : node.args[1]? with
    | none =>
        rw [second] at found
        simpa only [within.strings] using found
    | some length =>
        rw [second] at found
        obtain ⟨count, read, found⟩ := ok_of_bind found
        simp only [readLength_of_le within.stack read]
        exact found

theorem inferApplication_of_within (within : options.Within larger) {node tree : Node}
    (found : inferApplication options node scope = ⟨tree, finish, .ok ()⟩) :
    inferApplication larger node scope = ⟨tree, finish, .ok ()⟩ := by
  unfold inferApplication at found ⊢
  cases known : OperatorTable.language.lookup node with
  | error cause =>
      rw [known] at found
      cases found
  | ok description =>
      rw [known] at found
      simp only at found ⊢
      generalize description.operator = operator at found ⊢
      cases operator with
      | mem | str =>
          obtain ⟨ruled, rfl⟩ := ofRule_eq_ok found
          show Typed.ofRule _ _ (typeRead _ larger) = _
          rw [typeRead_of_within within ruled]
          rfl
      | dot | arrow | deref | structLiteral | subscript | assign | strcmp | delete => exact found

/-- Trees that are typed one after the other, if each of them is. -/
theorem inferAll_of_within {nodes trees : List Node}
    (each : ∀ node ∈ nodes, ∀ scope tree finish, infer options node scope = ⟨tree, finish, .ok ()⟩ →
      infer larger node scope = ⟨tree, finish, .ok ()⟩)
    (found : inferAll options nodes scope = ⟨trees, finish, .ok ()⟩) :
    inferAll larger nodes scope = ⟨trees, finish, .ok ()⟩ := by
  induction nodes generalizing scope trees with
  | nil => exact found
  | cons node nodes ih =>
      obtain ⟨first, middle, others, head, tail, rfl⟩ := inferAll_cons_ok found
      rw [inferAll, each node List.mem_cons_self _ _ _ head]
      simp only [ih (fun other member => each other (List.mem_cons_of_mem _ member)) tail]

theorem infer_of_within (within : options.Within larger) {node tree : Node}
    (found : infer options node scope = ⟨tree, finish, .ok ()⟩) :
    infer larger node scope = ⟨tree, finish, .ok ()⟩ := by
  induction node using induct generalizing scope tree finish with
  | leaf node leaf =>
      cases node with
      | apply _ _ _ => cases leaf
      | ident _ _ | str _ _ | num _ _ _ => exact found
  | apply operator args info ih =>
      obtain ⟨trees, middle, inner, outer⟩ := infer_apply_ok found
      rw [infer, inferAll_of_within (fun node member _ _ _ => ih node member) inner]
      exact inferApplication_of_within within outer

theorem inferPasses_of_within (within : options.Within larger) {limit : Nat}
    {statements trees : List Node}
    (found : inferPasses options limit statements scope = ⟨trees, finish, .ok ()⟩) :
    inferPasses larger limit statements scope = ⟨trees, finish, .ok ()⟩ := by
  induction limit generalizing statements scope with
  | zero => cases found
  | succ limit ih =>
      rw [inferPasses] at found ⊢
      rcases pass : inferAll options statements scope with ⟨between, middle, outcome⟩
      rw [pass] at found
      cases outcome with
      | error fault => cases found
      | ok _ =>
          rw [inferAll_of_within (fun node _ _ _ _ => infer_of_within within) pass]
          dsimp only at found ⊢
          split at found
          · rename_i typed
            rw [if_pos typed]
            exact found
          · rename_i untyped
            rw [if_neg untyped]
            split at found
            · cases found
            · rename_i progress
              rw [if_neg progress]
              exact ih found

theorem inferTypes_of_within (within : options.Within larger) {statements trees : List Node}
    (found : inferTypes options statements scope = ⟨trees, finish, .ok ()⟩) :
    inferTypes larger statements scope = ⟨trees, finish, .ok ()⟩ := by
  have sooner := inferPasses_of_within within found
  exact inferPasses_of_le sooner within.passes

end Node

theorem emitStatements_of_within (within : options.Within larger) {symbols : Symbols}
    {statements : List Node} {stream : Stream}
    (found : emitStatements options symbols statements = .ok stream) :
    ∃ stream', emitStatements larger symbols statements = .ok stream' ∧ stream.Roomier stream' := by
  obtain ⟨trees, middle, emits, rfl⟩ := emitStatements_ok found
  have start : ((Stream.new options.maxStack).append prologue).Roomier
      ((Stream.new larger.maxStack).append prologue) := ⟨within.stack, rfl⟩
  obtain ⟨middle', emits', room, same⟩ :=
    Node.emitsAll_roomier (fun _ _ _ _ _ _ _ room found => Node.emits_roomier room found)
        start emits
  refine ⟨middle'.append epilogue, ?_, room, ?_⟩
  · unfold emitStatements
    dsimp only
    rw [show Node.emitAll symbols statements _ _ = ⟨trees, middle', .ok ()⟩ from emits']
    rfl
  · rw [same]
    rfl

theorem checkProgram_of_within (within : options.Within larger) {program : List MachineInsn}
    {report : Report} (found : checkProgram options program = .ok report) :
    ∃ report', checkProgram larger program = .ok report' := by
  unfold checkProgram at found ⊢
  simp only at found ⊢
  split at found
  · rename_i valid
    have few : Program.slots program ≤ 4096 := by
      by_contra many
      have counted : 4096 < Program.slots program := by omega
      simp [Program.verify, Program.violations, counted] at valid
    have checked := (Program.checked_of_valid valid).mono within.stack
    exact ⟨_, if_pos (Program.valid_of_checked checked few rfl)⟩
  · cases found

theorem compileTyped_of_within (within : options.Within larger) {name : String} {symbols : Symbols}
    {statements : List Node} {compiled : CompiledProbe}
    (found : compileTyped options name symbols statements = .ok compiled) :
    ∃ report, compileTyped larger name symbols statements =
      .ok { compiled with report := report } := by
  unfold compileTyped at found ⊢
  obtain ⟨stream, emitted, found⟩ := ok_of_bind found
  obtain ⟨program, lowered, found⟩ := ok_of_bind found
  obtain ⟨report, checked, found⟩ := ok_of_bind found
  obtain ⟨maps, specs, found⟩ := ok_of_bind found
  cases found
  obtain ⟨stream', emitted', -, same⟩ := emitStatements_of_within within emitted
  obtain ⟨report', checked'⟩ := checkProgram_of_within within (ok_of_lift checked)
  have insns : stream'.insns = stream.insns := by rw [same]
  have used : stream'.used = stream.used := by rw [same]
  refine ⟨report', ?_⟩
  simp only [emitted', insns, used, lowered, checked', within.entries, specs, bind, Except.bind]
  rfl

/-- A probe that is compiled is compiled just so under greater limits: to the
same listing, program, bytes, maps and size of the frame, and the registry is
left as it is without them. -/
theorem compile_within {types finish : Registry} {probe : Probe} {compiled : CompiledProbe}
    (within : options.Within larger)
    (compiles : compile options types probe = (.ok compiled, finish)) :
    ∃ again, compile larger types probe = (.ok again, finish) ∧
      again.listing = compiled.listing ∧ again.program = compiled.program ∧
      again.bytecode = compiled.bytecode ∧ again.maps = compiled.maps ∧
      again.stackSize = compiled.stackSize := by
  obtain ⟨prepared, trees, after, prepares, typed, found⟩ :=
    compile_ok (congrArg Prod.fst compiles)
  obtain ⟨report, found'⟩ := compileTyped_of_within within found
  have typed' := Node.inferTypes_of_within within typed
  have left : after.types = finish := by
    have second := congrArg Prod.snd compiles
    simpa only [compile, prepares, typed] using second
  refine ⟨{ compiled with report := report }, ?_, rfl, rfl, rfl, rfl, rfl⟩
  simp only [compile, prepares, typed', found', left, bind, Except.bind]

/-- The comparison is compiled to the same program in a frame of a page. -/
theorem comparingProbe_in_a_page :
    ∃ compiled finish again, compile {} .new comparingProbe = (.ok compiled, finish) ∧
      compile { maxStack := 4096, maxPasses := 100 } .new comparingProbe = (.ok again, finish) ∧
      again.listing = compiled.listing ∧ again.program = compiled.program ∧
      again.bytecode = compiled.bytecode ∧ again.maps = compiled.maps ∧
      again.stackSize = compiled.stackSize := by
  obtain ⟨compiled, found⟩ := compiles_comparingProbe
  obtain ⟨finish, compiles⟩ :
      ∃ finish, compile {} .new comparingProbe = (.ok compiled, finish) := by
    generalize compile {} .new comparingProbe = both at found
    exact ⟨both.2, Prod.ext found rfl⟩
  obtain ⟨again, same⟩ := compile_within
    (show Options.Within {} { maxStack := 4096, maxPasses := 100 } from
      ⟨rfl, rfl, by decide, by decide⟩) compiles
  exact ⟨compiled, finish, again, compiles, same⟩

end TraceProbe
