import TraceProbe.Proofs.Compilation.Acceptance
import TraceProbe.Proofs.Compilation.Faultless
import TraceProbe.Proofs.Emission.Delivering
import TraceProbe.Proofs.Typing.Marking

/-!
# Compilation that says what is wrong

A probe is rejected with a diagnostic that the user can act on, as long as
emission can work with its typed statements and its program is not too long.
-/

namespace TraceProbe

variable {options : Options} {types : Registry} {probe : Probe} {symbols typing : Symbols}
  {trees : List Node} {scope : Scope} {fault : Fault}

theorem Node.Realizable.served {tree : Node} (realizable : tree.Realizable symbols)
    (request : Request) :
    tree.Served symbols request := by
  rcases realizable.stands with assign | delete | names | some
  · exact .inr (.inr (.inl assign))
  · exact .inr (.inr (.inr (.inl delete)))
  · exact .inr (.inl names)
  · exact .inr (.inr (.inr (.inr (.inr (.inr some)))))

theorem tolerable_emitStatements (fitted : ∀ tree ∈ trees, Node.Fitted symbols typing .value tree)
    (served : ∀ tree ∈ trees, tree.Served symbols {}) :
    Faults Fault.Tolerable (emitStatements options symbols trees) := by
  refine Faults.bind ?_ fun _ _ => faults_ok _
  refine (Node.delivers_all (fun tree _ => Node.deliverable tree)
    (fun index tree found => fitted tree (List.mem_of_getElem? found))
    (fun _ _ _ target => (by cases target)) ?_).1
  intro index tree request here there
  rw [eq_of_asked there]
  exact served tree (List.mem_of_getElem? here)

theorem actionable_ofSymbols (entries : Nat) (symbols : Symbols) :
    Faults Fault.Actionable
      (liftM (MapSpec.ofSymbols entries symbols) : Except Fault (List MapSpec)) := by
  refine faults_lift ?_
  intro cause failed
  obtain ⟨symbol, member, failed⟩ := exists_error_of_mapM failed
  have isMap := (List.mem_filter.mp member).2
  unfold MapSpec.ofSymbol at failed
  split at failed
  · cases failed
  · cases failed
    exact ⟨_, rfl, rfl, rfl⟩
  · rename_i kind
    rw [kind] at isMap
    cases isMap

/-- Typed statements that emission can work with are compiled, or there is
something to act on, unless the program is too long. -/
theorem actionable_compileTyped (small : options.maxStack ≤ 512) (name : String)
    (emittable : ∀ tree ∈ trees, Node.Emittable (fun _ _ => True) symbols .value tree)
    (noted : ∀ tree ∈ trees, tree.AllNoted symbols)
    (realizable : ∀ tree ∈ trees, tree.Realizable symbols)
    (failed : compileTyped options name symbols trees = .error fault) :
    fault.Actionable ∨ ∃ stream program, emitStatements options symbols trees = .ok stream ∧
      Insn.lower stream.code = .ok program ∧ 4096 < Program.slots program := by
  have literal (tree : Node) (member : tree ∈ trees) :
      Node.Emittable Registry.Literal symbols .value tree :=
    (emittable tree member).workable (realizable tree member).workable
  have emission := (tolerable_emitStatements
    (fun tree member => ⟨literal tree member, noted tree member, (realizable tree member).workable⟩)
    fun tree member => (realizable tree member).served {}).actionable
      (flawless_emitStatements (show options.maxStack ≤ 32767 by omega) literal)
  by_cases long : ∃ stream program, emitStatements options symbols trees = .ok stream ∧
      Insn.lower stream.code = .ok program ∧ 4096 < Program.slots program
  · exact .inr long
  · refine .inl (Faults.bind emission ?_ fault failed)
    intro stream emitted
    obtain ⟨-, lowers, accepted⟩ := accepted_of_emittable small literal emitted
    refine Faults.bind (faults_lift ?_) ?_
    · intro cause pressed
      rcases lowers with ⟨program, lowered⟩ | pressure
      · cases lowered.symm.trans pressed
      · cases pressure.symm.trans pressed
        exact ⟨_, rfl, rfl, rfl⟩
    · intro program lowered
      have lowered := ok_of_lift lowered
      have few : Program.slots program ≤ 4096 := by
        by_contra more
        exact long ⟨stream, program, emitted, lowered, by omega⟩
      refine Faults.bind (faults_lift ?_) ?_
      · intro cause rejected
        have checked : checkProgram options program = .ok _ :=
          if_pos ((accepted program lowered).2 few)
        cases checked.symm.trans rejected
      · intro report _
        exact (actionable_ofSymbols _ _).bind fun _ _ => faults_ok _

/-- Compilation gets as far as inference, and inference ends with typed statements. -/
def Probe.Infers (options : Options) (types : Registry) (probe : Probe) (trees : List Node)
    (scope : Scope) : Prop :=
  ∃ prepared, probe.statements.mapM Node.prepare = .ok prepared ∧
    Node.inferTypes options prepared ⟨probe.symbols, types⟩ = ⟨trees, scope, .ok ()⟩

/-- A probe that is rejected ends with a diagnostic that the user can act on, unless
a typed statement is one that emission cannot work with or the program is too
long. -/
theorem rejected_actionable (declared : probe.symbols.Declared)
    (fresh : ∀ statement ∈ probe.statements, statement.Fresh)
    (failed : (compile {} types probe).1 = .error fault) :
    fault.Actionable ∨
      (∃ trees scope tree, probe.Infers {} types trees scope ∧ tree ∈ trees ∧
        ¬ tree.Realizable scope.symbols) ∨
      ∃ stream program, probe.Emits {} types stream ∧ Insn.lower stream.code = .ok program ∧
        4096 < Program.slots program := by
  unfold compile at failed
  cases prepares : probe.statements.mapM Node.prepare with
  | error other =>
      rw [prepares] at failed
      cases failed
      exact .inl (faults_mapM (fun statement _ => statement.actionable_prepare) _ prepares)
  | ok prepared =>
      rw [prepares] at failed
      have shaped := Node.prepare_all_ok prepares fresh
      have typed := Node.actionable_inferTypes {} (show 0 < ({} : Options).maxPasses by decide)
        (fun tree member => (shaped tree member).2) ⟨probe.symbols, types⟩
      dsimp only at failed
      rcases inferred : Node.inferTypes {} prepared ⟨probe.symbols, types⟩ with
          ⟨trees, scope, outcome⟩
      rw [inferred] at typed failed
      cases outcome with
      | error other =>
          cases failed
          exact .inl (typed _ rfl)
      | ok _ =>
          by_cases realizable : ∀ tree ∈ trees, tree.Realizable scope.symbols
          · have marked := Node.marked_of_inferTypes fresh prepares declared.mapsTyped inferred
            have emittable :=
              Node.emittable_of_inferTypes Registry.gives_anything trivial fresh prepares inferred
            rcases actionable_compileTyped (by decide) _ emittable
                (fun tree member => (marked tree member).1)
              realizable failed with actionable | ⟨stream, program, emitted, long⟩
            · exact .inl actionable
            · exact .inr
                (.inr
                  ⟨stream, program, ⟨prepared, trees, scope, prepares, inferred, emitted⟩, long⟩)
          · simp only [not_forall] at realizable
            obtain ⟨tree, member, other⟩ := realizable
            exact .inr (.inl ⟨trees, scope, tree, ⟨prepared, prepares, inferred⟩, member, other⟩)

/-- `m[1] = x`, where the values of `m` are four words and `x` is four half words. -/
def halvesProbe : Probe where
  name := "halves"
  statements := [.apply "=" [.apply "[]" [.ident "m" {}, .num 1 false {}] {}, .ident "x" {}] {}]
  symbols :=
    ((Symbols.declareMap {} "m"
        (.map (.scalar .u64) (.array (.scalar .u32) 4) .hash)).2.declareContext
      "x" (.array (.scalar .u16) 4) 0).2

/-- Arrays of one length are compatible, but the half words cannot be moved to
where the words belong. -/
theorem halvesProbe_rejected :
    (compile {} .new halvesProbe).1 = .error (.internal "can't store a register into 16 bytes") ∧
      ¬ (Fault.internal "can't store a register into 16 bytes").Actionable ∧
        ((∃ trees scope tree, halvesProbe.Infers {} .new trees scope ∧ tree ∈ trees ∧
            ¬ tree.Realizable scope.symbols) ∨
          ∃ stream program, halvesProbe.Emits {} .new stream ∧
            Insn.lower stream.code = .ok program ∧
            4096 < Program.slots program) := by
  have failed : (compile {} .new halvesProbe).1 =
      .error (.internal "can't store a register into 16 bytes") := by
    refine error_of_map (f := fun _ => ()) ?_
    decide +kernel
  have blames : ¬ (Fault.internal "can't store a register into 16 bytes").Actionable := by
    rintro ⟨_, same, recoverable, -⟩
    cases same
    cases recoverable
  have declared : halvesProbe.symbols.Declared := .declareContext _ _ _ (.declareMap _ _ .new)
  have fresh : ∀ statement ∈ halvesProbe.statements, statement.Fresh := by
    simp [halvesProbe, Node.fresh_apply_iff, Node.fresh_ident_iff, Node.fresh_num_iff]
  exact ⟨failed, blames, (rejected_actionable declared fresh failed).resolve_left blames⟩

end TraceProbe
