import TraceProbe.Proofs.Emission.Renaming
import TraceProbe.Proofs.Typing.Dialogues
import TraceProbe.Proofs.Typing.Preparation

/-!
# Compilation as a dialogue

Inference is the only part of compilation that asks the registry.  A probe
without anonymous structs of its own asks the same questions up to the names
that it was answered, and ends in the same way.
-/

namespace TraceProbe

variable {naming : Renaming} {options : Options}

theorem map_eq_self_iff {α : Type} {change : α → α} {items : List α} :
    items.map change = items ↔ ∀ item ∈ items, change item = item := by
  simpa using @List.map_inj_left α α items change id

namespace Node

/-- A tree without anonymous structs among its types. -/
def Plain (node : Node) : Prop :=
  ∀ part, PartOf part node → ∀ type, part.type? = some type → type.Plain

theorem rename_of_plain_type {info : Info} (plain : ∀ type, info.type = some type → type.Plain) :
    info.rename naming = info := by
  obtain ⟨type, storage, loc, isVirtual⟩ := info
  cases type with
  | none => rfl
  | some type =>
      simp only [Info.rename, Option.map_some, (plain type rfl).rename]

theorem Plain.rename {node : Node} (plain : node.Plain) : node.rename naming = node := by
  induction node using induct with
  | leaf node leaf =>
      have same : node.info.rename naming = node.info := rename_of_plain_type (plain node .root)
      cases node with
      | apply _ _ _ => cases leaf
      | ident name info => exact congrArg (ident name) same
      | str value info => exact congrArg (str value) same
      | num value unsigned info => exact congrArg (num value unsigned) same
  | apply operator args info ih =>
      have same : info.rename naming = info := rename_of_plain_type (plain _ .root)
      have each : args.map (Node.rename naming) = args :=
        map_eq_self_iff.mpr fun arg member => ih arg member fun part inside =>
          plain part (.inner member inside)
      rw [rename_apply, same, each]

theorem rename_expand {node tree : Node} (found : node.expand = ⟨tree, .ok ()⟩)
    (fixed : node.rename naming = node) : tree.rename naming = tree := by
  induction node using induct generalizing tree with
  | leaf node leaf =>
      cases node with
      | apply _ _ _ => cases leaf
      | ident _ _ | str _ _ | num _ _ _ =>
          simp only [expand] at found
          cases found
          exact fixed
  | apply operator args info ih =>
      rw [rename_apply] at fixed
      obtain ⟨-, each, known⟩ := apply.inj fixed
      have inner (arg : Node) (member : arg ∈ args) (expanded : arg.expand.outcome = .ok ()) :
          arg.expand.tree.rename naming = arg.expand.tree :=
        ih arg member (show arg.expand = ⟨arg.expand.tree, .ok ()⟩ by rw [← expanded])
          (map_eq_self_iff.mp each arg member)
      rcases expand_apply_ok found with ⟨base, member, memberInfo, rfl, expanded, rfl⟩ |
        ⟨-, expanded, rfl⟩
      · simp only [Operator.expandArrow, rename_apply, List.map_cons, List.map_nil, rename_str,
          inner base List.mem_cons_self expanded]
        rfl
      · rw [rename_apply, known, List.map_map]
        exact congrArg (apply operator · info) (List.map_congr_left fun arg member =>
          inner arg member (expanded arg member))

theorem rename_prepare {statement tree : Node} (prepared : statement.prepare = .ok tree)
    (fixed : statement.rename naming = statement) : tree.rename naming = tree := by
  unfold prepare at prepared
  obtain ⟨_, expanded, prepared⟩ := ok_of_bind prepared
  obtain ⟨_, -, same⟩ := ok_of_bind prepared
  cases same
  exact rename_expand (show statement.expand = ⟨statement.expand.tree, .ok ()⟩ by
    rw [← ok_of_lift expanded]) fixed

end Node

theorem MapSpec.ofSymbol_rename (entries : Nat) (symbol : Symbol) :
    ofSymbol entries (symbol.rename naming) = ofSymbol entries symbol := by
  obtain ⟨name, type, kind⟩ := symbol
  cases kind with
  | context offset => rfl
  | map number =>
      cases type with
      | none => rfl
      | some type =>
          cases type with
          | map key value kind =>
              simp only [Symbol.rename, Option.map_some, Ty.rename, ofSymbol, Ty.size_rename]
          | record _ | function _ =>
              simp only [Symbol.rename, Option.map_some, Ty.rename_record, Ty.rename_function,
                ofSymbol]
          | _ => rfl

theorem MapSpec.ofSymbols_rename (entries : Nat) (symbols : Symbols) :
    ofSymbols entries (symbols.rename naming) = ofSymbols entries symbols := by
  have kinds : ((fun symbol : Symbol => symbol.kind.map?.isSome) ∘ Symbol.rename naming) =
      fun symbol => symbol.kind.map?.isSome := rfl
  unfold ofSymbols Symbols.maps
  rw [Symbols.rename, List.filter_map, List.mapM_map, kinds]
  exact congrArg (List.mapM · _) (funext fun symbol => ofSymbol_rename entries symbol)

theorem emitStatements_rename (symbols : Symbols) (statements : List Node) :
    Agrees Eq (emitStatements options symbols statements)
      (emitStatements options (symbols.rename naming) (statements.map (Node.rename naming))) := by
  unfold emitStatements
  rw [List.map_map]
  have emitted := @Node.emitAll_rename naming symbols statements
    (fun node _ => Node.emit_rename node) (statements.map fun _ => ({} : Request))
    ((Stream.new options.maxStack).append prologue)
  refine emitted.outcome.bind fun _ _ _ => .ok ?_
  exact congrArg (Stream.append · epilogue) emitted.stream.symm

theorem compileTyped_rename (name : String) (symbols : Symbols) (statements : List Node) :
    Agrees Eq (compileTyped options name symbols statements)
      (compileTyped options name (symbols.rename naming)
        (statements.map (Node.rename naming))) := by
  unfold compileTyped
  refine (emitStatements_rename symbols statements).bind ?_
  intro stream _ same
  subst same
  rw [MapSpec.ofSymbols_rename]
  exact .refl _

namespace Probe

/-- A probe without anonymous structs among its types. -/
structure Plain (probe : Probe) : Prop where
  statements : ∀ statement ∈ probe.statements, statement.Plain
  symbols : ∀ symbol ∈ probe.symbols.entries, ∀ type, symbol.type = some type → type.Plain

/-- The compilation of a probe as a dialogue with the registry. -/
def asking (options : Options) (probe : Probe) : Dialogue (Except Fault CompiledProbe) :=
  match probe.statements.mapM Node.prepare with
  | .error fault => .done (.error fault)
  | .ok statements =>
      (Node.inferPassesAsking options options.maxPasses statements probe.symbols).andThen
        fun typed => .done do
          typed.outcome
          compileTyped options probe.name typed.symbols typed.tree

theorem run_asking (options : Options) (probe : Probe) (types : Registry) :
    (probe.asking options).run types = compile options types probe := by
  unfold asking compile
  cases probe.statements.mapM Node.prepare with
  | error fault => rfl
  | ok statements =>
      dsimp only
      rw [Dialogue.run_andThen]
      have inferred := @Node.run_inferPassesAsking options options.maxPasses statements
        ⟨probe.symbols, types⟩
      dsimp only at inferred
      rw [inferred]
      rfl

/-- The dialogue of a plain probe does not depend on the names it is answered. -/
theorem Plain.asking {probe : Probe} (plain : probe.Plain) :
    Dialogue.Renamed naming (Agrees Eq) (probe.asking options) (probe.asking options) := by
  unfold Probe.asking
  cases prepared : probe.statements.mapM Node.prepare with
  | error fault => exact .done (.error rfl)
  | ok statements =>
      have fixed : statements.map (Node.rename naming) = statements :=
        map_eq_self_iff.mpr fun tree member => by
          obtain ⟨statement, among, same⟩ := exists_of_mem_mapM prepared member
          exact Node.rename_prepare same (plain.statements statement among).rename
      have kept : probe.symbols.rename naming = probe.symbols := by
        have each : probe.symbols.entries.map (Symbol.rename naming) = probe.symbols.entries :=
          map_eq_self_iff.mpr fun symbol member => by
            have same := @Node.rename_of_plain_type naming { type := symbol.type }
              (plain.symbols symbol member)
            exact congrArg (fun info : Info => { symbol with type := info.type }) same
        rw [Symbols.rename, each]
      have inferred := @Node.renamed_inferPassesAsking naming options options.maxPasses statements
        probe.symbols
      rw [fixed, kept] at inferred
      refine inferred.andThen fun typed other same => .done ?_
      obtain ⟨trees, symbols, outcome⟩ := typed
      obtain ⟨trees', symbols', outcome'⟩ := other
      obtain ⟨rfl, rfl, ends⟩ := same
      exact ends.bind fun _ _ _ => compileTyped_rename probe.name symbols trees

end Probe

end TraceProbe
