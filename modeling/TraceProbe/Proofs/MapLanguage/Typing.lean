import TraceProbe.Proofs.Compilation.Stages
import TraceProbe.Proofs.MapLanguage.Language
import TraceProbe.Proofs.Typing.Passes
import TraceProbe.Proofs.Typing.Scope

/-!
# Typing of the map language

All names are declared, so one pass of inference finds every type, and leaves
the symbols as they are.
-/

namespace TraceProbe

namespace Symbols

variable {symbols : Symbols} {name : String}

theorem get?_of_map? {shape : MapShape} (found : symbols.map? name = some shape) :
    ∃ symbol, symbols.get? name = some symbol ∧ symbol.type = some shape.type ∧
      symbol.kind = .map shape.number := by
  unfold map? at found
  split at found
  · rename_i known
    cases found
    exact ⟨_, known, rfl, rfl⟩
  · cases found

theorem get?_of_context? {type : Ty} {offset : Int16}
    (found : symbols.context? name = some (type, offset)) :
    ∃ symbol, symbols.get? name = some symbol ∧ symbol.type = some type ∧
      symbol.kind = .context offset := by
  unfold context? at found
  split at found
  · rename_i known
    cases found
    exact ⟨_, known, rfl, rfl⟩
  · cases found

end Symbols

/-- The typed node of an expression. -/
def MapExpr.typed (symbols : Symbols) : MapExpr → Node
  | number value unsigned loc =>
      .num value unsigned { type := some (Node.numberType unsigned), loc := loc }
  | text value loc => .str value { type := some (Node.literalType value), loc := loc }
  | context name loc => .ident name { type := (symbols.context? name).map (·.1), loc := loc }
  | read map key loc mapLoc =>
      .apply "[]"
        [.ident map { type := (symbols.map? map).map MapShape.type, loc := mapLoc },
          key.typed symbols]
        { type := (symbols.map? map).map (·.value), loc := loc }

/-- The typed node of the element that a statement stores or removes. -/
def MapCommand.target (symbols : Symbols) (map : String) (key : MapExpr) (loc mapLoc : Loc)
    (type : Option Ty) : Node :=
  .apply "[]"
    [.ident map { type := (symbols.map? map).map MapShape.type, loc := mapLoc },
      key.typed symbols]
    { type := type, loc := loc }

/-- The typed node of a statement. -/
def MapCommand.typed (symbols : Symbols) : MapCommand → Node
  | store map key value loc targetLoc mapLoc =>
      .apply "="
        [target symbols map key targetLoc mapLoc ((symbols.map? map).map (·.value)),
          value.typed symbols]
        { type := some .void, loc := loc }
  | remove map key loc targetLoc mapLoc =>
      .apply "delete"
        [target symbols map key targetLoc mapLoc ((symbols.map? map).map (·.value))]
        { type := some .void, loc := loc }

theorem lookup_subscript (args : List Node) (info : Info) :
    OperatorTable.language.lookup (.apply "[]" args info) =
      .ok ⟨"[]", OperatorTable.untyped 2 false, .subscript, false⟩ :=
  rfl

theorem lookup_assign (args : List Node) (info : Info) :
    OperatorTable.language.lookup (.apply "=" args info) =
      .ok ⟨"=", OperatorTable.untyped 2 false, .assign, false⟩ :=
  rfl

theorem lookup_delete (args : List Node) (info : Info) :
    OperatorTable.language.lookup (.apply "delete" args info) =
      .ok ⟨"delete", OperatorTable.untyped 1 false, .delete, true⟩ :=
  rfl

namespace Node

theorem infer_ident_of_get? {options : Options} {name : String} {loc : Loc} {symbol : Symbol}
    {scope : Scope} (known : scope.symbols.get? name = some symbol) :
    infer options (ident name { loc := loc }) scope =
      ⟨ident name { type := symbol.type, loc := loc }, scope, .ok ()⟩ := by
  rw [infer]
  simp only [Option.isSome_none, Bool.false_eq_true, if_false,
    Symbols.resolve_of_get? known]

end Node

section Inference

variable {options : Options} {symbols : Symbols} {types : Registry}

theorem MapExpr.type?_typed (expr : MapExpr) : (expr.typed symbols).type? = expr.type? symbols := by
  cases expr <;> rfl

/-- Inference at an element of a declared map, whose key is typed. -/
theorem inferApplication_subscript {map : String} {key : Node} {shape : MapShape} {keyType : Ty}
    {loc mapLoc : Loc} {tree : Node} {scope finish : Scope} (known : key.type? = some keyType)
    (found : Node.inferApplication options
      (.apply "[]" [.ident map { type := some shape.type, loc := mapLoc }, key] { loc := loc })
      scope = ⟨tree, finish, .ok ()⟩) :
    tree = .apply "[]" [.ident map { type := some shape.type, loc := mapLoc }, key]
        { type := some shape.value, loc := loc } ∧ finish = scope := by
  unfold Node.inferApplication at found
  rw [lookup_subscript] at found
  simp only [Bool.false_eq_true, if_false, Operator.infer, Node.typeSubscript, Node.args, known]
    at found
  have collection : (Node.ident map { type := some shape.type, loc := mapLoc }).type? =
      some (.map shape.key shape.value shape.kind) := rfl
  have fresh : (Node.apply "[]" [.ident map { type := some shape.type, loc := mapLoc }, key]
      { loc := loc }).type? = none := rfl
  simp only [collection, fresh, Node.typeElement, Node.elementType] at found
  cases compatible : shape.key.compatible keyType with
  | false =>
      simp only [compatible, Bool.false_eq_true, if_false] at found
      cases found
  | true =>
      simp only [compatible, if_true] at found
      cases found
      exact ⟨rfl, rfl⟩

theorem MapExpr.exists_type (expr : MapExpr) (declared : expr.declared symbols = true) :
    ∃ type, expr.type? symbols = some type := by
  cases expr with
  | number value unsigned loc => exact ⟨_, rfl⟩
  | text value loc => exact ⟨_, rfl⟩
  | context name loc =>
      obtain ⟨found, known⟩ := Option.isSome_iff_exists.mp declared
      exact ⟨found.1, by simp [type?, known]⟩
  | read map key loc mapLoc =>
      simp only [MapExpr.declared, Bool.and_eq_true, Option.isSome_iff_exists] at declared
      obtain ⟨-, shape, known⟩ := declared
      exact ⟨shape.value, by simp [type?, known]⟩

theorem MapExpr.declared_read {map : String} {key : MapExpr} {loc mapLoc : Loc}
    (declared : (read map key loc mapLoc).declared symbols = true) :
    key.declared symbols = true ∧ ∃ shape, symbols.map? map = some shape := by
  simpa only [MapExpr.declared, Bool.and_eq_true, Option.isSome_iff_exists] using declared

theorem MapCommand.declared_store {map : String} {key value : MapExpr} {loc targetLoc mapLoc : Loc}
    (declared : (store map key value loc targetLoc mapLoc).declared symbols = true) :
    key.declared symbols = true ∧ value.declared symbols = true ∧
      ∃ shape, symbols.map? map = some shape := by
  simpa only [MapCommand.declared, Bool.and_eq_true, Option.isSome_iff_exists, and_assoc]
    using declared

theorem MapCommand.declared_remove {map : String} {key : MapExpr} {loc targetLoc mapLoc : Loc}
    (declared : (remove map key loc targetLoc mapLoc).declared symbols = true) :
    key.declared symbols = true ∧ ∃ shape, symbols.map? map = some shape := by
  simpa only [MapCommand.declared, Bool.and_eq_true, Option.isSome_iff_exists] using declared

/-- Inference at an element of a declared map whose key is an expression. -/
theorem MapExpr.infer_element {map : String} {key : MapExpr} {shape : MapShape} {loc mapLoc : Loc}
    {tree : Node} {finish : Scope} (known : symbols.map? map = some shape)
    (declared : key.declared symbols = true)
    (inferred : ∀ {tree : Node} {finish : Scope},
      Node.infer options key.toNode ⟨symbols, types⟩ = ⟨tree, finish, .ok ()⟩ →
        tree = key.typed symbols ∧ finish = ⟨symbols, types⟩)
    (found : Node.infer options
      (.apply "[]" [.ident map { loc := mapLoc }, key.toNode] { loc := loc }) ⟨symbols, types⟩ =
        ⟨tree, finish, .ok ()⟩) :
    tree = .apply "[]"
        [.ident map { type := some shape.type, loc := mapLoc }, key.typed symbols]
        { type := some shape.value, loc := loc } ∧ finish = ⟨symbols, types⟩ := by
  obtain ⟨symbol, stored, typed, -⟩ := Symbols.get?_of_map? known
  obtain ⟨trees, middle, inner, applied⟩ := Node.infer_apply_ok found
  obtain ⟨first, after, others, collection, rest, rfl⟩ := Node.inferAll_cons_ok inner
  rw [Node.infer_ident_of_get? stored, typed] at collection
  cases collection
  obtain ⟨second, last, none, keyFound, done, rfl⟩ := Node.inferAll_cons_ok rest
  obtain ⟨rfl, rfl⟩ := inferred keyFound
  cases done
  obtain ⟨keyType, keyKnown⟩ := key.exists_type declared
  rw [← key.type?_typed] at keyKnown
  exact inferApplication_subscript keyKnown applied

theorem MapExpr.infer_toNode {expr : MapExpr}
    (declared : expr.declared symbols = true) {tree : Node} {finish : Scope}
    (found : Node.infer options expr.toNode ⟨symbols, types⟩ = ⟨tree, finish, .ok ()⟩) :
    tree = expr.typed symbols ∧ finish = ⟨symbols, types⟩ := by
  induction expr generalizing tree finish with
  | number value unsigned loc =>
      cases found
      exact ⟨rfl, rfl⟩
  | text value loc =>
      cases found
      exact ⟨rfl, rfl⟩
  | context name loc =>
      obtain ⟨⟨type, offset⟩, known⟩ := Option.isSome_iff_exists.mp declared
      obtain ⟨symbol, stored, typed, -⟩ := Symbols.get?_of_context? known
      rw [toNode, Node.infer_ident_of_get? stored] at found
      cases found
      refine ⟨?_, rfl⟩
      rw [MapExpr.typed, known, typed]
      rfl
  | read map key loc mapLoc ih =>
      obtain ⟨keyDeclared, shape, known⟩ := MapExpr.declared_read declared
      obtain ⟨rfl, rfl⟩ :=
        MapExpr.infer_element known keyDeclared (fun inferred => ih keyDeclared inferred)
        found
      refine ⟨?_, rfl⟩
      rw [MapExpr.typed, known]
      rfl

/-- Inference at an assignment whose target and value are typed. -/
theorem inferApplication_assign {target value tree : Node} {targetType : Ty} {loc : Loc}
    {scope finish : Scope} (targetKnown : target.type? = some targetType)
    (valueKnown : value.type?.isSome)
    (found : Node.inferApplication options (.apply "=" [target, value] { loc := loc }) scope =
      ⟨tree, finish, .ok ()⟩) :
    tree = .apply "=" [target, value] { type := some .void, loc := loc } ∧ finish = scope := by
  obtain ⟨valueType, valueKnown⟩ := Option.isSome_iff_exists.mp valueKnown
  have fresh : (Node.apply "=" [target, value] { loc := loc }).type? = none := rfl
  unfold Node.inferApplication at found
  rw [lookup_assign] at found
  simp only [Bool.false_eq_true, if_false, Operator.infer, Node.typeAssign, Node.args, fresh,
    valueKnown, Option.isSome_none] at found
  split at found
  · cases found
  · simp only [Node.typeTarget, targetKnown, Node.fillType, fresh] at found
    cases assignable : Node.checkAssignable (.apply "=" [target, value] { loc := loc }) targetType
      valueType with
    | error fault =>
        rw [assignable] at found
        cases found
    | ok result =>
        rw [assignable] at found
        cases found
        exact ⟨rfl, rfl⟩

theorem MapCommand.infer_toNode {command : MapCommand} (declared : command.declared symbols = true)
    {tree : Node} {finish : Scope}
    (found : Node.infer options command.toNode ⟨symbols, types⟩ = ⟨tree, finish, .ok ()⟩) :
    tree = command.typed symbols ∧ finish = ⟨symbols, types⟩ := by
  cases command with
  | store map key value loc targetLoc mapLoc =>
      obtain ⟨keyDeclared, valueDeclared, shape, known⟩ := declared_store declared
      obtain ⟨trees, middle, inner, applied⟩ := Node.infer_apply_ok found
      obtain ⟨first, after, others, targetFound, rest, rfl⟩ := Node.inferAll_cons_ok inner
      obtain ⟨rfl, rfl⟩ :=
        MapExpr.infer_element known keyDeclared (MapExpr.infer_toNode keyDeclared)
        targetFound
      obtain ⟨second, last, none, valueFound, done, rfl⟩ := Node.inferAll_cons_ok rest
      obtain ⟨rfl, rfl⟩ := MapExpr.infer_toNode valueDeclared valueFound
      cases done
      have valueKnown : (value.typed symbols).type?.isSome := by
        obtain ⟨type, valueKnown⟩ := value.exists_type valueDeclared
        rw [value.type?_typed, valueKnown]
        rfl
      obtain ⟨rfl, rfl⟩ := inferApplication_assign rfl valueKnown applied
      refine ⟨?_, rfl⟩
      rw [MapCommand.typed, target, known]
      rfl
  | remove map key loc targetLoc mapLoc =>
      obtain ⟨keyDeclared, shape, known⟩ := declared_remove declared
      obtain ⟨trees, middle, inner, applied⟩ := Node.infer_apply_ok found
      obtain ⟨first, after, others, targetFound, done, rfl⟩ := Node.inferAll_cons_ok inner
      obtain ⟨rfl, rfl⟩ :=
        MapExpr.infer_element known keyDeclared (MapExpr.infer_toNode keyDeclared)
        targetFound
      cases done
      cases applied
      refine ⟨?_, rfl⟩
      rw [MapCommand.typed, target, known]
      rfl

theorem MapCommand.inferAll_toNode {commands : List MapCommand}
    (declared : ∀ command ∈ commands, command.declared symbols = true)
    {trees : List Node} {finish : Scope}
    (found : Node.inferAll options (commands.map toNode) ⟨symbols, types⟩ =
      ⟨trees, finish, .ok ()⟩) :
    trees = commands.map (typed symbols) ∧ finish = ⟨symbols, types⟩ := by
  induction commands generalizing trees with
  | nil =>
      cases found
      exact ⟨rfl, rfl⟩
  | cons command commands ih =>
      obtain ⟨first, middle, others, head, tail, rfl⟩ := Node.inferAll_cons_ok found
      obtain ⟨rfl, rfl⟩ := MapCommand.infer_toNode (declared _ List.mem_cons_self) head
      obtain ⟨rfl, rfl⟩ :=
        ih (fun command member => declared _ (List.mem_cons_of_mem _ member)) tail
      exact ⟨rfl, rfl⟩

theorem MapExpr.firstUntyped?_typed {expr : MapExpr} (declared : expr.declared symbols = true) :
    (expr.typed symbols).firstUntyped? = none := by
  induction expr with
  | number value unsigned loc => rfl
  | text value loc => rfl
  | context name loc =>
      obtain ⟨found, known⟩ := Option.isSome_iff_exists.mp declared
      simp [MapExpr.typed, Node.firstUntyped?, known]
  | read map key loc mapLoc ih =>
      obtain ⟨keyDeclared, shape, known⟩ := MapExpr.declared_read declared
      simp [MapExpr.typed, Node.firstUntyped?, Node.firstUntypedOf?, known, ih keyDeclared]

theorem MapCommand.firstUntyped?_typed {command : MapCommand}
    (declared : command.declared symbols = true) :
    (command.typed symbols).firstUntyped? = none := by
  cases command with
  | store map key value loc targetLoc mapLoc =>
      obtain ⟨keyDeclared, valueDeclared, shape, known⟩ := declared_store declared
      simp [MapCommand.typed, target, Node.firstUntyped?, Node.firstUntypedOf?, known,
        MapExpr.firstUntyped?_typed keyDeclared, MapExpr.firstUntyped?_typed valueDeclared]
  | remove map key loc targetLoc mapLoc =>
      obtain ⟨keyDeclared, shape, known⟩ := declared_remove declared
      simp [MapCommand.typed, target, Node.firstUntyped?, Node.firstUntypedOf?, known,
        MapExpr.firstUntyped?_typed keyDeclared]

theorem MapCommand.firstUntypedOf?_typed {commands : List MapCommand}
    (declared : ∀ command ∈ commands, command.declared symbols = true) :
    Node.firstUntypedOf? (commands.map (typed symbols)) = none := by
  induction commands with
  | nil => rfl
  | cons command commands ih =>
      rw [List.map_cons, Node.firstUntypedOf?, firstUntyped?_typed (declared _ List.mem_cons_self),
        ih fun command member => declared _ (List.mem_cons_of_mem _ member)]
      rfl

/-- One pass is enough, and it leaves the symbols alone. -/
theorem MapCommand.inferTypes_toNode {commands : List MapCommand}
    (declared : ∀ command ∈ commands, command.declared symbols = true)
    (found : (Node.inferTypes options (commands.map toNode) ⟨symbols, types⟩).outcome = .ok ()) :
    Node.inferTypes options (commands.map toNode) ⟨symbols, types⟩ =
      ⟨commands.map (typed symbols), ⟨symbols, types⟩, .ok ()⟩ := by
  unfold Node.inferTypes at found ⊢
  cases passes : options.maxPasses with
  | zero =>
      rw [passes] at found
      cases found
  | succ count =>
      rw [passes] at found
      rw [Node.inferPasses] at found ⊢
      rcases inner : Node.inferAll options (commands.map toNode) ⟨symbols, types⟩ with
        ⟨trees, finish, result⟩
      simp only [inner] at found ⊢
      cases result with
      | error fault => cases found
      | ok value =>
          obtain ⟨rfl, rfl⟩ := inferAll_toNode declared inner
          simp only [firstUntypedOf?_typed declared, Option.isNone_none, if_true]

theorem MapExpr.expand_toNode (expr : MapExpr) : expr.toNode.expand = ⟨expr.toNode, .ok ()⟩ := by
  induction expr with
  | number value unsigned loc => rfl
  | text value loc => rfl
  | context name loc => rfl
  | read map key loc mapLoc ih =>
      rw [toNode, Node.expand]
      simp only [lookup_subscript, Node.expandAll, Node.expand, ih]

theorem MapCommand.expand_toNode (command : MapCommand) :
    command.toNode.expand = ⟨command.toNode, .ok ()⟩ := by
  cases command with
  | store map key value loc targetLoc mapLoc =>
      rw [toNode, Node.expand]
      simp only [lookup_assign, lookup_subscript, Node.expandAll, Node.expand,
        MapExpr.expand_toNode]
  | remove map key loc targetLoc mapLoc =>
      rw [toNode, Node.expand]
      simp only [lookup_delete, lookup_subscript, Node.expandAll, Node.expand,
        MapExpr.expand_toNode]

theorem MapCommand.prepare_toNode {command : MapCommand} {tree : Node}
    (found : command.toNode.prepare = .ok tree) : tree = command.toNode := by
  unfold Node.prepare at found
  simp only [expand_toNode] at found
  cases valid : command.toNode.validate with
  | error fault =>
      rw [valid] at found
      cases found
  | ok result =>
      rw [valid] at found
      cases found
      rfl

theorem MapCommand.mapM_prepare {commands : List MapCommand} {trees : List Node}
    (found : (commands.map toNode).mapM Node.prepare = .ok trees) :
    trees = commands.map toNode := by
  induction commands generalizing trees with
  | nil =>
      cases found
      rfl
  | cons command commands ih =>
      obtain ⟨first, others, here, there, rfl⟩ := cons_of_mapM found
      rw [List.map_cons, MapCommand.prepare_toNode here, ih there]

/-- What compilation has gone through once it has compiled statements of the map language. -/
theorem MapCommand.compiled_of_compile {commands : List MapCommand} {probe : Probe}
    {compiled : CompiledProbe}
    (declared : ∀ command ∈ commands, command.declared probe.symbols = true)
    (written : probe.statements = commands.map toNode)
    (found : (compile options types probe).1 = .ok compiled) :
    compileTyped options probe.name probe.symbols (commands.map (typed probe.symbols)) =
      .ok compiled := by
  obtain ⟨prepared, trees, finish, prepares, passed, compiled⟩ := compile_ok found
  rw [written] at prepares
  obtain rfl := MapCommand.mapM_prepare prepares
  have settled := inferTypes_toNode declared (by rw [passed])
  rw [passed] at settled
  cases settled
  exact compiled

end Inference

end TraceProbe
