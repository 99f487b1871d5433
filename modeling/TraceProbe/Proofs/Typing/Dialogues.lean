import TraceProbe.Proofs.Typing.Renaming

/-!
# Dialogues with the registry

Inference uses the registry for one thing: a struct literal asks for the
anonymous struct of its members.  A dialogue is a computation cut at these
questions, so that others may ask theirs in between.  Held without a break,
the dialogue of inference is inference.
-/

namespace TraceProbe

/-- A computation that asks a registry for anonymous structs. -/
inductive Dialogue (α : Type) where
  | done (result : α)
  | ask (members : List Ty) (next : Ty → Dialogue α)

namespace Dialogue

variable {α β : Type}

/-- The dialogue that goes on with the result of another. -/
def andThen : Dialogue α → (α → Dialogue β) → Dialogue β
  | done result, next => next result
  | ask members rest, next => ask members fun type => (rest type).andThen next

/-- The dialogue without a break. -/
def run : Dialogue α → Registry → α × Registry
  | done result, types => (result, types)
  | ask members next, types =>
      let answer := types.anonymousStruct members
      (next answer.1).run answer.2

theorem run_andThen (dialogue : Dialogue α) (next : α → Dialogue β) (types : Registry) :
    (dialogue.andThen next).run types =
      (next (dialogue.run types).1).run (dialogue.run types).2 := by
  induction dialogue generalizing types with
  | done result => rfl
  | ask members rest ih => exact ih _ _

/-- Two dialogues that ask the same up to a renaming, as long as the answers are
the same up to it, and then end with related results. -/
inductive Renamed (naming : Renaming) (same : α → β → Prop) : Dialogue α → Dialogue β → Prop
  | done {result : α} {other : β} : same result other →
      Renamed naming same (done result) (done other)
  | ask {members : List Ty} {next : Ty → Dialogue α} {next' : Ty → Dialogue β} :
      (∀ type, Renamed naming same (next type) (next' (type.rename naming))) →
        Renamed naming same (ask members next) (ask (members.map (Ty.rename naming)) next')

theorem Renamed.andThen {γ δ : Type} {naming : Renaming} {same : α → β → Prop}
    {later : γ → δ → Prop} {left : Dialogue α} {right : Dialogue β} {next : α → Dialogue γ}
    {next' : β → Dialogue δ} (renamed : Renamed naming same left right)
    (each : ∀ result other, same result other → Renamed naming later (next result) (next' other)) :
    Renamed naming later (left.andThen next) (right.andThen next') := by
  induction renamed with
  | done related => exact each _ _ related
  | ask _ ih => exact .ask ih

end Dialogue

/-- What inference leaves of a tree and the symbols. -/
structure Inferred (α : Type) where
  tree : α
  symbols : Symbols
  outcome : Outcome

/-- What inference leaves, alike up to a renaming. -/
structure Inferred.Renamed {α : Type} (rename : α → α) (naming : Renaming)
    (left right : Inferred α) : Prop where
  tree : right.tree = rename left.tree
  symbols : right.symbols = left.symbols.rename naming
  outcome : Agrees Eq left.outcome right.outcome

/-- A typing step without the registry it leaves. -/
def Typed.inferred {α : Type} (typed : Typed α) : Inferred α :=
  ⟨typed.tree, typed.scope.symbols, typed.outcome⟩

namespace Node

variable {naming : Renaming}

/-- The members of the struct that an application asks the registry for. -/
def wanted? (node : Node) : Option (List Ty) :=
  match OperatorTable.language.lookup node, node.type? with
  | .ok description, none =>
      if description.operator = .structLiteral then valueTypes? node.args else none
  | _, _ => none

/-- The typing step at an application. -/
def inferApplicationAsking (options : Options) (node : Node) (symbols : Symbols) :
    Dialogue (Inferred Node) :=
  match node.wanted? with
  | some members =>
      .ask members fun type => .done (Typed.fill node type { symbols := symbols }).inferred
  | none => .done (inferApplication options node { symbols := symbols }).inferred

mutual

/-- One inference pass over a tree. -/
def inferAsking (options : Options) : Node → Symbols → Dialogue (Inferred Node)
  | apply operator args info, symbols =>
      (inferAllAsking options args symbols).andThen fun inner =>
        match inner.outcome with
        | .error fault => .done ⟨apply operator inner.tree info, inner.symbols, .error fault⟩
        | .ok () => inferApplicationAsking options (apply operator inner.tree info) inner.symbols
  | ident name info, symbols =>
      .done (infer options (ident name info) { symbols := symbols }).inferred
  | str value info, symbols =>
      .done (infer options (str value info) { symbols := symbols }).inferred
  | num value unsigned info, symbols =>
      .done (infer options (num value unsigned info) { symbols := symbols }).inferred
termination_by structural node => node

/-- One inference pass over several trees. -/
def inferAllAsking (options : Options) : List Node → Symbols → Dialogue (Inferred (List Node))
  | [], symbols => .done ⟨[], symbols, .ok ()⟩
  | node :: nodes, symbols =>
      (inferAsking options node symbols).andThen fun first =>
        match first.outcome with
        | .error fault => .done ⟨first.tree :: nodes, first.symbols, .error fault⟩
        | .ok () =>
            (inferAllAsking options nodes first.symbols).andThen fun others =>
              .done ⟨first.tree :: others.tree, others.symbols, others.outcome⟩
termination_by structural nodes => nodes

end

/-- Inference passes over all statements, at most so many. -/
def inferPassesAsking (options : Options) :
    Nat → List Node → Symbols → Dialogue (Inferred (List Node))
  | 0, statements, symbols => .done ⟨statements, symbols, .error (unresolved statements)⟩
  | passes + 1, statements, symbols =>
      (inferAllAsking options statements symbols).andThen fun result =>
        match result.outcome with
        | .error fault => .done ⟨result.tree, result.symbols, .error fault⟩
        | .ok () =>
            if (firstUntypedOf? result.tree).isNone then .done result
            else if typedCounts result.tree = typedCounts statements then
              .done ⟨result.tree, result.symbols, .error (unresolved result.tree)⟩
            else inferPassesAsking options passes result.tree result.symbols

section Steps

variable {options : Options} {node : Node} {scope scope' : Scope} {description : Description}

/-- What the table says about every operator, as far as typing asks for it. -/
theorem facts_of_lookup (found : OperatorTable.language.lookup node = .ok description) :
    description.result = .void ∧
      (description.operator = .structLiteral → description.fixedResult = false) := by
  unfold OperatorTable.lookup at found
  cases named : node.operator? with
  | none =>
      rw [named] at found
      cases found
  | some name =>
      cases known : OperatorTable.language.get? name with
      | none =>
          simp only [named, known] at found
          cases found
      | some other =>
          simp only [named, known] at found
          cases found
          have member := List.mem_of_find?_eq_some known
          simp only [OperatorTable.language, List.mem_cons, List.not_mem_nil, or_false] at member
          rcases member with rfl | rfl | rfl | rfl | rfl | rfl | rfl | rfl | rfl | rfl <;>
            exact ⟨rfl, fun other => by first | rfl | cases other⟩

theorem wanted?_rename (node : Node) :
    (node.rename naming).wanted? = node.wanted?.map (List.map (Ty.rename naming)) := by
  unfold wanted?
  rw [type?_rename]
  rcases @lookup_rename naming node with
    ⟨description, found, found'⟩ | ⟨cause, other, found, found', -⟩
  · rw [found, found', args_rename, valueTypes?_rename]
    cases node.type? with
    | some type => rfl
    | none =>
        simp only [Option.map_none]
        split
        · rfl
        · rfl
  · rw [found, found']
    rfl

theorem inferApplication_of_wanted {members : List Ty} (wants : node.wanted? = some members)
    (scope : Scope) : inferApplication options node scope =
      .fill node (scope.types.anonymousStruct members).1
        { scope with types := (scope.types.anonymousStruct members).2 } := by
  unfold wanted? at wants
  split at wants
  · rename_i description found free
    split at wants
    · rename_i isLiteral
      simp only [inferApplication, found, (facts_of_lookup found).2 isLiteral, isLiteral,
        Bool.false_eq_true, if_false, Operator.infer, typeStructLiteral, free, wants]
    · cases wants
  · cases wants

/-- The step over another registry, which it hands on. -/
def Silent (rule : Scope → Typed Node) : Prop :=
  ∀ (scope : Scope) (types : Registry),
    rule { scope with types := types } =
      { rule scope with scope := { (rule scope).scope with types := types } }

theorem silent_ofRule (node : Node) (rule : Except Fault Node) :
    Silent (Typed.ofRule node · rule) := by
  intro scope types
  cases rule <;> rfl

theorem silent_subscript (node : Node) : Silent node.typeSubscript := by
  intro scope types
  unfold typeSubscript
  split
  · split
    · exact silent_ofRule node _ scope types
    · unfold typeCollection
      split <;> rfl
    · rfl
    · rfl
  · rfl

theorem silent_assign (node : Node) : Silent node.typeAssign := by
  intro scope types
  unfold typeAssign
  split
  · rfl
  · split
    · split
      · rfl
      · split
        · rfl
        · unfold typeTarget
          split
          · rfl
          · exact silent_ofRule node _ scope types
    · rfl

theorem silent_strcmp (node : Node) : Silent node.typeStrcmp := by
  intro scope types
  unfold typeStrcmp
  split
  · rfl
  · dsimp only
    split
    · rfl
    · split <;> rfl

theorem silent_infer (options : Options) {operator : Operator} (other : operator ≠ .structLiteral)
    (node : Node) : Silent (operator.infer options node) := by
  cases operator with
  | dot => exact silent_ofRule node node.typeDot
  | arrow => exact silent_ofRule node node.typeArrow
  | deref => exact silent_ofRule node node.typeDeref
  | structLiteral => exact absurd rfl other
  | subscript => exact silent_subscript node
  | assign => exact silent_assign node
  | delete => exact fun _ _ => rfl
  | strcmp => exact silent_strcmp node
  | mem | str => exact silent_ofRule node (node.typeRead options)

/-- A struct literal that has its type already, or waits for its members. -/
theorem typeStructLiteral_of_free (found : OperatorTable.language.lookup node = .ok description)
    (isLiteral : description.operator = .structLiteral) (free : node.wanted? = none)
    (scope : Scope) : node.typeStructLiteral scope = ⟨node, scope, .ok ()⟩ := by
  unfold wanted? at free
  rw [found] at free
  unfold typeStructLiteral
  cases typed : node.type? with
  | some type => rfl
  | none =>
      simp only [typed, isLiteral, if_true] at free
      rw [free]

theorem silent_application (options : Options) (free : node.wanted? = none) :
    Silent (inferApplication options node) := by
  unfold inferApplication
  cases found : OperatorTable.language.lookup node with
  | error cause => exact fun _ _ => rfl
  | ok description =>
      by_cases isLiteral : description.operator = .structLiteral
      · intro scope types
        simp only [(facts_of_lookup found).2 isLiteral, isLiteral, Bool.false_eq_true, if_false,
          Operator.infer, typeStructLiteral_of_free found isLiteral free]
      · exact silent_infer options isLiteral _

theorem inferApplication_rename (options : Options) (free : node.wanted? = none)
    (same : scope'.symbols = scope.symbols.rename naming) :
    Typed.Renamed naming (inferApplication options node scope)
      (inferApplication options (node.rename naming) scope') := by
  have free' : (node.rename naming).wanted? = none := by rw [wanted?_rename, free]; rfl
  unfold inferApplication
  rcases @lookup_rename naming node with
    ⟨description, found, found'⟩ | ⟨cause, other, found, found', equal⟩
  · simp only [found, found']
    by_cases isLiteral : description.operator = .structLiteral
    · simp only [(facts_of_lookup found).2 isLiteral, isLiteral, Bool.false_eq_true, if_false,
        Operator.infer, typeStructLiteral_of_free found isLiteral free,
        typeStructLiteral_of_free found' isLiteral free']
      exact Typed.renamed_same (.ok rfl) same
    · cases description.fixedResult with
      | false => exact infer_rename options isLiteral node same
      | true =>
          have filled := @fillType_rename naming node .void
          rw [(facts_of_lookup found).1]
          simp only [if_true]
          rw [show (Ty.void : Ty) = Ty.rename naming .void from rfl, filled]
          exact infer_rename options isLiteral _ same
  · simp only [found, found']
    exact Typed.renamed_same (.error (congrArg Fault.diagnostic equal)) same

end Steps

section Runs

variable {options : Options}

theorem run_inferApplicationAsking (node : Node) (scope : Scope) :
    (inferApplicationAsking options node scope.symbols).run scope.types =
      ((inferApplication options node scope).inferred,
        (inferApplication options node scope).scope.types) := by
  unfold inferApplicationAsking
  cases wants : node.wanted? with
  | some members =>
      rw [inferApplication_of_wanted wants scope]
      rfl
  | none =>
      have carried := silent_application options wants { symbols := scope.symbols } scope.types
      dsimp only at carried ⊢
      rw [carried]
      rfl

theorem run_inferAllAsking {nodes : List Node} (each : ∀ node ∈ nodes, ∀ scope : Scope,
      (inferAsking options node scope.symbols).run scope.types =
        ((infer options node scope).inferred, (infer options node scope).scope.types))
    (scope : Scope) :
    (inferAllAsking options nodes scope.symbols).run scope.types =
      ((inferAll options nodes scope).inferred, (inferAll options nodes scope).scope.types) := by
  induction nodes generalizing scope with
  | nil => rfl
  | cons node nodes ih =>
      rw [inferAllAsking, Dialogue.run_andThen, each node List.mem_cons_self, inferAll]
      generalize infer options node scope = first
      obtain ⟨tree, middle, outcome⟩ := first
      cases outcome with
      | error fault => rfl
      | ok _ =>
          simp only [Typed.inferred]
          rw [Dialogue.run_andThen,
            ih (fun other member => each other (List.mem_cons_of_mem _ member)) middle]
          rfl

theorem run_inferAsking (node : Node) (scope : Scope) :
    (inferAsking options node scope.symbols).run scope.types =
      ((infer options node scope).inferred, (infer options node scope).scope.types) := by
  induction node using induct generalizing scope with
  | leaf node leaf =>
      cases node with
      | apply _ _ _ => cases leaf
      | ident name info =>
          simp only [inferAsking, infer, Dialogue.run]
          split <;> rfl
      | str _ _ | num _ _ _ => rfl
  | apply operator args info ih =>
      rw [inferAsking, Dialogue.run_andThen, run_inferAllAsking ih, infer]
      generalize inferAll options args scope = inner
      obtain ⟨trees, middle, outcome⟩ := inner
      cases outcome with
      | error fault => rfl
      | ok _ => exact run_inferApplicationAsking _ middle

theorem run_inferPassesAsking (passes : Nat) (statements : List Node) (scope : Scope) :
    (inferPassesAsking options passes statements scope.symbols).run scope.types =
      ((inferPasses options passes statements scope).inferred,
        (inferPasses options passes statements scope).scope.types) := by
  induction passes generalizing statements scope with
  | zero => rfl
  | succ passes ih =>
      rw [inferPassesAsking, Dialogue.run_andThen,
        run_inferAllAsking fun node _ => run_inferAsking node, inferPasses]
      generalize inferAll options statements scope = pass
      obtain ⟨trees, middle, outcome⟩ := pass
      cases outcome with
      | error fault => rfl
      | ok _ =>
          show Dialogue.run (if (firstUntypedOf? trees).isNone then .done _
            else if typedCounts trees = typedCounts statements then .done _
            else inferPassesAsking options passes trees middle.symbols) middle.types = _
          dsimp only
          split
          · rfl
          · split
            · rfl
            · exact ih trees middle

end Runs

section Renamed

variable {options : Options}

theorem renamed_inferApplicationAsking (node : Node) (symbols : Symbols) :
    Dialogue.Renamed naming (Inferred.Renamed (rename naming) naming)
      (inferApplicationAsking options node symbols)
      (inferApplicationAsking options (node.rename naming) (symbols.rename naming)) := by
  unfold inferApplicationAsking
  rw [wanted?_rename]
  cases wants : node.wanted? with
  | some members =>
      refine .ask fun type => .done ?_
      have filled := @Typed.renamed_fill naming node { symbols := symbols }
        { symbols := symbols.rename naming } type rfl
      exact ⟨filled.tree, filled.symbols, filled.outcome⟩
  | none =>
      have step := @inferApplication_rename naming node { symbols := symbols }
        { symbols := symbols.rename naming } options wants rfl
      exact .done ⟨step.tree, step.symbols, step.outcome⟩

theorem renamed_inferAllAsking {nodes : List Node} (each : ∀ node ∈ nodes, ∀ symbols,
      Dialogue.Renamed naming (Inferred.Renamed (rename naming) naming)
        (inferAsking options node symbols)
        (inferAsking options (node.rename naming) (symbols.rename naming)))
    (symbols : Symbols) :
    Dialogue.Renamed naming (Inferred.Renamed (List.map (rename naming)) naming)
      (inferAllAsking options nodes symbols)
      (inferAllAsking options (nodes.map (rename naming)) (symbols.rename naming)) := by
  induction nodes generalizing symbols with
  | nil => exact .done ⟨rfl, rfl, .ok rfl⟩
  | cons node nodes ih =>
      rw [List.map_cons, inferAllAsking, inferAllAsking]
      refine (each node List.mem_cons_self symbols).andThen ?_
      intro first other same
      obtain ⟨tree, middle, outcome⟩ := first
      obtain ⟨tree', middle', outcome'⟩ := other
      obtain ⟨rfl, rfl, ends⟩ := same
      cases ends with
      | error equal => exact .done ⟨rfl, rfl, .error equal⟩
      | ok _ =>
          refine (ih (fun later member => each later (List.mem_cons_of_mem _ member))
            middle).andThen
            fun others others' same => .done ⟨?_, same.symbols, same.outcome⟩
          rw [same.tree]
          rfl

theorem renamed_inferAsking (node : Node) (symbols : Symbols) :
    Dialogue.Renamed naming (Inferred.Renamed (rename naming) naming)
      (inferAsking options node symbols)
      (inferAsking options (node.rename naming) (symbols.rename naming)) := by
  induction node using induct generalizing symbols with
  | leaf node leaf =>
      cases node with
      | apply _ _ _ => cases leaf
      | ident name info =>
          refine .done ?_
          have typed : (info.rename naming).type.isSome = info.type.isSome :=
            isSome_type_rename info
          cases known : info.type.isSome with
          | true =>
              simp only [infer, Info.rename, Option.isSome_map, known, if_true]
              exact ⟨rfl, rfl, .ok rfl⟩
          | false =>
              simp only [infer, Info.rename, Option.isSome_map, known, Bool.false_eq_true, if_false,
                Symbols.resolve_rename]
              exact ⟨rfl, rfl, .ok rfl⟩
      | str value info =>
          exact .done ⟨fillType_rename (str value info) (literalType value), rfl, .ok rfl⟩
      | num value unsigned info =>
          refine .done ⟨?_, rfl, .ok rfl⟩
          have filled := @fillType_rename naming (num value unsigned info)
            (numberType unsigned)
          rw [show (numberType unsigned).rename naming = numberType unsigned by
            cases unsigned <;> rfl] at filled
          exact filled
  | apply operator args info ih =>
      rw [rename_apply, inferAsking, inferAsking]
      refine (renamed_inferAllAsking ih symbols).andThen ?_
      intro inner other same
      obtain ⟨trees, middle, outcome⟩ := inner
      obtain ⟨trees', middle', outcome'⟩ := other
      obtain ⟨rfl, rfl, ends⟩ := same
      cases ends with
      | error equal => exact .done ⟨(rename_apply _ _ _).symm, rfl, .error equal⟩
      | ok _ =>
          dsimp only
          rw [← rename_apply]
          exact renamed_inferApplicationAsking _ middle

theorem unresolved_rename (statements : List Node) :
    (unresolved statements).outline =
      (unresolved (statements.map (rename naming))).outline := by
  unfold unresolved
  rw [firstUntypedOf?_rename]
  cases firstUntypedOf? statements with
  | none => rfl
  | some node => exact congrArg (Fault.diagnostic <| .unresolvedType "" ·) (loc_rename node).symm

theorem renamed_inferPassesAsking (passes : Nat) (statements : List Node) (symbols : Symbols) :
    Dialogue.Renamed naming (Inferred.Renamed (List.map (rename naming)) naming)
      (inferPassesAsking options passes statements symbols)
      (inferPassesAsking options passes (statements.map (rename naming))
        (symbols.rename naming)) := by
  induction passes generalizing statements symbols with
  | zero => exact .done ⟨rfl, rfl, .error (unresolved_rename statements)⟩
  | succ passes ih =>
      rw [inferPassesAsking, inferPassesAsking]
      refine (renamed_inferAllAsking (fun node _ => renamed_inferAsking node) symbols).andThen ?_
      intro pass other same
      obtain ⟨trees, middle, outcome⟩ := pass
      obtain ⟨trees', middle', outcome'⟩ := other
      obtain ⟨rfl, rfl, ends⟩ := same
      cases ends with
      | error equal => exact .done ⟨rfl, rfl, .error equal⟩
      | ok _ =>
          dsimp only
          rw [firstUntypedOf?_rename, Option.isNone_map, typedCounts_rename, typedCounts_rename]
          split
          · exact .done ⟨rfl, rfl, .ok rfl⟩
          · split
            · exact .done ⟨rfl, rfl, .error (unresolved_rename trees)⟩
            · exact ih trees middle

end Renamed

end Node

end TraceProbe
