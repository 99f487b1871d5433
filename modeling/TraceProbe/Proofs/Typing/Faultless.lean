import TraceProbe.Proofs.Flawless
import TraceProbe.Proofs.Typing.FixedPoint
import TraceProbe.Proofs.Typing.Preparation

/-!
# Faults of preparation and typing

Validation looks at the arguments of an operator behind the check of its arity,
and the typing rules rely on the shapes that validation leaves.  Passes keep
shapes, so this goes on until inference stops, however it does: what ends it is
a diagnostic that a user can act on.
-/

namespace TraceProbe

section Validation

variable {node : Node} {description : Description}

theorem actionable_lookup {operator : String} {args : List Node} {info : Info} {cause : Diagnostic}
    (failed : OperatorTable.language.lookup (.apply operator args info) = .error cause) :
    cause.Actionable := by
  unfold OperatorTable.lookup at failed
  simp only [Node.operator?] at failed
  split at failed
  · cases failed
  · cases failed
    exact ⟨rfl, rfl⟩

theorem actionable_checkArity {cause : Diagnostic}
    (failed : description.checkArity node = .error cause) :
    cause.Actionable := by
  unfold Description.checkArity at failed
  simp only at failed
  split at failed
  · cases failed
  · cases failed
    exact ⟨rfl, rfl⟩

theorem actionable_checkCount (node : Node) (least most : Nat) :
    Faults Fault.Actionable (Operator.checkCount node least most) := by
  unfold Operator.checkCount
  simp only
  split
  · exact faults_ok _
  · exact faults_error ⟨_, rfl, rfl, rfl⟩

theorem actionable_checkTarget (there : 0 < node.args.length) (text : Node → String) :
    Faults Fault.Actionable (do
      let target ← node.argument 0
      if !target.applies "[]" then throw (.shapeError node.loc (text target)) : Outcome) := by
  refine (Node.faults_argument there).bind ?_
  intro target _
  split
  · exact faults_error (actionable_shapeError _ _)
  · exact faults_ok _

/-- What a description accepts has the arguments that its operator looks at. -/
theorem actionable_checkShape (member : description ∈ OperatorTable.language.descriptions)
    (accepted : description.accepts node.args.length = true) :
    Faults Fault.Actionable (description.operator.checkShape node) := by
  simp only [OperatorTable.language, List.mem_cons, List.not_mem_nil, or_false] at member
  have two (fixed : 2 = node.args.length) : 0 < node.args.length := by omega
  have one (fixed : 1 = node.args.length) : 0 < node.args.length := by omega
  rcases member with rfl | rfl | rfl | rfl | rfl | rfl | rfl | rfl | rfl | rfl
  · exact node.actionable_memberName.bind fun _ _ => faults_ok _
  · exact node.actionable_memberName.bind fun _ _ => faults_ok _
  · exact faults_ok _
  · show Faults Fault.Actionable (if node.args.isEmpty then throw _ else pure () : Outcome)
    split
    · exact faults_error (actionable_shapeError _ _)
    · exact faults_ok _
  · exact faults_ok _
  · exact actionable_checkTarget (two (of_decide_eq_true accepted)) _
  · exact actionable_checkTarget (one (of_decide_eq_true accepted)) _
  · exact actionable_checkCount _ _ _
  · exact actionable_checkCount _ _ _
  · exact actionable_checkCount _ _ _

namespace Node

theorem actionable_validateApplication {operator : String} {args : List Node} {info : Info} :
    Faults Fault.Actionable (validateApplication (apply operator args info)) := by
  refine (faults_lift fun cause failed => ⟨cause, rfl, actionable_lookup failed⟩).bind ?_
  intro description looked
  refine (faults_lift fun cause failed => ⟨cause, rfl, actionable_checkArity failed⟩).bind ?_
  intro _ arity
  obtain ⟨member, -⟩ := name_of_lookup (ok_of_lift looked)
  refine actionable_checkShape member ?_
  have arity := ok_of_lift arity
  unfold Description.checkArity at arity
  simp only at arity
  split at arity
  · assumption
  · cases arity

theorem actionable_validateAll {nodes : List Node}
    (each : ∀ node ∈ nodes, Faults Fault.Actionable node.validate) :
    Faults Fault.Actionable (validateAll nodes) := by
  induction nodes with
  | nil => exact faults_ok _
  | cons node nodes ih =>
      exact (each node List.mem_cons_self).bind fun _ _ =>
        ih fun other member => each other (List.mem_cons_of_mem _ member)

theorem actionable_validate (node : Node) : Faults Fault.Actionable node.validate := by
  induction node using induct with
  | leaf node leaf =>
      cases node with
      | apply _ _ _ => cases leaf
      | ident _ _ | str _ _ | num _ _ _ => exact faults_ok _
  | apply operator args info ih =>
      exact actionable_validateApplication.bind fun _ _ => actionable_validateAll ih

theorem actionable_expandAll {nodes : List Node} {cause : Diagnostic}
    (each : ∀ node ∈ nodes, ∀ cause, node.expand.outcome = .error cause → cause.Actionable)
    (failed : (expandAll nodes).outcome = .error cause) : cause.Actionable := by
  induction nodes with
  | nil => cases failed
  | cons node nodes ih =>
      rw [expandAll] at failed
      rcases head : node.expand with ⟨tree, outcome⟩
      simp only [head] at failed
      cases outcome with
      | error fault =>
          cases failed
          exact each node List.mem_cons_self cause (by rw [head])
      | ok _ => exact ih (fun other member => each other (List.mem_cons_of_mem _ member)) failed

theorem actionable_expand (node : Node) {cause : Diagnostic}
    (failed : node.expand.outcome = .error cause) : cause.Actionable := by
  induction node using induct generalizing cause with
  | leaf node leaf =>
      cases node with
      | apply _ _ _ => cases leaf
      | ident _ _ | str _ _ | num _ _ _ => cases failed
  | apply operator args info ih =>
      rw [expand] at failed
      split at failed
      · rename_i looked
        cases failed
        exact actionable_lookup looked
      · split at failed
        · exact ih _ List.mem_cons_self failed
        · exact actionable_expandAll (fun arg member cause => ih arg member) failed

theorem actionable_prepare (statement : Node) : Faults Fault.Actionable statement.prepare :=
  (faults_lift fun cause failed => ⟨cause, rfl, statement.actionable_expand failed⟩).bind fun _ _ =>
    (actionable_validate _).bind fun _ _ => faults_ok _

end Node

end Validation

namespace Node

variable {node base collection key target : Node} {args nodes statements : List Node}
  {operator : String} {info : Info} {scope : Scope} {type collectionType keyType valueType : Ty}

theorem actionable_ofRule {rule : Except Fault Node} (faults : Faults Fault.Actionable rule)
    (scope : Scope) : Faults Fault.Actionable (Typed.ofRule node scope rule).outcome := by
  cases rule with
  | error fault => exact faults.passed_on
  | ok changed => exact faults_ok _

section Records

theorem actionable_memberType (node base : Node) (type : Ty) (member : String) :
    Faults Fault.Actionable (node.memberType base type member) := by
  unfold memberType
  split
  · exact faults_error (actionable_typeError _ _)
  · split
    · exact faults_ok _
    · exact faults_error (actionable_typeError _ _)

theorem actionable_typeDot (there : 0 < node.args.length) :
    Faults Fault.Actionable node.typeDot := by
  unfold typeDot
  split
  · exact faults_ok _
  · refine (faults_argument there).bind ?_
    intro base _
    split
    · exact faults_ok _
    · exact node.actionable_memberName.bind fun member _ =>
        (node.actionable_memberType base _ member).bind fun _ _ => faults_ok _

theorem actionable_typeDeref (there : 0 < node.args.length) :
    Faults Fault.Actionable node.typeDeref := by
  unfold typeDeref
  split
  · exact faults_ok _
  · refine (faults_argument there).bind ?_
    intro pointer _
    split
    · exact faults_ok _
    · exact faults_ok _
    · exact faults_error (actionable_typeError _ _)

theorem actionable_typeStructLiteral (node : Node) (scope : Scope) :
    Faults Fault.Actionable (node.typeStructLiteral scope).outcome := by
  unfold typeStructLiteral
  split <;> exact faults_ok _

end Records

section Maps

theorem actionable_elementType (node collection key : Node) (collectionType keyType : Ty) :
    Faults Fault.Actionable (node.elementType collection key collectionType keyType) := by
  have indexed (element : Ty) (length? : Option Nat) : Faults Fault.Actionable
      (node.indexedType collection key collectionType keyType element length?) := by
    unfold indexedType
    cases keyType.isScalar with
    | false => exact faults_error (actionable_typeError _ _)
    | true =>
        simp only [Bool.not_true, Bool.false_eq_true, if_false]
        split
        · split
          · exact faults_error (actionable_typeError _ _)
          · exact faults_ok _
        · exact faults_ok _
  unfold elementType
  split
  · exact indexed _ _
  · exact indexed _ _
  · split
    · exact faults_ok _
    · exact faults_error (actionable_typeError _ _)
  · exact faults_error (actionable_typeError _ _)

theorem actionable_typeCollection (node collection : Node) (keyType type : Ty) (scope : Scope) :
    Faults Fault.Actionable (node.typeCollection collection keyType type scope).outcome := by
  unfold typeCollection
  split
  · exact faults_error (actionable_typeError _ _)
  · exact faults_ok _

theorem actionable_checkElement (node collection key : Node) (collectionType keyType type : Ty) :
    Faults Fault.Actionable (node.checkElement collection key collectionType keyType type) := by
  unfold checkElement
  split
  · split
    · exact faults_error (actionable_typeError _ _)
    · split
      · exact faults_error (actionable_typeError _ _)
      · exact faults_ok _
  · exact faults_ok _

theorem actionable_typeSubscript (node : Node) (scope : Scope) :
    Faults Fault.Actionable (node.typeSubscript scope).outcome := by
  unfold typeSubscript
  split
  · split
    · exact actionable_ofRule
        ((node.actionable_elementType _ _ _ _).bind fun _ _ => faults_ok _) scope
    · exact actionable_typeCollection _ _ _ _ _
    · exact actionable_checkElement _ _ _ _ _ _
    · exact faults_ok _
  · exact faults_ok _

theorem actionable_checkAssignable {target value : Node} (two : node.args = [target, value])
    (targetType valueType : Ty) :
    Faults Fault.Actionable (node.checkAssignable targetType valueType) := by
  unfold checkAssignable
  rw [two]
  split
  · exact faults_ok _
  · exact faults_error (actionable_typeError _ _)

theorem actionable_typeTarget {value : Node} (two : node.args = [target, value]) (valueType : Ty)
    (scope : Scope) : Faults Fault.Actionable (node.typeTarget target valueType scope).outcome := by
  unfold typeTarget
  split
  · exact faults_ok _
  · exact actionable_ofRule
      ((actionable_checkAssignable two _ _).bind fun _ _ => faults_ok _) scope

theorem actionable_typeAssign {target value : Node} (two : node.args = [target, value])
    (scope : Scope) : Faults Fault.Actionable (node.typeAssign scope).outcome := by
  unfold typeAssign
  split
  · exact faults_ok _
  · rw [two]
    dsimp only
    split
    · exact faults_ok _
    · split
      · exact faults_error (actionable_typeError _ _)
      · exact actionable_typeTarget two _ _

end Maps

section Strings

theorem actionable_foldLiterals {operands : List Node}
    (typed : ∀ operand ∈ operands, operand.type?.isSome = true) :
    Faults Fault.Actionable (foldLiterals operands).2 := by
  induction operands with
  | nil => exact faults_ok _
  | cons operand rest ih =>
      have rest := ih fun other member => typed other (List.mem_cons_of_mem _ member)
      rw [foldLiterals]
      split
      · exact rest
      · split
        · exact rest
        · exact faults_error (actionable_typeError _ _)
      · rename_i untyped
        have here := typed operand List.mem_cons_self
        rw [untyped] at here
        cases here

theorem actionable_typeStrcmp (node : Node) (scope : Scope) :
    Faults Fault.Actionable (node.typeStrcmp scope).outcome := by
  unfold typeStrcmp
  split
  · exact faults_ok _
  · rename_i waits
    simp only [Bool.or_eq_true, Bool.not_eq_true', not_or, Bool.not_eq_false] at waits
    have folded := actionable_foldLiterals (List.all_eq_true.mp waits.2)
    dsimp only
    split
    · rename_i fault failed
      exact failed ▸ folded
    · split
      · exact faults_error (actionable_typeError _ _)
      · exact faults_ok _

theorem actionable_checkAddress (node : Node) {source : Node} (typed : source.type?.isSome = true) :
    Faults Fault.Actionable (node.checkAddress source) := by
  obtain ⟨type, typed⟩ := Option.isSome_iff_exists.mp typed
  refine (faults_knownType typed).bind ?_
  intro type _
  split
  · exact faults_ok _
  · exact faults_error (actionable_typeError _ _)

theorem actionable_readLength (node : Node) {length : Node} (typed : length.type?.isSome = true)
    (maxStack : Nat) : Faults Fault.Actionable (node.readLength length maxStack) := by
  unfold readLength
  split
  · obtain ⟨type, typed⟩ := Option.isSome_iff_exists.mp typed
    exact (faults_knownType typed).bind fun _ _ => faults_error (actionable_typeError _ _)
  · split
    · exact faults_error (actionable_typeError _ _)
    · split
      · exact faults_error (actionable_typeError _ _)
      · exact faults_ok _

theorem actionable_typeRead (there : 0 < node.args.length) (options : Options) :
    Faults Fault.Actionable (node.typeRead options) := by
  unfold typeRead
  split
  · exact faults_ok _
  · rename_i waits
    simp only [Bool.or_eq_true, Bool.not_eq_true', not_or, Bool.not_eq_false] at waits
    have typed (index : Nat) (arg : Node) (here : node.args[index]? = some arg) :
        arg.type?.isSome = true := List.all_eq_true.mp waits.2 arg (List.mem_of_getElem? here)
    refine (faults_argument there).bind ?_
    intro source found
    have here : node.args[0]? = some source := by
      unfold argument at found
      split at found
      · cases found
        assumption
      · cases found
    refine (node.actionable_checkAddress (typed 0 source here)).bind ?_
    intro _ _
    split
    · exact faults_ok _
    · rename_i length found
      exact (node.actionable_readLength (typed 1 length found) _).bind fun _ _ => faults_ok _

end Strings

section Passes

variable (options : Options)

theorem actionable_inferApplication (shape : Shape operator args) (scope : Scope) :
    Faults Fault.Actionable
      (inferApplication options (apply operator args info) scope).outcome := by
  have there (operator : String) (first : Node) (rest : List Node) (info : Info) :
      0 < (apply operator (first :: rest) info).args.length := Nat.zero_lt_succ _
  cases shape with
  | dot named => exact actionable_ofRule (actionable_typeDot (there ..)) scope
  | deref pointer => exact actionable_ofRule (actionable_typeDeref (there ..)) scope
  | structLiteral some => exact actionable_typeStructLiteral _ scope
  | subscript collection key => exact actionable_typeSubscript _ scope
  | assign value targets => exact actionable_typeAssign rfl scope
  | delete targets => exact faults_ok _
  | strcmp left right => exact actionable_typeStrcmp _ scope
  | mem source short => exact actionable_ofRule (actionable_typeRead (there ..) options) scope
  | str source short => exact actionable_ofRule (actionable_typeRead (there ..) options) scope

theorem actionable_inferAll
    (each : ∀ node ∈ nodes, ∀ scope, Faults Fault.Actionable (infer options node scope).outcome)
    (scope : Scope) : Faults Fault.Actionable (inferAll options nodes scope).outcome := by
  induction nodes generalizing scope with
  | nil => exact faults_ok _
  | cons node nodes ih =>
      have first := each node List.mem_cons_self scope
      rw [inferAll]
      generalize infer options node scope = visit at first ⊢
      obtain ⟨tree, middle, outcome⟩ := visit
      cases outcome with
      | error fault => exact first
      | ok _ => exact ih (fun other member => each other (List.mem_cons_of_mem _ member)) middle

theorem actionable_infer (shaped : node.Shaped) (scope : Scope) :
    Faults Fault.Actionable (infer options node scope).outcome := by
  -- Visits of the arguments keep their shapes.
  induction node using induct generalizing scope with
  | leaf node leaf =>
      cases node with
      | apply _ _ _ => cases leaf
      | ident name info =>
          rw [infer]
          split <;> exact faults_ok _
      | str _ _ | num _ _ _ => exact faults_ok _
  | apply operator args info ih =>
      have inner := actionable_inferAll options
        (fun arg member => ih arg member (shaped.arg member)) scope
      have kept := (visitedAll_statements options args scope).kept
      rw [infer]
      generalize inferAll options args scope = visits at inner kept ⊢
      obtain ⟨trees, middle, outcome⟩ := visits
      cases outcome with
      | error fault => exact inner
      | ok _ =>
          have shape := shaped operator args info .root
          exact actionable_inferApplication options (shape.of_bares kept.bares.symm) middle

theorem KeptAll.shaped {trees : List Node} (kept : KeptAll nodes trees)
    (shaped : ∀ node ∈ nodes, node.Shaped) : ∀ tree ∈ trees, tree.Shaped := by
  intro tree member
  obtain ⟨index, place⟩ := List.mem_iff_getElem?.mp member
  obtain ⟨inside, -⟩ := List.getElem?_eq_some_iff.mp place
  have there := List.getElem?_eq_getElem (kept.length ▸ inside : index < nodes.length)
  exact (shaped _ (List.mem_of_getElem? there)).of_bare (kept.each index _ tree there place).bare

theorem actionable_unresolved (untyped : (firstUntypedOf? statements).isSome = true) :
    Faults Fault.Actionable (.error (unresolved statements) : Outcome) := by
  obtain ⟨node, found⟩ := Option.isSome_iff_exists.mp untyped
  unfold unresolved
  rw [found]
  exact faults_error ⟨_, rfl, rfl, rfl⟩

/-- Inference only runs out of passes while a node is untyped, unless there are no
passes at all. -/
theorem actionable_inferPasses (limit : Nat)
    (some : 0 < limit ∨ (firstUntypedOf? statements).isSome = true)
    (shaped : ∀ statement ∈ statements, statement.Shaped) (scope : Scope) :
    Faults Fault.Actionable (inferPasses options limit statements scope).outcome := by
  induction limit generalizing statements scope with
  | zero => exact actionable_unresolved (some.resolve_left (Nat.lt_irrefl 0))
  | succ limit ih =>
      have pass := actionable_inferAll options
        (fun node member => actionable_infer options (shaped node member)) scope
      have kept := (visitedAll_statements options statements scope).kept
      rw [inferPasses]
      generalize inferAll options statements scope = visits at pass kept ⊢
      obtain ⟨trees, middle, outcome⟩ := visits
      cases outcome with
      | error fault => exact pass
      | ok _ =>
          dsimp only
          split
          · exact faults_ok _
          · rename_i typed
            have untyped : (firstUntypedOf? trees).isSome = true := by
              simpa [Option.isSome_iff_ne_none] using typed
            split
            · exact actionable_unresolved untyped
            · exact ih (.inr untyped) (kept.shaped shaped) middle

/-- Inference of statements with the shapes that preparation leaves. -/
theorem actionable_inferTypes (some : 0 < options.maxPasses)
    (shaped : ∀ statement ∈ statements, statement.Shaped) (scope : Scope) :
    Faults Fault.Actionable (inferTypes options statements scope).outcome :=
  actionable_inferPasses options options.maxPasses (.inl some) shaped scope

theorem flawless_inferTypes (shaped : ∀ statement ∈ statements, statement.Shaped) (scope : Scope) :
    Flawless (inferTypes options statements scope).outcome := by
  rcases Nat.eq_zero_or_pos options.maxPasses with none | some
  · rw [inferTypes, none]
    unfold inferPasses unresolved
    split <;> exact flawless_diagnostic _
  · exact (actionable_inferTypes options some shaped scope).flawless

end Passes

end Node

end TraceProbe
