import TraceProbe.Proofs.Node.Growth
import TraceProbe.Proofs.Typing.Inversion
import TraceProbe.Proofs.Typing.Passes
import TraceProbe.Proofs.Typing.Scope

/-!
# Progress of inference

A typing step leaves what is recorded, and if it changes anything and does not
fail, then one more node is typed behind it.  So a pass that types no node was
idle everywhere, and it is idle again.
-/

namespace TraceProbe.Node

/-- What a typing step at a node does.  Which of the three it is depends on the
node alone. -/
inductive Step (rule : Scope → Typed Node) (node : Node) : Prop
  | idle : (∀ scope, rule scope = ⟨node, scope, .ok ()⟩) → Step rule node
  | fails {tree : Node} {fault : Fault} : Kept node tree →
      (∀ scope, rule scope = ⟨tree, scope, .error fault⟩) → Step rule node
  | advances : (∀ scope, ∃ tree later, rule scope = ⟨tree, later, .ok ()⟩ ∧ Kept node tree ∧
      node.typedCount < tree.typedCount ∧ scope.symbols.Later later.symbols) → Step rule node

/-- A tree that has grown by a type. -/
structure Advance (node tree : Node) : Prop where
  kept : Kept node tree
  more : node.typedCount < tree.typedCount

variable {node tree : Node} {type : Ty} {options : Options}

section Filling

theorem typedCount_withType (free : node.type? = none) (type : Ty) :
    (node.withType type).typedCount = node.typedCount + 1 := by
  have untyped : node.info.type = none := free
  cases node with
  | apply operator args info | ident name info | str value info | num value unsigned info =>
      have none : info.type = none := untyped
      simp [withType, withInfo, typedCount, none, Nat.add_comm]

theorem Kept.fillType (node : Node) (type : Ty) : Kept node (node.fillType type) := by
  cases typed : node.type? with
  | none => rw [fillType_of_free typed]; exact .withType typed type
  | some known => rw [fillType_of_type? typed]; exact .refl node

theorem Kept.fill (kept : Kept node tree) (free : tree.type? = none) (type : Ty) :
    Advance node (tree.fillType type) := by
  refine ⟨kept.trans (.fillType tree type), ?_⟩
  rw [fillType_of_free free, typedCount_withType free]
  exact Nat.lt_succ_of_le kept.typedCount_le

theorem type?_modifyArgument (node : Node) (index : Nat) (change : Node → Node) :
    (node.modifyArgument index change).type? = node.type? := by
  cases node <;> rfl

theorem Kept.modifyArgument (node : Node) (index : Nat) {change : Node → Node}
    (grows : ∀ arg, Kept arg (change arg)) : Kept node (node.modifyArgument index change) := by
  cases node with
  | apply operator args info => exact .withArgs (.modify args index fun arg _ => grows arg)
  | ident _ _ | str _ _ | num _ _ _ => exact .refl _

theorem advance_folded (free : node.type? = none) (index : Nat) (type : Ty) :
    Advance node ((node.modifyArgument index asVirtual).fillType type) := by
  have marked := Kept.modifyArgument node index Kept.asVirtual
  have untyped := (type?_modifyArgument node index asVirtual).trans free
  exact marked.fill untyped type

end Filling

section Rules

theorem step_ofRule {rule : Except Fault Node}
    (each : ∀ changed, rule = .ok changed → changed = node ∨ Advance node changed) :
    Step (Typed.ofRule node · rule) node := by
  cases rule with
  | error fault => exact .fails (.refl node) fun _ => rfl
  | ok changed =>
      rcases each changed rfl with rfl | advance
      · exact .idle fun _ => rfl
      · exact .advances fun scope => ⟨changed, scope, rfl, advance.kept, advance.more, .refl _⟩

theorem step_error (fault : Fault) : Step (fun scope => ⟨node, scope, .error fault⟩) node :=
  .fails (.refl node) fun _ => rfl

theorem advance_member {base : Node} (free : node.type? = none)
    (found : node.typeMember base type = .ok tree) : Advance node tree := by
  obtain ⟨name, fieldType, -, -, rfl⟩ := typeMember_ok found
  exact advance_folded free 1 fieldType

theorem step_dot (node : Node) : Step (Typed.ofRule node · node.typeDot) node := by
  refine step_ofRule ?_
  intro changed found
  obtain same | ⟨free, base, type, -, -, found⟩ := typeDot_ok found
  · exact .inl same
  · exact .inr (advance_member free found)

theorem step_arrow (node : Node) : Step (Typed.ofRule node · node.typeArrow) node := by
  refine step_ofRule ?_
  intro changed found
  obtain same | ⟨free, base, type, -, -, found⟩ := typeArrow_ok found
  · exact .inl same
  · exact .inr (advance_member free found)

theorem step_deref (node : Node) : Step (Typed.ofRule node · node.typeDeref) node := by
  refine step_ofRule ?_
  intro changed found
  obtain same | ⟨free, pointer, target, -, -, rfl⟩ := typeDeref_ok found
  · exact .inl same
  · exact .inr ((Kept.refl node).fill free target)

theorem step_read (options : Options) (node : Node) :
    Step (Typed.ofRule node · (node.typeRead options)) node := by
  refine step_ofRule ?_
  intro changed found
  obtain same | ⟨free, source, -, -, ⟨-, rfl⟩ | ⟨length, count, -, -, rfl⟩⟩ := typeRead_ok found
  · exact .inl same
  · exact .inr ((Kept.refl node).fill free _)
  · exact .inr (advance_folded free 1 _)

theorem later_recordType (node : Node) (type : Ty) (symbols : Symbols) :
    symbols.Later (node.recordType type symbols) := by
  unfold recordType
  split
  · exact ⟨Symbols.before_setType type, fun numbered => numbered.setType type⟩
  · exact .refl symbols

theorem step_structLiteral (node : Node) : Step node.typeStructLiteral node := by
  unfold typeStructLiteral
  cases typed : node.type? with
  | some type => exact .idle fun _ => rfl
  | none =>
      cases known : valueTypes? node.args with
      | none => exact .idle fun _ => rfl
      | some members =>
          refine .advances ?_
          intro scope
          have advance := (Kept.refl node).fill typed (scope.types.anonymousStruct members).1
          exact ⟨_, _, rfl, advance.kept, advance.more, later_recordType node _ scope.symbols⟩

theorem kept_foldLiterals (operands : List Node) : KeptAll operands (foldLiterals operands).1 := by
  induction operands with
  | nil => exact .refl []
  | cons operand rest ih =>
      unfold foldLiterals
      split
      · exact .cons (.asVirtual operand) ih
      · split
        · exact .cons (.refl operand) ih
        · exact .cons (.refl operand) (.refl rest)
      · exact .cons (.refl operand) (.refl rest)

theorem kept_withArguments (node : Node) {operands : List Node}
    (kept : KeptAll node.args operands) :
    Kept node (node.withArguments operands) := by
  cases node with
  | apply operator args info => exact .withArgs kept
  | ident _ _ | str _ _ | num _ _ _ => exact .refl _

theorem step_strcmp (node : Node) : Step node.typeStrcmp node := by
  unfold typeStrcmp
  cases waiting : node.type?.isSome || !node.argumentsTyped with
  | true => exact .idle fun _ => rfl
  | false =>
      have free : node.type? = none :=
        free_of_untyped (by simpa using (Bool.or_eq_false_iff.mp waiting).1)
      have kept := kept_withArguments node (kept_foldLiterals node.args)
      rcases folded : foldLiterals node.args with ⟨operands, outcome⟩
      rw [folded] at kept
      simp only [Bool.false_eq_true, if_false]
      cases outcome with
      | error fault => exact .fails kept fun _ => rfl
      | ok _ =>
          dsimp only
          split
          · exact .fails kept fun _ => rfl
          · have untyped : (node.withArguments operands).type? = none := by
              cases node <;> exact free
            have advance := kept.fill untyped .int
            exact .advances fun scope => ⟨_, _, rfl, advance.kept, advance.more,
              later_recordType _ _ scope.symbols⟩

theorem typeElement_ok {collection key : Node} {collectionType keyType : Ty}
    (free : node.type? = none)
    (found : node.typeElement collection key collectionType keyType = .ok tree) :
    Advance node tree := by
  obtain ⟨type, -, found⟩ := ok_of_bind found
  cases found
  split
  · exact advance_folded free 1 type
  · exact (Kept.refl node).fill free type

theorem step_collection {collection key : Node} {keyType : Ty} (two : node.args = [collection, key])
    (free : collection.type? = none) :
    Step (node.typeCollection collection keyType type) node := by
  unfold typeCollection
  cases collection.ident? with
  | none => exact step_error _
  | some name =>
      refine .advances fun scope => ⟨_, _, rfl,
        Kept.modifyArgument node 0 (Kept.fillType · _), ?_, later_recordType collection _ _⟩
      cases node with
      | apply operator args info =>
          obtain rfl : args = [collection, key] := two
          have more := typedCount_withType free (.map keyType type .hash)
          rw [← fillType_of_free free] at more
          change typedCount (.apply operator [collection, key] info) <
            typedCount (.apply operator [collection.fillType (.map keyType type .hash), key] info)
          simp only [typedCount, typedCounts, more]
          omega
      | ident _ _ | str _ _ | num _ _ _ => cases two

theorem step_subscript (node : Node) : Step node.typeSubscript node := by
  unfold typeSubscript
  split
  · rename_i collection key two
    split
    · rename_i keyType collectionType keyed free collected
      exact step_ofRule fun changed found => .inr (typeElement_ok free found)
    · rename_i keyType type keyed typed free
      exact step_collection two free
    · rename_i keyType type collectionType keyed typed collected
      cases node.checkElement collection key collectionType keyType type with
      | error fault => exact step_error fault
      | ok _ => exact .idle fun _ => rfl
    · exact .idle fun _ => rfl
  · exact .idle fun _ => rfl

theorem step_target {target : Node} {valueType : Ty} (free : node.type? = none) :
    Step (node.typeTarget target valueType) node := by
  unfold typeTarget
  split
  · have advance := (Kept.modifyArgument node 0 (Kept.fillType · valueType)).fill
      ((type?_modifyArgument node 0 _).trans free) .void
    exact .advances fun scope => ⟨_, _, rfl, advance.kept, advance.more,
      later_recordType target valueType scope.symbols⟩
  · refine step_ofRule ?_
    intro changed found
    obtain ⟨-, -, found⟩ := ok_of_bind found
    cases found
    exact .inr ((Kept.refl node).fill free .void)

theorem step_assign (node : Node) : Step node.typeAssign node := by
  unfold typeAssign
  split
  · exact .idle fun _ => rfl
  · rename_i untyped
    split
    · split
      · exact .idle fun _ => rfl
      · split
        · exact step_error _
        · exact step_target (free_of_untyped untyped)
    · exact step_error _

theorem step_operator (options : Options) (operator : Operator) (node : Node) :
    Step (operator.infer options node) node := by
  cases operator with
  | dot => exact step_dot node
  | arrow => exact step_arrow node
  | deref => exact step_deref node
  | structLiteral => exact step_structLiteral node
  | subscript => exact step_subscript node
  | assign => exact step_assign node
  | delete => exact .idle fun _ => rfl
  | strcmp => exact step_strcmp node
  | mem => exact step_read options node
  | str => exact step_read options node

theorem Step.behind {rule : Scope → Typed Node} (step : Step rule tree)
    (grown : Advance node tree) :
    Step rule node := by
  cases step with
  | idle same =>
      exact .advances fun scope => ⟨tree, scope, same scope, grown.kept, grown.more, .refl _⟩
  | fails kept same => exact .fails (grown.kept.trans kept) same
  | advances each =>
      refine .advances ?_
      intro scope
      obtain ⟨last, later, same, kept, more, before⟩ := each scope
      exact ⟨last, later, same, grown.kept.trans kept, Nat.lt_trans grown.more more, before⟩

theorem step_application (options : Options) (node : Node) :
    Step (inferApplication options node) node := by
  unfold inferApplication
  split
  · exact step_error _
  · rename_i description found
    cases description.fixedResult with
    | false => exact step_operator options _ node
    | true =>
        cases typed : node.type? with
        | none =>
            exact (step_operator options _ _).behind
              ((Kept.refl node).fill typed description.result)
        | some known =>
            simp only [if_true, fillType_of_type? typed]
            exact step_operator options _ node

theorem kept_application (options : Options) (node : Node) (scope : Scope) :
    Kept node (inferApplication options node scope).tree := by
  cases step_application options node with
  | idle same =>
      rw [same]
      exact .refl node
  | fails kept same =>
      rw [same]
      exact kept
  | advances each =>
      obtain ⟨tree, later, same, kept, -⟩ := each scope
      rw [same]
      exact kept

end Rules

end TraceProbe.Node
