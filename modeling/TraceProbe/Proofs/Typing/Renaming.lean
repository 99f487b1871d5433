import TraceProbe.Proofs.Agreement
import TraceProbe.Proofs.Node.Renaming
import TraceProbe.Typing.Inference

/-!
# Typing with renamed types

A typing step on a tree and symbols with renamed types does what it does on the
original ones, with the types it finds renamed in the same way.  Only the
struct literal, which asks the registry for a type, is left out.
-/

namespace TraceProbe

variable {naming : Renaming}

/-- Two typing steps that leave trees and symbols alike up to a renaming, and
end alike. -/
structure Typed.Renamed (naming : Renaming) (left right : Typed Node) : Prop where
  tree : right.tree = left.tree.rename naming
  symbols : right.scope.symbols = left.scope.symbols.rename naming
  outcome : Agrees Eq left.outcome right.outcome

namespace Node

/-- A node and the same node with its types renamed. -/
abbrev Renames (naming : Renaming) (node other : Node) : Prop :=
  other = node.rename naming

variable {node base target collection key : Node} {type collectionType keyType : Ty}
  {scope scope' : Scope}

theorem argument_rename (node : Node) (index : Nat) :
    Agrees (Renames naming) (node.argument index) ((node.rename naming).argument index) := by
  unfold argument
  rw [args_rename, List.getElem?_map]
  cases node.args[index]? with
  | none => exact .error rfl
  | some arg => exact .ok rfl

theorem memberName_rename (node : Node) :
    Agrees Eq node.memberName (node.rename naming).memberName := by
  have member : (node.rename naming).args[1]?.bind str? = node.args[1]?.bind str? := by
    rw [args_rename, List.getElem?_map]
    cases node.args[1]? with
    | none => rfl
    | some arg => exact str?_rename arg
  unfold memberName
  rw [member]
  cases node.args[1]?.bind str? with
  | none => exact .error (by rw [loc_rename]; rfl)
  | some name => exact .ok rfl

theorem knownType_rename (node : Node) :
    Agrees (fun type other => other = type.rename naming) node.knownType
      (node.rename naming).knownType := by
  unfold knownType
  rw [type?_rename]
  cases node.type? with
  | none => exact .error rfl
  | some type => exact .ok rfl

theorem fillType_rename (node : Node) (type : Ty) :
    (node.rename naming).fillType (type.rename naming) = (node.fillType type).rename naming := by
  unfold fillType
  rw [type?_rename]
  cases node.type? with
  | none => rw [rename_withType]; rfl
  | some known => rfl

theorem recordType_rename (node : Node) (type : Ty) (symbols : Symbols) :
    (node.rename naming).recordType (type.rename naming) (symbols.rename naming) =
      (node.recordType type symbols).rename naming := by
  unfold recordType
  rw [type?_rename, ident?_rename]
  cases node.type? with
  | some known => rfl
  | none =>
      cases node.ident? with
      | none => rfl
      | some name => exact symbols.setType_rename name type

theorem asVirtual_argument_rename (node : Node) (index : Nat) :
    (node.rename naming).modifyArgument index asVirtual =
      (node.modifyArgument index asVirtual).rename naming :=
  (rename_modifyArgument node index rename_asVirtual).symm

theorem fillType_argument_rename (node : Node) (index : Nat) (type : Ty) :
    (node.rename naming).modifyArgument index (fillType · (type.rename naming)) =
      (node.modifyArgument index (fillType · type)).rename naming := by
  apply Eq.symm
  apply rename_modifyArgument
  intro arg
  exact (arg.fillType_rename type).symm

end Node

namespace Typed

variable {node : Node} {scope scope' : Scope}

theorem renamed_ofRule {rule rule' : Except Fault Node}
    (agree : Agrees (Node.Renames naming) rule rule')
    (same : scope'.symbols = scope.symbols.rename naming) :
    Typed.Renamed naming (.ofRule node scope rule) (.ofRule (node.rename naming) scope' rule') := by
  cases agree with
  | ok related => exact ⟨related, same, .ok rfl⟩
  | error equal => exact ⟨rfl, same, .error equal⟩

theorem renamed_fill (type : Ty) (same : scope'.symbols = scope.symbols.rename naming) :
    Typed.Renamed naming (.fill node type scope)
      (.fill (node.rename naming) (type.rename naming) scope') := by
  refine ⟨node.fillType_rename type, ?_, .ok rfl⟩
  show (node.rename naming).recordType (type.rename naming) scope'.symbols = _
  rw [same, Node.recordType_rename]
  rfl

theorem renamed_same {outcome outcome' : Outcome} (agree : Agrees Eq outcome outcome')
    (same : scope'.symbols = scope.symbols.rename naming) :
    Typed.Renamed naming ⟨node, scope, outcome⟩ ⟨node.rename naming, scope', outcome'⟩ :=
  ⟨rfl, same, agree⟩

end Typed

namespace Node

variable {node base target collection key : Node} {type collectionType keyType : Ty}
  {scope scope' : Scope}

section Records

theorem memberType_rename (node base : Node) (type : Ty) (member : String) :
    Agrees (fun type other => other = type.rename naming) (node.memberType base type member)
      ((node.rename naming).memberType (base.rename naming) (type.rename naming) member) := by
  unfold memberType
  rw [Ty.record?_rename, loc_rename]
  cases type.record? with
  | none => exact .error rfl
  | some shape =>
      simp only [Option.map_some, Ty.field?_rename]
      cases shape.field? member with
      | none => exact .error rfl
      | some field => exact .ok rfl

theorem typeMember_rename (node base : Node) (type : Ty) :
    Agrees (Renames naming) (node.typeMember base type)
      ((node.rename naming).typeMember (base.rename naming) (type.rename naming)) := by
  refine (memberName_rename node).bind ?_
  intro member _ same
  subst same
  refine (memberType_rename node base type member).bind ?_
  intro found _ same
  subst same
  exact .ok (by rw [asVirtual_argument_rename, fillType_rename])

theorem typeDot_rename (node : Node) :
    Agrees (Renames naming) node.typeDot (node.rename naming).typeDot := by
  unfold typeDot
  rw [isSome_type?_rename]
  split
  · exact .ok rfl
  · refine (argument_rename node 0).bind ?_
    intro base _ same
    subst same
    rw [type?_rename]
    cases base.type? with
    | none => exact .ok rfl
    | some type => exact typeMember_rename node base type

theorem typeArrow_rename (node : Node) :
    Agrees (Renames naming) node.typeArrow (node.rename naming).typeArrow := by
  unfold typeArrow
  rw [isSome_type?_rename]
  split
  · exact .ok rfl
  · refine (argument_rename node 0).bind ?_
    intro base _ same
    subst same
    rw [type?_rename, loc_rename]
    cases base.type? with
    | none => exact .ok rfl
    | some type =>
        cases type with
        | pointer target => exact typeMember_rename node base target
        | record _ | function _ =>
            simp only [Option.map_some, Ty.rename_record, Ty.rename_function]
            exact .error rfl
        | _ => exact .error rfl

theorem typeDeref_rename (node : Node) :
    Agrees (Renames naming) node.typeDeref (node.rename naming).typeDeref := by
  unfold typeDeref
  rw [isSome_type?_rename]
  split
  · exact .ok rfl
  · refine (argument_rename node 0).bind ?_
    intro pointer _ same
    subst same
    rw [type?_rename, loc_rename]
    cases pointer.type? with
    | none => exact .ok rfl
    | some type =>
        cases type with
        | pointer target => exact .ok (fillType_rename node target)
        | record _ | function _ =>
            simp only [Option.map_some, Ty.rename_record, Ty.rename_function]
            exact .error rfl
        | _ => exact .error rfl

@[simp] theorem valueTypes?_rename (nodes : List Node) :
    valueTypes? (nodes.map (rename naming)) =
      (valueTypes? nodes).map (List.map (Ty.rename naming)) := by
  induction nodes with
  | nil => rfl
  | cons node nodes ih =>
      rw [List.map_cons, valueTypes?, valueTypes?, type?_rename]
      cases node.type? with
      | none => rfl
      | some type =>
          simp only [Option.map_some, Ty.size_rename, ih]
          split
          · cases valueTypes? nodes <;> rfl
          · rfl

end Records

section Subscripts

theorem indexedType_rename (node collection index : Node) (collectionType indexType element : Ty)
    (length? : Option Nat) :
    Agrees (fun type other => other = type.rename naming)
      (node.indexedType collection index collectionType indexType element length?)
      ((node.rename naming).indexedType (collection.rename naming) (index.rename naming)
        (collectionType.rename naming) (indexType.rename naming)
        (element.rename naming) length?) := by
  unfold indexedType
  rw [Ty.isScalar_rename, num?_rename, loc_rename]
  cases indexType.isScalar with
  | false => exact .error rfl
  | true =>
      cases index.num? with
      | none => exact .ok rfl
      | some position =>
          cases length? with
          | none => exact .ok rfl
          | some length =>
              simp only [Bool.not_true, Bool.false_eq_true, if_false]
              split
              · exact .error rfl
              · exact .ok rfl

theorem elementType_rename (node collection key : Node) (collectionType keyType : Ty) :
    Agrees (fun type other => other = type.rename naming)
      (node.elementType collection key collectionType keyType)
      ((node.rename naming).elementType (collection.rename naming) (key.rename naming)
        (collectionType.rename naming) (keyType.rename naming)) := by
  unfold elementType
  cases collectionType with
  | array element length =>
      exact indexedType_rename node collection key (.array element length) keyType element
        (some length)
  | pointer target =>
      exact indexedType_rename node collection key (.pointer target) keyType target none
  | map mapKey value kind =>
      simp only [Ty.rename, Ty.compatible_rename]
      split
      · exact .ok rfl
      · exact .error (by rw [badKey, badKey, loc_rename]; rfl)
  | record _ | function _ =>
      simp only [Ty.rename_record, Ty.rename_function]
      exact .error (by rw [loc_rename]; rfl)
  | _ => exact .error (by rw [loc_rename]; rfl)

theorem isIndexed_rename (type : Ty) : isIndexed (type.rename naming) = isIndexed type := by
  cases type <;> simp [Ty.rename, isIndexed]

theorem typeElement_rename (node collection key : Node) (collectionType keyType : Ty) :
    Agrees (Renames naming) (node.typeElement collection key collectionType keyType)
      ((node.rename naming).typeElement (collection.rename naming) (key.rename naming)
        (collectionType.rename naming) (keyType.rename naming)) := by
  refine (elementType_rename node collection key collectionType keyType).bind ?_
  intro type _ same
  subst same
  rw [isIndexed_rename, num?_rename]
  refine .ok ?_
  split
  · rw [asVirtual_argument_rename, fillType_rename]
  · exact fillType_rename node type

theorem checkElement_rename (node collection key : Node) (collectionType keyType type : Ty) :
    Agrees Eq (node.checkElement collection key collectionType keyType type)
      ((node.rename naming).checkElement (collection.rename naming) (key.rename naming)
        (collectionType.rename naming) (keyType.rename naming) (type.rename naming)) := by
  unfold checkElement
  cases collectionType with
  | map mapKey value kind =>
      simp only [Ty.rename, Ty.compatible_rename]
      split
      · exact .error (by rw [badKey, badKey, loc_rename]; rfl)
      · split
        · exact .error (by rw [loc_rename]; rfl)
        · exact .ok rfl
  | record _ | function _ =>
      simp only [Ty.rename_record, Ty.rename_function]
      exact .ok rfl
  | _ => exact .ok rfl

theorem typeCollection_rename (node collection : Node) (keyType type : Ty)
    (same : scope'.symbols = scope.symbols.rename naming) :
    Typed.Renamed naming (node.typeCollection collection keyType type scope)
      ((node.rename naming).typeCollection (collection.rename naming) (keyType.rename naming)
        (type.rename naming) scope') := by
  unfold typeCollection
  rw [ident?_rename]
  cases collection.ident? with
  | none => exact Typed.renamed_same (.error (by rw [loc_rename]; rfl)) same
  | some name =>
      refine ⟨node.fillType_argument_rename 0 (.map keyType type .hash), ?_, .ok rfl⟩
      show (collection.rename naming).recordType ((Ty.map keyType type .hash).rename naming)
        scope'.symbols = _
      rw [same, recordType_rename]

theorem typeSubscript_rename (node : Node) (same : scope'.symbols = scope.symbols.rename naming) :
    Typed.Renamed naming (node.typeSubscript scope)
      ((node.rename naming).typeSubscript scope') := by
  unfold typeSubscript
  rw [args_rename]
  rcases node.args with _ | ⟨collection, _ | ⟨key, _ | _⟩⟩
  · exact Typed.renamed_same (.ok rfl) same
  · exact Typed.renamed_same (.ok rfl) same
  · simp only [List.map_cons, List.map_nil, type?_rename]
    cases key.type? with
    | none => exact Typed.renamed_same (.ok rfl) same
    | some keyType =>
        cases node.type? with
        | none =>
            cases collection.type? with
            | none => exact Typed.renamed_same (.ok rfl) same
            | some collectionType =>
                exact Typed.renamed_ofRule
                  (typeElement_rename node collection key collectionType keyType) same
        | some type =>
            cases collection.type? with
            | none => exact typeCollection_rename node collection keyType type same
            | some collectionType =>
                exact Typed.renamed_same
                  (checkElement_rename node collection key collectionType keyType type) same
  · exact Typed.renamed_same (.ok rfl) same

end Subscripts

section Assignments

theorem checkAssignable_rename (node : Node) (targetType valueType : Ty) :
    Agrees Eq (node.checkAssignable targetType valueType)
      ((node.rename naming).checkAssignable (targetType.rename naming)
        (valueType.rename naming)) := by
  unfold checkAssignable
  rw [Ty.compatible_rename, args_rename, loc_rename]
  split
  · exact .ok rfl
  · rcases node.args with _ | ⟨_, _ | ⟨_, _ | _⟩⟩ <;> exact .error rfl

theorem typeTarget_rename (node target : Node) (valueType : Ty)
    (same : scope'.symbols = scope.symbols.rename naming) :
    Typed.Renamed naming (node.typeTarget target valueType scope)
      ((node.rename naming).typeTarget (target.rename naming)
        (valueType.rename naming) scope') := by
  unfold typeTarget
  rw [type?_rename]
  cases target.type? with
  | none =>
      refine ⟨?_, ?_, .ok rfl⟩
      · dsimp only
        rw [← fillType_rename, ← fillType_argument_rename]
        rfl
      · show (target.rename naming).recordType (valueType.rename naming) scope'.symbols = _
        rw [same, recordType_rename]
  | some targetType =>
      refine Typed.renamed_ofRule ?_ same
      refine (checkAssignable_rename node targetType valueType).bind ?_
      intro _ _ _
      exact .ok (fillType_rename node .void)

theorem typeAssign_rename (node : Node) (same : scope'.symbols = scope.symbols.rename naming) :
    Typed.Renamed naming (node.typeAssign scope) ((node.rename naming).typeAssign scope') := by
  unfold typeAssign
  rw [isSome_type?_rename, args_rename]
  split
  · exact Typed.renamed_same (.ok rfl) same
  · rcases node.args with _ | ⟨target, _ | ⟨value, _⟩⟩
    · exact Typed.renamed_same (.error rfl) same
    · exact Typed.renamed_same (.error rfl) same
    · simp only [List.map_cons, type?_rename]
      cases value.type? with
      | none => exact Typed.renamed_same (.ok rfl) same
      | some valueType =>
          simp only [Option.map_some, Ty.size_rename]
          split
          · exact Typed.renamed_same (.error (by rw [loc_rename]; rfl)) same
          · exact typeTarget_rename node target valueType same

end Assignments

section Strings

theorem argumentsTyped_rename (node : Node) :
    (node.rename naming).argumentsTyped = node.argumentsTyped := by
  rw [argumentsTyped, argumentsTyped, args_rename, List.all_map]
  exact congrArg (node.args.all ·) (funext isSome_type?_rename)

theorem foldLiterals_rename (operands : List Node) :
    (foldLiterals (operands.map (rename naming))).1 =
        (foldLiterals operands).1.map (rename naming) ∧
      Agrees Eq (foldLiterals operands).2 (foldLiterals (operands.map (rename naming))).2 := by
  induction operands with
  | nil => exact ⟨rfl, .ok rfl⟩
  | cons operand rest ih =>
      simp only [List.map_cons, foldLiterals, str?_rename, type?_rename]
      cases operand.str? with
      | some value => exact ⟨by rw [← rename_asVirtual, ih.1]; rfl, ih.2⟩
      | none =>
          cases operand.type? with
          | none => exact ⟨rfl, .error rfl⟩
          | some type =>
              simp only [Option.map_some, Ty.isString_rename]
              split
              · exact ⟨by rw [ih.1]; rfl, ih.2⟩
              · exact ⟨rfl, .error (by rw [loc_rename]; rfl)⟩

theorem countP_str?_rename (nodes : List Node) :
    (nodes.map (rename naming)).countP (·.str?.isSome) = nodes.countP (·.str?.isSome) := by
  rw [List.countP_map]
  exact congrArg (List.countP · nodes) (funext fun node => by rw [Function.comp_apply, str?_rename])

theorem typeStrcmp_rename (node : Node) (same : scope'.symbols = scope.symbols.rename naming) :
    Typed.Renamed naming (node.typeStrcmp scope) ((node.rename naming).typeStrcmp scope') := by
  unfold typeStrcmp
  rw [isSome_type?_rename, argumentsTyped_rename]
  split
  · exact Typed.renamed_same (.ok rfl) same
  · obtain ⟨operands, outcomes⟩ := @foldLiterals_rename naming node.args
    rw [args_rename]
    generalize foldLiterals node.args = left at operands outcomes ⊢
    generalize foldLiterals (node.args.map (rename naming)) = right at operands outcomes ⊢
    obtain ⟨folded, outcome⟩ := left
    obtain ⟨folded', outcome'⟩ := right
    obtain rfl : folded' = folded.map (rename naming) := operands
    dsimp only at outcomes ⊢
    rw [← rename_withArguments, countP_str?_rename, loc_rename]
    cases outcomes with
    | error equal => exact Typed.renamed_same (.error equal) same
    | ok _ =>
        dsimp only
        split
        · exact Typed.renamed_same (.error rfl) same
        · exact Typed.renamed_fill .int same

theorem checkAddress_rename (node source : Node) :
    Agrees Eq (node.checkAddress source)
      ((node.rename naming).checkAddress (source.rename naming)) := by
  refine (knownType_rename source).bind ?_
  intro type _ same
  subst same
  rw [Ty.size_rename, loc_rename]
  cases Width.ofBytes? type.size with
  | none => exact .error rfl
  | some width => exact .ok rfl

theorem readLength_rename (node length : Node) (maxStack : Nat) :
    Agrees Eq (node.readLength length maxStack)
      ((node.rename naming).readLength (length.rename naming) maxStack) := by
  unfold readLength
  rw [num?_rename, loc_rename]
  cases length.num? with
  | none => exact (knownType_rename length).bind fun _ _ _ => .error rfl
  | some count =>
      dsimp only
      split
      · exact .error rfl
      · split
        · exact .error rfl
        · exact .ok rfl

theorem typeRead_rename (node : Node) (options : Options) :
    Agrees (Renames naming) (node.typeRead options) ((node.rename naming).typeRead options) := by
  unfold typeRead
  rw [isSome_type?_rename, argumentsTyped_rename, args_rename, List.getElem?_map]
  split
  · exact .ok rfl
  · refine (argument_rename node 0).bind ?_
    intro source _ same
    subst same
    refine (checkAddress_rename node source).bind ?_
    intro _ _ _
    cases node.args[1]? with
    | none => exact .ok (fillType_rename node (.array .char options.stringSize))
    | some length =>
        refine (readLength_rename node length options.maxStack).bind ?_
        intro count _ same
        subst same
        refine .ok ?_
        rw [asVirtual_argument_rename]
        exact fillType_rename (node.modifyArgument 1 asVirtual) (.array .char count)

end Strings

section Applications

/-- Two nodes with renamed types apply the same operator of the table, or none. -/
theorem lookup_rename (node : Node) :
    (∃ description, OperatorTable.language.lookup node = .ok description ∧
        OperatorTable.language.lookup (node.rename naming) = .ok description) ∨
      ∃ cause other, OperatorTable.language.lookup node = .error cause ∧
        OperatorTable.language.lookup (node.rename naming) = .error other ∧
        cause.outline = other.outline := by
  unfold OperatorTable.lookup
  rw [operator?_rename, loc_rename]
  cases node.operator? with
  | none => exact .inr ⟨_, _, rfl, rfl, rfl⟩
  | some name =>
      dsimp only
      cases OperatorTable.language.get? name with
      | none => exact .inr ⟨_, _, rfl, rfl, rfl⟩
      | some description => exact .inl ⟨description, rfl, rfl⟩

theorem infer_rename (options : Options) {operator : Operator} (other : operator ≠ .structLiteral)
    (node : Node) (same : scope'.symbols = scope.symbols.rename naming) :
    Typed.Renamed naming (operator.infer options node scope)
      (operator.infer options (node.rename naming) scope') := by
  cases operator with
  | dot => exact Typed.renamed_ofRule (typeDot_rename node) same
  | arrow => exact Typed.renamed_ofRule (typeArrow_rename node) same
  | deref => exact Typed.renamed_ofRule (typeDeref_rename node) same
  | structLiteral => exact absurd rfl other
  | subscript => exact typeSubscript_rename node same
  | assign => exact typeAssign_rename node same
  | delete => exact Typed.renamed_same (.ok rfl) same
  | strcmp => exact typeStrcmp_rename node same
  | mem | str => exact Typed.renamed_ofRule (typeRead_rename node options) same

end Applications

end Node

end TraceProbe
