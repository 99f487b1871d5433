import TraceProbe.Proofs.Results
import TraceProbe.Typing.Inference

/-!
# What typing rules do

A rule that ends well leaves the node as it is, or it finds a type for a node
that has none and says from which arguments the type comes.
-/

namespace TraceProbe.Node

variable {node tree : Node} {scope finish : Scope}

theorem free_of_untyped (untyped : ¬ node.type?.isSome = true) : node.type? = none :=
  Option.not_isSome_iff_eq_none.mp untyped

theorem ofRule_eq_ok {rule : Except Fault Node}
    (found : Typed.ofRule node scope rule = ⟨tree, finish, .ok ()⟩) :
    rule = .ok tree ∧ finish = scope := by
  unfold Typed.ofRule at found
  cases rule with
  | error fault => cases found
  | ok changed =>
      cases found
      exact ⟨rfl, rfl⟩

section Records

theorem typeMember_ok {base : Node} {type : Ty} (found : node.typeMember base type = .ok tree) :
    ∃ name fieldType, node.memberName = .ok name ∧ node.memberType base type name = .ok fieldType ∧
      (node.modifyArgument 1 asVirtual).fillType fieldType = tree := by
  obtain ⟨name, named, found⟩ := ok_of_bind found
  obtain ⟨fieldType, fielded, found⟩ := ok_of_bind found
  exact ⟨name, fieldType, named, fielded, Except.ok.inj found⟩

theorem typeDot_ok (found : node.typeDot = .ok tree) :
    tree = node ∨ node.type? = none ∧ ∃ base type, node.argument 0 = .ok base ∧
      base.type? = some type ∧ node.typeMember base type = .ok tree := by
  unfold typeDot at found
  split at found
  · cases found
    exact .inl rfl
  · rename_i untyped
    obtain ⟨base, first, found⟩ := ok_of_bind found
    split at found
    · cases found
      exact .inl rfl
    · rename_i type known
      exact .inr ⟨free_of_untyped untyped, base, type, first, known, found⟩

theorem typeArrow_ok (found : node.typeArrow = .ok tree) :
    tree = node ∨ node.type? = none ∧ ∃ base target, node.argument 0 = .ok base ∧
      base.type? = some (.pointer target) ∧ node.typeMember base target = .ok tree := by
  unfold typeArrow at found
  split at found
  · cases found
    exact .inl rfl
  · rename_i untyped
    obtain ⟨base, first, found⟩ := ok_of_bind found
    split at found
    · cases found
      exact .inl rfl
    · rename_i target known
      exact .inr ⟨free_of_untyped untyped, base, target, first, known, found⟩
    · cases found

theorem typeDeref_ok (found : node.typeDeref = .ok tree) :
    tree = node ∨ node.type? = none ∧ ∃ pointer target, node.argument 0 = .ok pointer ∧
      pointer.type? = some (.pointer target) ∧ node.fillType target = tree := by
  unfold typeDeref at found
  split at found
  · cases found
    exact .inl rfl
  · rename_i untyped
    obtain ⟨pointer, first, found⟩ := ok_of_bind found
    split at found
    · cases found
      exact .inl rfl
    · rename_i target known
      exact .inr ⟨free_of_untyped untyped, pointer, target, first, known, Except.ok.inj found⟩
    · cases found

end Records

section Strings

theorem typeRead_ok {options : Options} (found : node.typeRead options = .ok tree) :
    tree = node ∨ node.type? = none ∧ ∃ source, node.argument 0 = .ok source ∧
      node.checkAddress source = .ok () ∧
        ((node.args[1]? = none ∧ node.fillType (.array .char options.stringSize) = tree) ∨
          ∃ length count, node.args[1]? = some length ∧
            node.readLength length options.maxStack = .ok count ∧
              (node.modifyArgument 1 asVirtual).fillType (.array .char count) = tree) := by
  unfold typeRead at found
  split at found
  · cases found
    exact .inl rfl
  · rename_i waits
    simp only [Bool.or_eq_true, not_or] at waits
    obtain ⟨source, first, found⟩ := ok_of_bind found
    obtain ⟨_, address, found⟩ := ok_of_bind found
    refine .inr ⟨free_of_untyped waits.1, source, first, address, ?_⟩
    split at found
    · rename_i none
      exact .inl ⟨none, Except.ok.inj found⟩
    · rename_i length second
      obtain ⟨count, read, found⟩ := ok_of_bind found
      exact .inr ⟨length, count, second, read, Except.ok.inj found⟩

/-- A comparison waits for the types of its operands, and keeps its arguments with
some of them folded. -/
theorem typeStrcmp_ok (found : node.typeStrcmp scope = ⟨tree, finish, .ok ()⟩) :
    tree = node ∧ finish = scope ∨ node.type? = none ∧ node.argumentsTyped = true ∧
      ∃ folded, foldLiterals node.args = (folded, .ok ()) ∧ folded.countP (·.str?.isSome) ≠ 2 ∧
        Typed.fill (node.withArguments folded) .int scope = ⟨tree, finish, .ok ()⟩ := by
  unfold typeStrcmp at found
  split at found
  · cases found
    exact .inl ⟨rfl, rfl⟩
  · rename_i waits
    simp only [Bool.or_eq_true, Bool.not_eq_true', not_or, Bool.not_eq_false] at waits
    rcases folding : foldLiterals node.args with ⟨folded, outcome⟩
    simp only [folding] at found
    cases outcome with
    | error fault => cases found
    | ok _ =>
        dsimp only at found
        split at found
        · cases found
        · rename_i few
          exact .inr ⟨free_of_untyped waits.1, waits.2, folded, rfl, few, found⟩

end Strings

section Assignments

theorem typeAssign_ok (found : node.typeAssign scope = ⟨tree, finish, .ok ()⟩) :
    tree = node ∧ finish = scope ∨ node.type? = none ∧ ∃ target value rest valueType,
      node.args = target :: value :: rest ∧ value.type? = some valueType ∧ valueType.size ≠ 0 ∧
        node.typeTarget target valueType scope = ⟨tree, finish, .ok ()⟩ := by
  unfold typeAssign at found
  split at found
  · cases found
    exact .inl ⟨rfl, rfl⟩
  · rename_i untyped
    split at found
    · rename_i target value rest parts
      split at found
      · cases found
        exact .inl ⟨rfl, rfl⟩
      · rename_i valueType known
        split at found
        · cases found
        · rename_i room
          exact .inr ⟨free_of_untyped untyped, target, value, rest, valueType,
            parts, known, room, found⟩
    · cases found

/-- A target gets the type of the value or has one that is compatible. -/
theorem typeTarget_ok {target : Node} {valueType : Ty}
    (found : node.typeTarget target valueType scope = ⟨tree, finish, .ok ()⟩) :
    (target.type? = none ∧ (node.modifyArgument 0 (fillType · valueType)).fillType .void = tree ∧
      { scope with symbols := target.recordType valueType scope.symbols } = finish) ∨
    ∃ targetType, target.type? = some targetType ∧ targetType.compatible valueType = true ∧
      node.fillType .void = tree ∧ finish = scope := by
  unfold typeTarget at found
  split at found
  · rename_i free
    cases found
    exact .inl ⟨free, rfl, rfl⟩
  · rename_i targetType known
    obtain ⟨ruled, rfl⟩ := ofRule_eq_ok found
    obtain ⟨_, checked, same⟩ := ok_of_bind ruled
    unfold checkAssignable at checked
    split at checked
    · rename_i fits
      exact .inr ⟨targetType, known, fits, Except.ok.inj same, rfl⟩
    · split at checked <;> cases checked

end Assignments

end TraceProbe.Node
