import TraceProbe.Ty.Layout
import TraceProbe.Typing.Basic
import TraceProbe.Validation

/-!
# Typing of records and pointers

Members have the types that their record gives them, a dereference has the
type that is pointed to, and a struct literal has the anonymous struct of its
arguments.  A rule waits while the types it needs are unknown.
-/

namespace TraceProbe.Node

/-- The type of a member, or why there is none.  The base is named in the
diagnostic with its own type, which for an arrow is that of the pointer. -/
def memberType (node base : Node) (type : Ty) (member : String) : Except Fault Ty :=
  match type.record? with
  | none =>
      let shown := (base.type?.getD type).text
      .error (.typeError node.loc
        s!"`{base.text}` is neither struct nor union (type '{shown}')")
  | some shape =>
      match shape.field? member with
      | some field => .ok field.type
      | none =>
          .error (.typeError node.loc s!"type '{type.text}' has no member named `{member}`")

/-- The node typed as a member of a record; the member name has no value. -/
def typeMember (node base : Node) (type : Ty) : Except Fault Node := do
  let member ← node.memberName
  let memberType ← node.memberType base type member
  return (node.modifyArgument 1 asVirtual).fillType memberType

/-- The rule of the dot. -/
def typeDot (node : Node) : Except Fault Node := do
  if node.type?.isSome then return node
  let base ← node.argument 0
  match base.type? with
  | none => return node
  | some type => node.typeMember base type

/-- The rule of the arrow. -/
def typeArrow (node : Node) : Except Fault Node := do
  if node.type?.isSome then return node
  let base ← node.argument 0
  match base.type? with
  | none => return node
  | some (.pointer target) => node.typeMember base target
  | some type =>
      throw (.typeError node.loc s!"`{base.text}` is not a pointer (type '{type.text}')")

/-- The rule of the dereference. -/
def typeDeref (node : Node) : Except Fault Node := do
  if node.type?.isSome then return node
  let pointer ← node.argument 0
  match pointer.type? with
  | none => return node
  | some (.pointer target) => return node.fillType target
  | some type =>
      throw (.typeError node.loc s!"can't dereference `{pointer.text}` (type '{type.text}')")

/-- The types of nodes that all have values; nothing while one is unknown. -/
def valueTypes? : List Node → Option (List Ty)
  | [] => some []
  | node :: nodes =>
      match node.type? with
      | none => none
      | some type => if 0 < type.size then (valueTypes? nodes).map (type :: ·) else none

/-- The rule of the struct literal, which may register a new struct. -/
def typeStructLiteral (node : Node) (scope : Scope) : Typed Node :=
  match node.type?, valueTypes? node.args with
  | none, some members =>
      let (type, types) := scope.types.anonymousStruct members
      .fill node type { scope with types := types }
  | _, _ => ⟨node, scope, .ok ()⟩

end TraceProbe.Node
