import TraceProbe.Ty.Compatible
import TraceProbe.Ty.Layout
import TraceProbe.Typing.Basic
import TraceProbe.Validation

/-!
# Typing of subscripts and assignments

The type of a subscript comes from its collection, or, for a map whose type is
not known yet, the type of the map comes from the key and the value assigned.
An assignment gives its target the type of its value.
-/

namespace TraceProbe.Node

/-- An expression with its type, as diagnostics show it. -/
def shown (node : Node) (type : Ty) : String :=
  s!"`{node.text}` (type '{type.text}')"

/-- A key that does not fit the keys of a map. -/
def badKey (node collection key : Node) (collectionType keyType : Ty) : Fault :=
  .typeError node.loc <|
    s!"{shown key keyType} can't be used as a key of {shown collection collectionType}"

/-- The element type of an array or a pointer, at a scalar index that is in
range if it is a literal. -/
def indexedType (node collection index : Node) (collectionType indexType element : Ty)
    (length? : Option Nat) : Except Fault Ty := do
  if !indexType.isScalar then
    throw (.typeError node.loc
      s!"array subscript must be a scalar value, but `{index.text}` is of type '{indexType.text}'")
  match index.num?, length? with
  | some position, some length =>
      if length ≤ position.toNat then
        throw (.typeError node.loc
          s!"index {position.toNat} is out of bounds for {shown collection collectionType}")
      else return element
  | _, _ => return element

/-- The type that a collection gives its elements. -/
def elementType (node collection key : Node) (collectionType keyType : Ty) : Except Fault Ty :=
  match collectionType with
  | .array element length =>
      node.indexedType collection key collectionType keyType element (some length)
  | .pointer target => node.indexedType collection key collectionType keyType target none
  | .map mapKey value _ =>
      if mapKey.compatible keyType then .ok value
      else .error (node.badKey collection key collectionType keyType)
  | _ =>
      .error (.typeError node.loc
        s!"`{collection.text}` is not subscriptable (type '{collectionType.text}')")

/-- Whether elements of a type are found by their position. -/
def isIndexed : Ty → Bool
  | .array _ _ | .pointer _ => true
  | _ => false

/-- Types a subscript by its collection.  A literal index is folded into the
access, so it has no value of its own. -/
def typeElement (node collection key : Node) (collectionType keyType : Ty) :
    Except Fault Node := do
  let type ← node.elementType collection key collectionType keyType
  let folded := isIndexed collectionType && key.num?.isSome
  return (if folded then node.modifyArgument 1 asVirtual else node).fillType type

/-- Types a map by the key and the value of a subscript. -/
def typeCollection (node collection : Node) (keyType type : Ty) (scope : Scope) : Typed Node :=
  match collection.ident? with
  | none =>
      ⟨node, scope, .error (.typeError node.loc s!"`{collection.text}` is not a map name")⟩
  | some _ =>
      let map := Ty.map keyType type .hash
      ⟨node.modifyArgument 0 (fillType · map),
        { scope with symbols := collection.recordType map scope.symbols }, .ok ()⟩

/-- Checks a typed subscript against its collection: an element of a map must
agree with the key and value types of the map, which another statement may
have fixed. -/
def checkElement (node collection key : Node) (collectionType keyType type : Ty) : Outcome :=
  match collectionType with
  | .map mapKey value _ =>
      if !mapKey.compatible keyType then
        .error (node.badKey collection key collectionType keyType)
      else if !value.compatible type then
        .error (.typeError node.loc
          s!"{shown node type} doesn't match the values of {shown collection collectionType}")
      else .ok ()
  | _ => .ok ()

/-- The rule of the subscript. -/
def typeSubscript (node : Node) (scope : Scope) : Typed Node :=
  match node.args with
  | [collection, key] =>
      match key.type?, node.type?, collection.type? with
      | some keyType, none, some collectionType =>
          .ofRule node scope (node.typeElement collection key collectionType keyType)
      | some keyType, some type, none => node.typeCollection collection keyType type scope
      | some keyType, some type, some collectionType =>
          ⟨node, scope, node.checkElement collection key collectionType keyType type⟩
      | _, _, _ => ⟨node, scope, .ok ()⟩
  | _ => ⟨node, scope, .ok ()⟩

/-- Checks that a value of one type may be assigned to a target of another. -/
def checkAssignable (node : Node) (targetType valueType : Ty) : Outcome :=
  if targetType.compatible valueType then .ok ()
  else
    match node.args with
    | [target, value] =>
        .error (.typeError node.loc
          s!"can't assign {shown value valueType}, to {shown target targetType}")
    | _ => .error (.internal "assignment without operands")

/-- Types the target of an assignment by the value, or checks it. -/
def typeTarget (node target : Node) (valueType : Ty) (scope : Scope) : Typed Node :=
  match target.type? with
  | none =>
      ⟨(node.modifyArgument 0 (fillType · valueType)).fillType .void,
        { scope with symbols := target.recordType valueType scope.symbols }, .ok ()⟩
  | some targetType =>
      .ofRule node scope do
        node.checkAssignable targetType valueType
        return node.fillType .void

/-- The rule of the assignment. -/
def typeAssign (node : Node) (scope : Scope) : Typed Node :=
  if node.type?.isSome then ⟨node, scope, .ok ()⟩
  else
    match node.args with
    | target :: value :: _ =>
        match value.type? with
        | none => ⟨node, scope, .ok ()⟩
        | some valueType =>
            if valueType.size = 0 then
              ⟨node, scope, .error (.typeError node.loc
                s!"{shown value valueType} has no value to assign")⟩
            else node.typeTarget target valueType scope
    | _ => ⟨node, scope, .error (.defect .missingArgument)⟩

end TraceProbe.Node
