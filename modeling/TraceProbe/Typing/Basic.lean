import TraceProbe.Node.Text
import TraceProbe.Symbols
import TraceProbe.Ty.Registry

/-!
# Typing steps

Inference works on a tree and on the scope around it, which holds the symbols
of the probe and the registry of its compilation unit.  A step returns both as
they stand, whether it ended well or not.  Types are set once: a node or a
symbol that has a type keeps it.
-/

namespace TraceProbe

/-- What inference reads and extends beside the tree. -/
structure Scope where
  symbols : Symbols := {}
  types : Registry := .new
deriving Inhabited

/-- What a typing step leaves behind. -/
structure Typed (α : Type) where
  tree : α
  scope : Scope
  outcome : Outcome

/-- The result of a rule that changes no more than the node and its arguments,
and nothing at all when it fails. -/
def Typed.ofRule (node : Node) (scope : Scope) (rule : Except Fault Node) : Typed Node :=
  match rule with
  | .ok changed => ⟨changed, scope, .ok ()⟩
  | .error fault => ⟨node, scope, .error fault⟩

namespace Node

/-- The type of a node that must have one by now. -/
def knownType (node : Node) : Except Fault Ty :=
  match node.type? with
  | some type => .ok type
  | none => .error (.internal s!"`{node.text}` has no type at emission")

/-- The same node with a type, unless it has one already. -/
def fillType (node : Node) (type : Ty) : Node :=
  match node.type? with
  | some _ => node
  | none => node.withType type

/-- The symbols once a node gets a type: that of an identifier is recorded as
well, unless the node has a type already. -/
def recordType (node : Node) (type : Ty) (symbols : Symbols) : Symbols :=
  match node.type?, node.ident? with
  | none, some name => symbols.setType name type
  | _, _ => symbols

end Node

/-- The step that gives a node a type, unless it has one already. -/
def Typed.fill (node : Node) (type : Ty) (scope : Scope) : Typed Node :=
  ⟨node.fillType type, { scope with symbols := node.recordType type scope.symbols }, .ok ()⟩

end TraceProbe
