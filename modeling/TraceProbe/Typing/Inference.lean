import TraceProbe.Typing.Maps
import TraceProbe.Typing.Records
import TraceProbe.Typing.Strings

/-!
# Inference

A pass visits arguments before their operators and gives every operator a
chance to find a type, also one that is typed itself but has an argument that
is not.  Passes repeat until every node is typed, nothing changes, or the
limit of passes is reached.
-/

namespace TraceProbe

/-- One typing step at an operator whose arguments have been visited. -/
def Operator.infer (options : Options) (operator : Operator) (node : Node) (scope : Scope) :
    Typed Node :=
  match operator with
  | dot => .ofRule node scope node.typeDot
  | arrow => .ofRule node scope node.typeArrow
  | deref => .ofRule node scope node.typeDeref
  | structLiteral => node.typeStructLiteral scope
  | subscript => node.typeSubscript scope
  | assign => node.typeAssign scope
  | strcmp => node.typeStrcmp scope
  | mem | str => .ofRule node scope (node.typeRead options)
  | delete => ⟨node, scope, .ok ()⟩

namespace Node

/-- One typing step at an application whose arguments have been visited. -/
def inferApplication (options : Options) (node : Node) (scope : Scope) : Typed Node :=
  match OperatorTable.language.lookup node with
  | .error cause => ⟨node, scope, .error (.diagnostic cause)⟩
  | .ok description =>
      let started := if description.fixedResult then node.fillType description.result else node
      description.operator.infer options started scope

/-- The type of a string literal: its bytes and the zero byte behind them. -/
def literalType (value : String) : Ty :=
  .array .char (value.utf8ByteSize + 1)

theorem size_literalType (value : String) :
    (literalType value).size = value.utf8ByteSize + 1 := by
  rw [literalType, Ty.size]
  exact Nat.one_mul _

theorem size_literalType_pos (value : String) : 0 < (literalType value).size := by
  rw [size_literalType]
  exact Nat.succ_pos _

/-- The type of a numeric literal. -/
def numberType (unsigned : Bool) : Ty :=
  if unsigned then .u64 else .s64

mutual

/-- One inference pass over a tree. -/
def infer (options : Options) : Node → Scope → Typed Node
  | apply operator args info, scope =>
      let inner := inferAll options args scope
      match inner.outcome with
      | .error fault => ⟨apply operator inner.tree info, inner.scope, .error fault⟩
      | .ok () => inferApplication options (apply operator inner.tree info) inner.scope
  | ident name info, scope =>
      if info.type.isSome then ⟨ident name info, scope, .ok ()⟩
      else
        let (symbol, symbols) := scope.symbols.resolve name
        ⟨ident name { info with type := symbol.type },
          { scope with symbols := symbols }, .ok ()⟩
  | str value info, scope => ⟨(str value info).fillType (literalType value), scope, .ok ()⟩
  | num value unsigned info, scope =>
      ⟨(num value unsigned info).fillType (numberType unsigned), scope, .ok ()⟩
termination_by structural node => node

/-- One inference pass over several trees, up to the first that fails. -/
def inferAll (options : Options) : List Node → Scope → Typed (List Node)
  | [], scope => ⟨[], scope, .ok ()⟩
  | node :: nodes, scope =>
      let first := infer options node scope
      match first.outcome with
      | .error fault => ⟨first.tree :: nodes, first.scope, .error fault⟩
      | .ok () =>
          let others := inferAll options nodes first.scope
          ⟨first.tree :: others.tree, others.scope, others.outcome⟩
termination_by structural nodes => nodes

end

/-- The diagnostic for statements that cannot be typed any further. -/
def unresolved (statements : List Node) : Fault :=
  match firstUntypedOf? statements with
  | some node => .diagnostic (.unresolvedType node.text node.loc)
  | none => .internal "inference stopped with every node typed"

/-- Inference passes over all statements, at most so many. -/
def inferPasses (options : Options) :
    Nat → List Node → Scope → Typed (List Node)
  | 0, statements, scope => ⟨statements, scope, .error (unresolved statements)⟩
  | passes + 1, statements, scope =>
      let result := inferAll options statements scope
      match result.outcome with
      | .error fault => ⟨result.tree, result.scope, .error fault⟩
      | .ok () =>
          if (firstUntypedOf? result.tree).isNone then result
          else if typedCounts result.tree = typedCounts statements then
            ⟨result.tree, result.scope, .error (unresolved result.tree)⟩
          else inferPasses options passes result.tree result.scope

/-- Types all statements of a probe. -/
def inferTypes (options : Options) (statements : List Node) (scope : Scope) :
    Typed (List Node) :=
  inferPasses options options.maxPasses statements scope

end Node

end TraceProbe
