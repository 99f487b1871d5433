import TraceProbe.Operator.Basic

/-!
# Validation

Checks of a tree that need no types: every operator has a description, the
right number of arguments, and arguments of a shape that it can work with.
-/

namespace TraceProbe

namespace Node

/-- The argument at a position, which arity checks promise to be there. -/
def argument (node : Node) (index : Nat) : Except Fault Node :=
  match node.args[index]? with
  | some argument => .ok argument
  | none => .error (.defect .missingArgument)

/-- The member name behind a dot or an arrow. -/
def memberName (node : Node) : Except Fault String :=
  match node.args[1]?.bind str? with
  | some name => .ok name
  | none => .error (.shapeError node.loc s!"`{node.text}`: member must be a name")

end Node

namespace Operator

/-- Checks the number of arguments where the signature leaves it open. -/
def checkCount (node : Node) (least most : Nat) : Except Fault Unit :=
  let got := node.args.length
  if least ≤ got ∧ got ≤ most then .ok ()
  else
    let expected := if least = most then toString least else s!"{least} or {most}"
    .error (.diagnostic (.arity (node.operator?.getD "?") expected got node.loc))

/-- Checks the shape of an application of an operator. -/
def checkShape (operator : Operator) (node : Node) : Outcome := do
  match operator with
  | dot | arrow => let _ ← node.memberName
  | structLiteral => if node.args.isEmpty then throw (.shapeError node.loc "empty struct")
  | assign =>
      let target ← node.argument 0
      if !target.applies "[]" then
        throw (.shapeError node.loc s!"can't assign a value to `{target.text}`")
  | delete =>
      let target ← node.argument 0
      if !target.applies "[]" then
        throw (.shapeError node.loc s!"can't delete `{target.text}`, a map was expected")
  | strcmp => checkCount node 2 2
  | mem | str => checkCount node 1 2
  | deref | subscript => return ()

end Operator

namespace Node

/-- Checks one application, but not its arguments. -/
def validateApplication (node : Node) : Outcome := do
  let description ← OperatorTable.language.lookup node
  description.checkArity node
  description.operator.checkShape node

mutual

/-- Checks every application of a tree, operators before their arguments. -/
def validate : Node → Outcome
  | apply operator args info => do
      validateApplication (apply operator args info)
      validateAll args
  | ident _ _ | str _ _ | num _ _ _ => .ok ()
termination_by structural node => node

/-- Checks several trees in order. -/
def validateAll : List Node → Outcome
  | [] => .ok ()
  | node :: nodes => do
      validate node
      validateAll nodes
termination_by structural nodes => nodes

end

end Node

end TraceProbe
