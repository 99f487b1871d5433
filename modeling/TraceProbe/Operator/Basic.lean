import TraceProbe.Node.Text
import TraceProbe.Ty.Text

/-!
# Operators

The operators of the language, and the table that names them.  A description
binds a name to a signature and an operator.  Signatures fix how many
arguments an operator takes; the types of arguments and results come from the
operators' own rules.
-/

namespace TraceProbe

/-- An operator of the language. -/
inductive Operator where
  /-- `a.b`, a member of a record. -/
  | dot
  /-- `a->b`, a member behind a pointer. -/
  | arrow
  /-- `*p`, what a pointer points to. -/
  | deref
  /-- `:struct(a, b, ...)`, a record of its arguments. -/
  | structLiteral
  /-- `a[k]`, an element of a map, an array or a pointer. -/
  | subscript
  /-- `a = b`, an update of a map. -/
  | assign
  /-- `delete m[k]`, the removal of a key. -/
  | delete
  /-- `strcmp(a, b)`, the order of two strings. -/
  | strcmp
  /-- `mem(p, n)`, bytes read from an address. -/
  | mem
  /-- `str(p, n)`, a string read from an address. -/
  | str
deriving DecidableEq, Inhabited

/-- A named operator. -/
structure Description where
  name : String
  signature : Ty
  operator : Operator
  /-- The result type is the signature's, whatever the arguments. -/
  fixedResult : Bool := false
deriving Inhabited

namespace Description

/-- The number of fixed parameters. -/
def parameterCount (description : Description) : Nat :=
  match description.signature with
  | .function signature => signature.parameters.length
  | _ => 0

/-- Whether further arguments may follow the fixed ones. -/
def variadic (description : Description) : Bool :=
  match description.signature with
  | .function signature => signature.variadic
  | _ => false

/-- The result type of the signature. -/
def result (description : Description) : Ty :=
  match description.signature with
  | .function signature => signature.result
  | _ => .void

/-- Whether an operator takes so many arguments. -/
def accepts (description : Description) (count : Nat) : Bool :=
  if description.variadic then description.parameterCount ≤ count
  else description.parameterCount = count

/-- Checks the number of arguments of an application. -/
def checkArity (description : Description) (node : Node) : Except Diagnostic Unit :=
  let count := description.parameterCount
  if description.accepts node.args.length then .ok ()
  else
    let expected := if description.variadic then s!"at least {count}" else toString count
    .error (.arity description.name expected node.args.length node.loc)

end Description

/-- A table of operators with distinct names. -/
structure OperatorTable where
  descriptions : List Description
deriving Inhabited

namespace OperatorTable

/-- The description of a name. -/
def get? (table : OperatorTable) (name : String) : Option Description :=
  table.descriptions.find? (·.name = name)

/-- The number of operators. -/
def size (table : OperatorTable) : Nat :=
  table.descriptions.length

/-- Adds a description with a new name and a function signature. -/
def add (table : OperatorTable) (description : Description) : Except Diagnostic OperatorTable :=
  match description.signature with
  | .function _ =>
      match table.get? description.name with
      | some _ => .error (.internal s!"operator `{description.name}` registered twice")
      | none => .ok ⟨table.descriptions ++ [description]⟩
  | _ => .error (.internal s!"operator `{description.name}` has a non-function signature")

/-- A table of the given descriptions. -/
def build (descriptions : List Description) : Except Diagnostic OperatorTable :=
  descriptions.foldlM add ⟨[]⟩

/-- The description for an application. -/
def lookup (table : OperatorTable) (node : Node) : Except Diagnostic Description :=
  match node.operator? with
  | none => .error (.internal s!"`{node.text}` is not an operator application")
  | some name =>
      match table.get? name with
      | some description => .ok description
      | none => .error (.unknownOperator name node.loc)

/-- The signature of so many parameters without a type of their own. -/
def untyped (parameters : Nat) (variadic : Bool) : Ty :=
  .function ⟨.void, List.replicate parameters .void, variadic⟩

/-- The operators of the language. -/
def language : OperatorTable where
  descriptions := [
    { name := ".", signature := untyped 2 false, operator := .dot },
    { name := "->", signature := untyped 2 false, operator := .arrow },
    { name := "u*", signature := untyped 1 false, operator := .deref },
    { name := ":struct", signature := untyped 0 true, operator := .structLiteral },
    { name := "[]", signature := untyped 2 false, operator := .subscript },
    { name := "=", signature := untyped 2 false, operator := .assign },
    { name := "delete", signature := untyped 1 false, operator := .delete, fixedResult := true },
    { name := "strcmp", signature := untyped 0 true, operator := .strcmp },
    { name := "mem", signature := untyped 1 true, operator := .mem },
    { name := "str", signature := untyped 1 true, operator := .str }]

theorem build_language : build language.descriptions = .ok language := by
  rfl

end OperatorTable

end TraceProbe
