import TraceProbe.Insn.Opcode
import TraceProbe.Options
import TraceProbe.Ty.Layout
import TraceProbe.Typing.Basic
import TraceProbe.Validation

/-!
# Typing of string operators

A comparison takes two strings, of which at most one is a literal, and gives
an `int`.  Reads take an address, which may be any value as wide as a register
access, and give an array of characters.
-/

namespace TraceProbe.Node

/-- Whether every argument has a type. -/
def argumentsTyped (node : Node) : Bool :=
  node.args.all (·.type?.isSome)

/-- Literals among the operands of a comparison are folded into it, up to the
first operand that is no string. -/
def foldLiterals : List Node → List Node × Outcome
  | [] => ([], .ok ())
  | operand :: rest =>
      match operand.str?, operand.type? with
      | some _, _ =>
          let (rest, outcome) := foldLiterals rest
          (operand.asVirtual :: rest, outcome)
      | none, some type =>
          if type.isString then
            let (rest, outcome) := foldLiterals rest
            (operand :: rest, outcome)
          else
            (operand :: rest, .error (.typeError operand.loc
              s!"`{operand.text}` is of type '{type.text}', a string was expected"))
      | none, none =>
          (operand :: rest, .error (.internal s!"`{operand.text}` has no type at emission"))

/-- The rule of the string comparison. -/
def typeStrcmp (node : Node) (scope : Scope) : Typed Node :=
  if node.type?.isSome || !node.argumentsTyped then ⟨node, scope, .ok ()⟩
  else
    let (operands, outcome) := foldLiterals node.args
    let folded := node.withArguments operands
    match outcome with
    | .error fault => ⟨folded, scope, .error fault⟩
    | .ok () =>
        if operands.countP (·.str?.isSome) = 2 then
          ⟨folded, scope, .error (.typeError node.loc
            "strcmp of two literals, at least one operand must be a string value")⟩
        else .fill folded .int scope

/-- Checks that a value can be taken for an address. -/
def checkAddress (node source : Node) : Outcome := do
  let type ← source.knownType
  match Width.ofBytes? type.size with
  | some _ => return ()
  | none =>
      throw (.typeError node.loc
        s!"can not cast `{source.text}`, of type '{type.text}', to a pointer")

/-- The length that an argument asks for: a literal between one and the size of
the frame. -/
def readLength (node length : Node) (maxStack : Nat) : Except Fault Nat := do
  match length.num? with
  | none =>
      let type ← length.knownType
      throw (.typeError node.loc
        s!"length must be a constant, but `{length.text}` is of type '{type.text}'")
  | some count =>
      if maxStack < count.toNat then
        throw (.typeError node.loc
          s!"length is larger than the maximum allowed stack size ({maxStack})")
      else if count.toNat = 0 then throw (.typeError node.loc "length must be at least 1")
      else return count.toNat

/-- The rule of the reads.  A given length is folded into the read. -/
def typeRead (node : Node) (options : Options) : Except Fault Node := do
  if node.type?.isSome || !node.argumentsTyped then return node
  let source ← node.argument 0
  node.checkAddress source
  match node.args[1]? with
  | none => return node.fillType (.array .char options.stringSize)
  | some length =>
      let count ← node.readLength length options.maxStack
      return (node.modifyArgument 1 asVirtual).fillType (.array .char count)

end TraceProbe.Node
