import TraceProbe.Node.Basic
import TraceProbe.Text.Quoted

/-!
# Written expressions

The source form of a tree, as diagnostics quote it.
-/

namespace TraceProbe.Node

/-- The member behind a dot or an arrow; a question mark stands for anything
but a name. -/
def memberText (member : Node) : String :=
  member.str?.getD "?"

/-- An application in source form, given the written forms of its arguments.
An operator with a shape of its own has it only with the right number of
arguments. -/
def applied (operator : String) (args : List Node) (written : List String) : String :=
  match operator, args, written with
  | ".", [base, member], [text, _] =>
      if base.applies "u*" then s!"({text}).{member.memberText}"
      else s!"{text}.{member.memberText}"
  | "->", [_, member], [text, _] => s!"{text}->{member.memberText}"
  | "u*", [_], [text] => s!"*{text}"
  | "[]", [_, _], [collection, key] => s!"{collection}[{key}]"
  | "=", [_, _], [target, value] => s!"{target} = {value}"
  | _, _, _ => operator ++ "(" ++ ", ".intercalate written ++ ")"

/-- A numeric literal in decimal; without the mark it is read as signed. -/
def numberText (value : UInt64) (unsigned : Bool) : String :=
  if unsigned || value ≤ signedMax then toString value.toNat
  else "-" ++ toString (UInt64.size - value.toNat)

mutual

/-- The source form of a tree. -/
def text : Node → String
  | apply operator args _ => applied operator args (texts args)
  | ident name _ => name
  | str value info => if info.isVirtual then value else Text.quoted value
  | num value unsigned _ => numberText value unsigned
termination_by structural node => node

/-- The source forms of several trees. -/
def texts : List Node → List String
  | [] => []
  | node :: nodes => text node :: texts nodes
termination_by structural nodes => nodes

end

end TraceProbe.Node
