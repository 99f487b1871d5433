import TraceProbe.Operator.Basic

/-!
# Expansion of arrows

An arrow is short for a dot behind a dereference.  Expansion works from the
root down, and an arrow that has the wrong number of arguments or no member
name stays as it is, for validation to report.  An operator without a
description ends the pass; what was expanded before it stays expanded.
-/

namespace TraceProbe

/-- What expansion leaves behind: the tree as far as it came, and how it
ended. -/
structure Expanded (α : Type) where
  tree : α
  outcome : Except Diagnostic Unit

namespace Operator

/-- The dot that an arrow stands for.  It stands at the arrow and its
dereference at the arrow's base; the member is a fresh name. -/
def expandArrow (base : Node) (member : String) (loc : Loc) : Node :=
  .apply "." [.apply "u*" [base] { loc := base.loc }, .str member {}] { loc := loc }

/-- The replacement of an application, if its operator is short for something
else. -/
def expand? (operator : Operator) (node : Node) : Option Node :=
  match operator, node.args with
  | arrow, [base, member] => member.str?.map (expandArrow base · node.loc)
  | _, _ => none

end Operator

namespace Node

mutual

/-- Expands the arrows of a tree. -/
def expand : Node → Expanded Node
  | apply name args info =>
      match OperatorTable.language.lookup (apply name args info) with
      | .error cause => ⟨apply name args info, .error cause⟩
      | .ok description =>
          match description.operator, args with
          | .arrow, [base, str member _] =>
              let inner := expand base
              ⟨Operator.expandArrow inner.tree member info.loc, inner.outcome⟩
          | _, args =>
              let inner := expandAll args
              ⟨apply name inner.tree info, inner.outcome⟩
  | ident name info => ⟨ident name info, .ok ()⟩
  | str value info => ⟨str value info, .ok ()⟩
  | num value unsigned info => ⟨num value unsigned info, .ok ()⟩
termination_by structural node => node

/-- Expands the arrows of several trees, up to the first that fails. -/
def expandAll : List Node → Expanded (List Node)
  | [] => ⟨[], .ok ()⟩
  | node :: nodes =>
      let first := expand node
      match first.outcome with
      | .error cause => ⟨first.tree :: nodes, .error cause⟩
      | .ok () =>
          let others := expandAll nodes
          ⟨first.tree :: others.tree, others.outcome⟩
termination_by structural nodes => nodes

end

end Node

end TraceProbe
