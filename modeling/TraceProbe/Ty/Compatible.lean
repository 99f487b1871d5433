import TraceProbe.Ty.Basic

/-!
# Compatible types

A value of one type may stand where a compatible type is expected.  All
scalars are compatible with each other; records go by their name and by
whether they are unions; everything else goes by its parts.
-/

namespace TraceProbe.Ty

mutual

/-- Whether a value of the right type may be stored where the left type is
expected. -/
def compatible : Ty → Ty → Bool
  | void, void => true
  | scalar _, scalar _ => true
  | pointer left, pointer right => compatible left right
  | array left leftLength, array right rightLength =>
      leftLength = rightLength && compatible left right
  | record left, record right => left.name = right.name && left.union = right.union
  | map leftKey leftValue _, map rightKey rightValue _ =>
      compatible leftKey rightKey && compatible leftValue rightValue
  | function ⟨leftResult, lefts, leftVariadic⟩,
      function ⟨rightResult, rights, rightVariadic⟩ =>
      leftVariadic = rightVariadic && compatible leftResult rightResult &&
        compatibleAll lefts rights
  | _, _ => false
termination_by structural left => left

/-- Whether two parameter lists have one length and agree place by place. -/
def compatibleAll : List Ty → List Ty → Bool
  | [], [] => true
  | left :: lefts, right :: rights => compatible left right && compatibleAll lefts rights
  | _, _ => false
termination_by structural left => left

end

end TraceProbe.Ty
