import TraceProbe.Stream.Moves
import TraceProbe.Symbols
import TraceProbe.Typing.Basic
import TraceProbe.Validation

/-!
# Emission at an operator

An operator works twice: before its arguments, when it says how it wants them
stored, and after them, when it appends its own code.  Both times it sees the
stream and its own storage, which it may assign.
-/

namespace TraceProbe

/-- What an operator may change when it is emitted. -/
structure Site where
  stream : Stream
  own : Storage
deriving Inhabited

/-- A step of an operator's emission. -/
abbrev AtSite := ExceptT Fault (StateM Site)

/-- A step that appends to the stream leaves the operator's storage alone. -/
instance : MonadLift Emit AtSite where
  monadLift step := ExceptT.mk fun site =>
    let (result, stream) := step.run.run site.stream
    (result, { site with stream := stream })

/-- How an operator wants itself and its arguments stored. -/
structure Plan where
  own : Request
  args : List Request
deriving DecidableEq, Inhabited

/-- A plan that leaves the arguments to themselves. -/
def Plan.free (node : Node) (request : Request) : Plan :=
  ⟨request, List.replicate node.args.length {}⟩

namespace AtSite

/-- Assigns storage for a value of a type to the operator, unless it has a
place.  The size stays recorded even if no place is found. -/
def allocate (type : Ty) (request : Request) : AtSite Storage := do
  let before := (← getThe Site).own
  if before.isAssigned then return before
  modifyThe Site fun site => { site with own := { before with size := type.size } }
  let place ← Emit.freshPlace type request
  modifyThe Site fun site => { site with own := ⟨place, type.size⟩ }
  return ⟨place, type.size⟩

/-- Assigns storage to an operator according to its type. -/
def allocateFor (node : Node) (request : Request) : AtSite Storage := do
  allocate (← node.knownType) request

/-- The frame offset of a value that must be in the frame. -/
def slotOf (storage : Storage) (otherwise : String) : AtSite Int16 :=
  match storage.slot? with
  | some offset => return offset
  | none => throw (.internal otherwise)

/-- The frame offset of the value of a node. -/
def slotOfNode (node : Node) : AtSite Int16 :=
  slotOf node.storage s!"`{node.text}` is not on the stack"

end AtSite

/-- A frame offset moved by a distance, which is narrowed to sixteen bits
first. -/
def movedOffset (base : Int16) (distance : Nat) : Except Fault Int16 :=
  let moved := base.toInt + (Int16.ofNat distance).toInt
  if -0x8000 ≤ moved ∧ moved < 0x8000 then .ok (Int16.ofInt moved)
  else .error (.defect .frameOffset)

end TraceProbe
