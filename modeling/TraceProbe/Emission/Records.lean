import TraceProbe.Emission.Basic

/-!
# Emission of records and pointers

A member behind a dereference is read alone, without reading the object around
it.  A struct literal reserves its bytes before its arguments, which are then
stored straight into them; the gaps between its members are cleared.
-/

namespace TraceProbe.AtSite

/-- How a dot wants its base: a dereference is left to the dot, anything else
must be in the frame. -/
def planDot (node : Node) (request : Request) : AtSite Plan := do
  let base ← node.argument 0
  if base.applies "u*" then return ⟨request.onFrame, [Request.forMember {}, {}]⟩
  else return ⟨request, [.frame, {}]⟩

/-- Reads one member through the pointer behind a dereference. -/
def readMember (base : Node) (own : Storage) (offset : Nat) : AtSite Unit := do
  match base.args with
  | [] => throw (.internal "dereference without operand")
  | pointer :: _ =>
      Emit.loadReg .r3 pointer.storage
      if offset ≠ 0 then Emit.insn (.alu64Imm Opcode.add .r3 (Int32.ofNat offset))
      Emit.readFrom own .r3

/-- Takes one member out of a record in the frame. -/
def takeMember (base : Node) (own : Storage) (offset : Nat) : AtSite Unit := do
  let start ← slotOfNode base
  let place ← movedOffset start offset
  match own.place with
  | .register reg =>
      let width ← Emit.accessWidth own.size s!"member of {own.size} bytes in a register"
      Emit.insn (.load width.bits reg .frame place)
  | _ =>
      Emit.code (Block.address .r3 place)
      Emit.readFrom own .r3

/-- Emits a dot. -/
def emitDot (node : Node) (request : Request) : AtSite Unit := do
  let own ← allocateFor node request
  let base ← node.argument 0
  let type ← base.knownType
  let member ← node.memberName
  match type.offsetOf? member with
  | none => throw (.internal s!"no offset for member `{member}`")
  | some offset =>
      if !base.storage.isAssigned && base.applies "u*" then readMember base own offset
      else takeMember base own offset

/-- Emits a dereference, unless the parent reads a member through it or
overwrites it. -/
def emitDeref (node : Node) (request : Request) : AtSite Unit := do
  if request.memberOnly then return ()
  let own ← allocateFor node request
  if request.target then return ()
  let pointer ← node.argument 0
  Emit.loadReg .r0 pointer.storage
  Emit.readFrom own .r0

/-- Record type and frame offset of a struct literal. -/
def literalShape (node : Node) (own : Storage) : AtSite (Ty × Record × Int16) := do
  let type ← node.knownType
  match type.record? with
  | none => throw (.internal s!"`{node.text}` is not a struct")
  | some shape =>
      let base ← slotOf own "struct literal not on the stack"
      return (type, shape, base)

/-- Clears the bytes of the frame from one distance to another. -/
def clearGap (base : Int16) (start stop : Nat) : AtSite Unit := do
  if start < stop then
    Emit.clear (← movedOffset base start) (stop - start)

/-- Clears the gap before every member, and asks for each argument in its place
unless it is stored already.  The result names the end of the last member. -/
def planMembers (base : Int16) (stop : Nat) :
    List (Field × Nat) → List Node → AtSite (List Request × Nat)
  | (field, offset) :: members, arg :: args => do
      clearGap base stop offset
      let request ←
        if arg.storage.isAssigned then pure {}
        else pure (Request.inSlot (← movedOffset base offset))
      let (requests, stop) ← planMembers base (offset + field.type.size) members args
      return (request :: requests, stop)
  | _, _ => return ([], stop)

/-- Reserves a struct literal, clears its padding and places its arguments. -/
def planStructLiteral (node : Node) (request : Request) : AtSite Plan := do
  let own ← allocateFor node request.onFrame
  let (type, shape, base) ← literalShape node own
  let (requests, stop) ← planMembers base 0 (shape.fields.zip shape.offsets) node.args
  clearGap base stop type.size
  return ⟨request.onFrame, requests⟩

/-- Copies the arguments of a struct literal to their places; one that is
there already is not moved. -/
def copyMembers (base : Int16) : List Node → List Nat → AtSite Unit
  | arg :: args, offset :: offsets => do
      let place ← movedOffset base offset
      Emit.reach (Emit.copyEnd ⟨.slot place, arg.storage.size⟩ arg.storage)
      Emit.copyToSlot place arg.storage
      copyMembers base args offsets
  | _, _ => return ()

/-- The frame offset of a struct literal comes before the question whether its
type is a record at all. -/
def emitStructLiteral (node : Node) : AtSite Unit := do
  let type ← node.knownType
  let base ← slotOf node.storage "struct literal not on the stack"
  match type.record? with
  | none => throw (.internal s!"`{node.text}` is not a struct")
  | some shape => copyMembers base node.args shape.offsets

end TraceProbe.AtSite
