import TraceProbe.Diagnostic
import TraceProbe.Storage
import TraceProbe.Ty.Layout

/-!
# Instruction streams

The code of a probe grows at the end of one stream.  The stream also hands out
labels, virtual registers and slots of the frame.  Slots are taken downwards
from the frame pointer and never given back.

A step on a stream may end with a fault, and what it appended before stays.
-/

namespace TraceProbe

/-- The code emitted so far and what was handed out with it. -/
structure Stream where
  insns : Array Insn := #[]
  /-- Whether each label handed out is bound. -/
  labels : Array Bool := #[]
  /-- The number of the next virtual register. -/
  nextReg : Nat := 0
  /-- Bytes of the frame in use. -/
  used : Nat := 0
  /-- Bytes that the frame may have. -/
  limit : Nat := 512
deriving Inhabited

/-- A step that appends to a stream. -/
abbrev Emit := ExceptT Fault (StateM Stream)

namespace Stream

/-- An empty stream for a frame of a given size. -/
def new (limit : Nat) : Stream := { limit := limit }

/-- The stream with more instructions at its end. -/
def append (stream : Stream) (code : List Insn) : Stream :=
  { stream with insns := code.foldl Array.push stream.insns }

/-- Whether a label is bound. -/
def isBound (stream : Stream) (label : Label) : Bool :=
  stream.labels[label.index]?.getD false

end Stream

namespace Emit

/-- Appends instructions. -/
def code (insns : List Insn) : Emit Unit :=
  modify (·.append insns)

/-- Appends one instruction. -/
def insn (insn : Insn) : Emit Unit :=
  code [insn]

/-- Ends the step with an inconsistency. -/
def inconsistent {α : Type} (description : String) : Emit α :=
  throw (.internal description)

/-- Hands out a label that is not bound. -/
def freshLabel : Emit Label := do
  let stream ← get
  set { stream with labels := stream.labels.push false }
  return ⟨stream.labels.size⟩

/-- Binds a label at the end of the stream; each label is bound once. -/
def bind (label : Label) : Emit Unit := do
  let stream ← get
  match stream.labels[label.index]? with
  | some false =>
      set { stream with
        labels := stream.labels.setIfInBounds label.index true
        insns := stream.insns.push (.label label) }
  | some true => inconsistent s!"label L{label.index} bound twice"
  | none => inconsistent s!"label L{label.index} was never allocated"

/-- Hands out a virtual register. -/
def freshReg : Emit Reg := do
  let stream ← get
  set { stream with nextReg := stream.nextReg + 1 }
  return .virtual stream.nextReg

/-- Where the frame ends once it holds so many more bytes: every slot takes at
least one byte and is aligned to at most eight. -/
def frameEnd (used size alignment : Nat) : Nat :=
  alignUp (used + max size 1) (min (max alignment 1) 8)

/-- The offset of the slot at the end of a frame of so many bytes.  The size is
narrowed to sixteen bits first, and the least value has no opposite. -/
def slotOffset? (used : Nat) : Option Int16 :=
  let narrowed := Int16.ofNat used
  if narrowed = Int16.minValue then none else some (-narrowed)

/-- Reserves bytes of the frame and returns the offset of the slot. -/
def freshSlot (size alignment : Nat) : Emit Int16 := do
  let stream ← get
  let used := frameEnd stream.used size alignment
  if stream.limit < used then
    throw (.diagnostic (.resourceLimit
      s!"stack exhausted: {used} bytes needed, {stream.limit} available" {}))
  set { stream with used := used }
  match slotOffset? used with
  | some offset => return offset
  | none => throw (.defect .frameOffset)

/-- Finds a place for a value: the slot of the request if it names one, a
register for a word that need not be in the frame, and a new slot for every
other value that takes room. -/
def freshPlace (type : Ty) (request : Request) : Emit Place := do
  match request.slot with
  | some offset => return .slot offset
  | none =>
      if type.isWord && !request.inFrame then return .register (← freshReg)
      else if 0 < type.size then return .slot (← freshSlot type.size type.align)
      else return .unassigned

/-- Finds storage for a value of a type; storage with a place stays as it is. -/
def storageFor (storage : Storage) (type : Ty) (request : Request) : Emit Storage := do
  if storage.isAssigned then return storage
  else return ⟨← freshPlace type request, type.size⟩

end Emit

end TraceProbe
