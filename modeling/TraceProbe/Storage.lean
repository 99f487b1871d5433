import TraceProbe.Insn.Basic

/-!
# Storage

Where the value of a node lives once its code is emitted, and how a parent
asks a child to store its value.
-/

namespace TraceProbe

/-- The place of a value. -/
inductive Place where
  /-- Not assigned yet, or the node has no value. -/
  | unassigned
  | register (reg : Reg)
  /-- A slot of the frame, by its offset from the frame pointer. -/
  | slot (offset : Int16)
deriving DecidableEq, Inhabited

/-- Place and size in bytes of a value. -/
structure Storage where
  place : Place := .unassigned
  size : Nat := 0
deriving DecidableEq, Inhabited

namespace Storage

/-- Whether a place is assigned. -/
def isAssigned (storage : Storage) : Bool :=
  storage.place ≠ .unassigned

/-- The frame offset of a value in the frame. -/
def slot? (storage : Storage) : Option Int16 :=
  match storage.place with
  | .slot offset => some offset
  | _ => none

/-- The register of a value in a register. -/
def register? (storage : Storage) : Option Reg :=
  match storage.place with
  | .register reg => some reg
  | _ => none

end Storage

/-- How a parent wants the value of a child. -/
structure Request where
  /-- The value must be in the frame. -/
  inFrame : Bool := false
  /-- The value is about to be overwritten, so it need not be loaded. -/
  target : Bool := false
  /-- Only one member is read, so the whole object need not be loaded. -/
  memberOnly : Bool := false
  /-- The slot that the parent chose for the value. -/
  slot : Option Int16 := none
deriving DecidableEq, Inhabited

namespace Request

/-- A value anywhere in the frame. -/
def frame : Request := { inFrame := true }

/-- A value in a given slot of the frame. -/
def inSlot (offset : Int16) : Request := { inFrame := true, slot := some offset }

/-- The same request, forced into the frame. -/
def onFrame (request : Request) : Request := { request with inFrame := true }

/-- The same request, for the target of an assignment. -/
def asTarget (request : Request) : Request := { request with target := true }

/-- The same request, for the base of a member access. -/
def forMember (request : Request) : Request := { request with memberOnly := true }

end Request

end TraceProbe
