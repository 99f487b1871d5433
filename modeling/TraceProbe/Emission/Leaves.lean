import TraceProbe.Emission.Basic

/-!
# Emission of leaves

Constants and strings are stored where their parents want them.  Context
variables are loaded through the saved context.  A map has no value of its own:
the operators that use it load its reference themselves.
-/

namespace TraceProbe

namespace AtSite

/-- The bytes of a string literal in a slot of so many bytes: cut off, or
filled up with zeros. -/
def paddedBytes (value : String) (size : Nat) : List UInt8 :=
  let bytes := value.toUTF8.toList.take size
  bytes ++ List.replicate (size - bytes.length) 0

/-- Loads the context variable at an offset into a storage. -/
def loadContext (node : Node) (own : Storage) (offset : Int16) : AtSite Unit := do
  match own.place, Width.ofBytes? own.size with
  | .register reg, some width => Emit.insn (.load width.bits reg .context offset)
  | .slot _, some width =>
      Emit.insn (.load width.bits .r0 .context offset)
      Emit.storeReg own .r0
  | .slot _, none =>
      Emit.insn (.move .r3 .context)
      Emit.insn (.alu64Imm Opcode.add .r3 (Int32.ofInt offset.toInt))
      Emit.readFrom own .r3
  | _, _ => throw (.internal s!"no storage for context variable `{node.text}`")

/-- Emits a leaf. -/
def leaf (symbols : Symbols) (node : Node) (request : Request) : AtSite Unit := do
  if node.isVirtual then return ()
  match node with
  | .num value _ _ =>
      let own ← allocateFor node request
      Emit.constant own value
  | .str value _ =>
      let own ← allocateFor node request.onFrame
      let offset ← slotOf own "string literal not on the stack"
      Emit.fill offset (paddedBytes value own.size)
  | .ident name _ =>
      match symbols.get? name with
      | none => throw (.internal s!"`{name}` was never resolved")
      | some symbol =>
          match symbol.kind with
          | .map _ => return ()
          | .context offset =>
              let own ← allocateFor node request
              loadContext node own offset
  | .apply _ _ _ => throw (.internal "operator emitted as a leaf")

end AtSite

end TraceProbe
