import TraceProbe.Emission.Basic

/-!
# Emission of subscripts and assignments

Map helpers take pointers to a key and a value in the frame, of exactly the
sizes that the map has.  A scalar of another width is converted on the way:
cut off where the target is narrower, and widened by its own sign otherwise.
-/

namespace TraceProbe.AtSite

/-- The number of the map that a node names. -/
def mapNumber (symbols : Symbols) (node : Node) : Except Fault Nat :=
  match node.ident? with
  | none => .error (.unsupported node.loc s!"`{node.text}` is not a map name")
  | some name =>
      match (symbols.get? name).bind (·.kind.map?) with
      | some number => .ok number
      | none => .error (.internal s!"`{name}` is not a map")

/-- Moves a value into a storage, converting its width if the sizes differ. -/
def convert (dst src : Storage) (node : Node) : AtSite Unit := do
  if src.size = dst.size then Emit.copyTo dst src
  else
    let signed ← if src.size < dst.size then pure (← node.knownType).isSigned else pure false
    Emit.loadWidened .r0 src signed
    Emit.storeReg dst .r0

/-- Moves a value into a storage as `convert` says, within reach of positions in
the frame. -/
def move (dst src : Storage) (node : Node) : AtSite Unit := do
  if src.size = dst.size then Emit.reach (Emit.copyEnd dst src)
  convert dst src node

/-- The slot that holds the key of a map subscript: the key's own if it has the
right size, and a new one otherwise. -/
def keySlot (subscript : Node) : AtSite Int16 := do
  match subscript.args with
  | [map, key] =>
      match ← map.knownType with
      | .map keyType _ _ =>
          match key.storage.slot?, decide (key.storage.size = keyType.size) with
          | some offset, true => return offset
          | _, _ =>
              let slot ← Emit.storageFor {} keyType .frame
              move slot key.storage key
              slotOf slot "map key not on the stack"
      | other => throw (.internal s!"subscript of '{other.text}' as a map")
  | _ => throw (.internal "subscript without map and key")

/-- Emits a read of a map element: the value under the key, or zeros if the map
does not hold the key. -/
def emitLookup (symbols : Symbols) (node : Node) (own : Storage) : AtSite Unit := do
  let map ← mapNumber symbols (← node.argument 0)
  let key ← keySlot node
  let offset ← slotOf own "map value not on the stack"
  Emit.insn (.mapRef .r1 map)
  Emit.code (Block.address .r2 key)
  Emit.insn (.callOf .mapLookupElem)
  let miss ← Emit.freshLabel
  let hit ← Emit.freshLabel
  Emit.jumpIfEqual .r0 0 miss
  Emit.readFrom own .r0
  Emit.insn (.goto hit)
  Emit.bind miss
  Emit.clear offset own.size
  Emit.bind hit

/-- Emits an update of a map element with the value in the slot of its
subscript. -/
def emitUpdate (symbols : Symbols) (target : Node) : AtSite Unit := do
  let map ← mapNumber symbols (← target.argument 0)
  let key ← keySlot target
  let value ← slotOf target.storage "map value not on the stack"
  Emit.insn (.mapRef .r1 map)
  Emit.code (Block.address .r2 key)
  Emit.code (Block.address .r3 value)
  Emit.insn (.movImm .r4 0)
  Emit.insn (.callOf .mapUpdateElem)

/-- Both arguments of a subscript of an array or a pointer. -/
def subscriptParts (node : Node) : AtSite (Node × Node) :=
  match node.args with
  | [collection, index] => return (collection, index)
  | _ => throw (.internal "subscript without collection and key")

/-- The distance of an element from the start of an array, in 64 bits. -/
def elementOffset (position : UInt64) (size : Nat) : Except Fault Nat :=
  let distance := position.toNat * size
  if distance < UInt64.size then .ok distance else .error (.defect .distance)

/-- Emits an element of an array in the frame. -/
def emitArrayElement (node : Node) (own : Storage) : AtSite Unit := do
  let (array, index) ← subscriptParts node
  match index.num? with
  | none => throw (.internal "array index is not a constant")
  | some position =>
      let base ← slotOfNode array
      let offset ← movedOffset base (← elementOffset position own.size)
      let element : Storage := ⟨.slot offset, own.size⟩
      Emit.reach (Emit.copyEnd own element)
      Emit.copyTo own element

/-- The distance of a pointer's element, modulo 2^64 and if it fits in a signed
immediate. -/
def elementDistance? (position : UInt64) (size : Nat) : Option Int32 :=
  Emit.smallImmediate? (position * UInt64.ofNat size)

/-- Emits an element behind a pointer. -/
def emitPointerElement (node : Node) (own : Storage) : AtSite Unit := do
  let (pointer, index) ← subscriptParts node
  Emit.loadReg .r3 pointer.storage
  match index.num? with
  | some position =>
      match elementDistance? position own.size with
      | none =>
          throw (.unsupported node.loc s!"offset of `{node.text}` does not fit in 32 bits")
      | some distance =>
          if distance ≠ 0 then Emit.insn (.alu64Imm Opcode.add .r3 distance)
  | none =>
      Emit.loadReg .r0 index.storage
      Emit.insn (.alu64Imm Opcode.mul .r0 (Int32.ofNat own.size))
      Emit.insn (.alu64Reg Opcode.add .r3 .r0)
  Emit.readFrom own .r3

/-- How a subscript wants its collection and key. -/
def planSubscript (node : Node) (request : Request) : AtSite Plan := do
  let collection ← node.argument 0
  match ← collection.knownType with
  | .map _ _ _ => return ⟨request.onFrame, [{}, .frame]⟩
  | .array _ _ =>
      let index ← node.argument 1
      match index.num? with
      | some _ => return ⟨request, [.frame, {}]⟩
      | none =>
          throw (.unsupported node.loc
            s!"non-constant index `{index.text}` into array `{collection.text}`")
  | .pointer _ => return .free node request.onFrame
  | other => throw (.internal s!"subscript of '{other.text}'")

/-- Emits a subscript.  Only map elements can be targets, and a target is not
read. -/
def emitSubscript (symbols : Symbols) (node : Node) (request : Request) : AtSite Unit := do
  let type ← (← node.argument 0).knownType
  if request.target && !type.isMap then
    throw (.unsupported node.loc
      s!"can't write to `{node.text}`, only map elements are assignable")
  match type with
  | .map _ _ _ =>
      let own ← allocateFor node request
      if !request.target then emitLookup symbols node own
  | .array _ _ => emitArrayElement node (← allocateFor node request)
  | .pointer _ => emitPointerElement node (← allocateFor node request)
  | other => throw (.internal s!"subscript of '{other.text}'")

/-- Reserves the slot of an assignment, which its target takes.  The value goes
straight into it as well, unless it has to be converted. -/
def planAssign (node : Node) (request : Request) : AtSite Plan := do
  let targetType ← (← node.argument 0).knownType
  let valueType ← (← node.argument 1).knownType
  let own ← allocate targetType request.onFrame
  let slot ← slotOf own "assignment slot not on the stack"
  let valueRequest :=
    if valueType.size = targetType.size then Request.inSlot slot else .frame
  return ⟨request.onFrame, [(Request.inSlot slot).asTarget, valueRequest]⟩

/-- Emits an assignment once target and value are stored. -/
def emitAssign (symbols : Symbols) (node : Node) : AtSite Unit := do
  match node.args with
  | [target, value] =>
      move target.storage value.storage value
      if target.applies "[]" then emitUpdate symbols target
  | _ => throw (.internal "assignment without operands")

/-- Emits the removal of a key. -/
def emitDelete (symbols : Symbols) (node : Node) : AtSite Unit := do
  let target ← node.argument 0
  let map ← mapNumber symbols (← target.argument 0)
  let key ← keySlot target
  Emit.insn (.mapRef .r1 map)
  Emit.code (Block.address .r2 key)
  Emit.insn (.callOf .mapDeleteElem)

end TraceProbe.AtSite
