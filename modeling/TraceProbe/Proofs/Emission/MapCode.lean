import TraceProbe.Proofs.Emission.InFrame

/-!
# The code of map operators

Keys, conversions and helper calls, as emission appends them once the arguments
of an operator are in the frame.
-/

namespace TraceProbe

namespace Block

open Insn

theorem inert_zeros (start : Int) (widths : List Width) :
    (zeros start widths).all inert = true := by
  induction widths generalizing start with
  | nil => rfl
  | cons width widths ih => exact ih _

theorem inert_fills (start : Int) (bytes : List UInt8) (widths : List Width) :
    (fills start bytes widths).all inert = true := by
  induction widths generalizing start bytes with
  | nil => rfl
  | cons width widths ih => exact ih _ _

end Block

namespace Emit

open Insn

theorem inert_readCode {offset : Int16} {size : Nat} {src : Reg}
    (fixed : (Insn.move .r3 src).inert = true) : (readCode offset size src).all inert = true := by
  unfold readCode
  split
  · rfl
  · simp only [List.all_append, List.all_cons, fixed]
    rfl

theorem inert_constantCode (width : Width) (offset : Int16) (value : UInt64) :
    (constantCode width offset value).all inert = true := by
  unfold constantCode
  split <;> rfl

end Emit

namespace AtSite

open Insn

theorem inert_contextCode (slot : Int16) (size : Nat) (offset : Int16) :
    (contextCode slot size offset).all inert = true := by
  unfold contextCode
  split <;> rfl

/-- The code that converts a value in one slot to another width in another. -/
def convertCode (src dst : Int16) (own wanted : Width) (signed : Bool) : List Insn :=
  .load own.bits .r0 .frame src ::
    (Emit.wideningCode .r0 own.bytes signed ++ [.store wanted.bits .frame .r0 dst])

theorem inert_convertCode (src dst : Int16) (own wanted : Width) (signed : Bool) :
    (convertCode src dst own wanted signed).all inert = true := by
  unfold convertCode Emit.wideningCode
  split <;> rfl

variable {symbols : Symbols} {stream : Stream} {own : Storage} {finish : Site}

theorem convert_of_ne {dst src : Int16} {size wanted : Nat} {node : Node} {type : Ty}
    (different : size ≠ wanted) (known : node.type? = some type)
    (found : Yields (convert ⟨.slot dst, wanted⟩ ⟨.slot src, size⟩ node) ⟨stream, own⟩ () finish) :
    ∃ width target, Width.ofBytes? size = some width ∧ Width.ofBytes? wanted = some target ∧
      finish = ⟨stream.append
        (convertCode src dst width target (decide (size < wanted) && type.isSigned)), own⟩ := by
  have moved {signed : Bool}
      (found : Yields (do
          Emit.loadWidened .r0 ⟨.slot src, size⟩ signed
          Emit.storeReg ⟨.slot dst, wanted⟩ .r0 : AtSite Unit) ⟨stream, own⟩ () finish) :
      ∃ width target, Width.ofBytes? size = some width ∧ Width.ofBytes? wanted = some target ∧
        finish = ⟨stream.append (convertCode src dst width target signed), own⟩ := by
    simp only [yields_bind_iff, yields_lift_iff, Emit.yields_loadWidened_iff,
      Emit.yields_loadReg_slot_iff, Emit.yields_storeReg_slot_iff] at found
    obtain ⟨_, _, ⟨_, ⟨middle, ⟨width, ofOwn, rfl⟩, rfl⟩, rfl⟩, _, ⟨target, ofWanted, rfl⟩, rfl⟩ :=
      found
    refine ⟨width, target, ofOwn, ofWanted, ?_⟩
    rw [Emit.append_append, Emit.append_append, ← Width.bytes_of_ofBytes? ofOwn]
    rfl
  unfold convert at found
  simp only [if_neg different] at found
  split at found
  · rename_i wider
    rw [decide_eq_true wider, Bool.true_and]
    have same : node.knownType = .ok type := knownType_eq_ok_iff.mpr known
    rw [yields_bind_iff] at found
    obtain ⟨_, _, typed, found⟩ := found
    obtain ⟨typed, rfl⟩ := yields_liftExcept_iff.mp typed
    rw [same] at typed
    cases typed
    exact moved found
  · rename_i narrower
    rw [decide_eq_false narrower, Bool.false_and]
    exact moved found

/-- Between slots of one size nothing is converted, and nothing is moved within one slot. -/
theorem convert_of_eq {slot : Int16} {size : Nat} {node : Node}
    (found : Yields (convert ⟨.slot slot, size⟩ ⟨.slot slot, size⟩ node) ⟨stream, own⟩ ()
      finish) : finish = ⟨stream, own⟩ := by
  unfold convert at found
  simp only [if_true, yields_lift_iff, Emit.copyTo_slot, Emit.yields_copyToSlot_slot_iff,
    Block.copy, Emit.append_nil] at found
  obtain ⟨_, rfl, rfl⟩ := found
  rfl

/-- The key of an element is in a slot of the declared size: its own, or a new
one that it was converted into. -/
def KeyIn (key : Ty) (wanted : Nat) (src : Int16) (stream : Stream) (slot : Int16)
    (finish : Stream) : Prop :=
  key.size = wanted ∧ slot = src ∧ finish = stream ∨
    key.size ≠ wanted ∧ ∃ middle width target, stream.Reserves wanted slot middle ∧
      Width.ofBytes? key.size = some width ∧ Width.ofBytes? wanted = some target ∧
      finish = middle.append
        (convertCode src slot width target (decide (key.size < wanted) && key.isSigned))

section Element

variable {map key : Node} {info : Info} {keyType wanted value : Ty} {kind : MapKind} {src : Int16}

theorem keySlot_code {slot : Int16} (small : stream.limit ≤ 32767)
    (mapKnown : map.type? = some (.map wanted value kind)) (keyKnown : key.type? = some keyType)
    (stored : key.storage = ⟨.slot src, keyType.size⟩)
    (found : Yields (keySlot (.apply "[]" [map, key] info)) ⟨stream, own⟩ slot finish) :
    KeyIn keyType wanted.size src stream slot finish.stream ∧ finish.own = own := by
  have typed : map.knownType = .ok (.map wanted value kind) := knownType_eq_ok_iff.mpr mapKnown
  unfold keySlot at found
  simp only [Node.args, typed, yields_bind_iff, yields_liftExcept_iff, stored, Storage.slot?]
    at found
  obtain ⟨_, _, ⟨same, rfl⟩, found⟩ := found
  cases same
  by_cases fits : keyType.size = wanted.size
  · simp only [fits, decide_true, yields_pure_iff] at found
    obtain ⟨rfl, rfl⟩ := found
    exact ⟨.inl ⟨fits, rfl, rfl⟩, rfl⟩
  · simp only [decide_eq_false fits, yields_bind_iff, yields_lift_iff, yields_slotOf_iff] at found
    obtain ⟨⟨place, size⟩, _, ⟨middle, reserved, rfl⟩, _, last, converted, placed, rfl⟩ := found
    unfold Emit.storageFor at reserved
    have free : Storage.isAssigned {} = false := rfl
    simp only [free, Bool.false_eq_true, if_false, yields_bind_iff, yields_pure_iff,
      yields_freshPlace_iff, Request.frame, Bool.not_true, Bool.and_false] at reserved
    obtain ⟨_, _, reserved, same, rfl⟩ := reserved
    cases same
    obtain rfl : place = .slot slot := placed
    split at reserved
    · obtain ⟨offset, reserved, same⟩ := reserved
      cases same
      obtain ⟨width, target, ofOwn, ofWanted, rfl⟩ :=
        convert_of_ne fits keyKnown (convert_of_move converted)
      exact ⟨.inr ⟨fits, _, width, target, Stream.reserves_of_freshSlot small reserved, ofOwn,
        ofWanted, rfl⟩, rfl⟩
    · cases reserved.1

end Element

section Calls

/-- The number of the map of an element. -/
def Refers (symbols : Symbols) (subscript : Node) (number : Nat) : Prop :=
  ∃ map, subscript.argument 0 = .ok map ∧ mapNumber symbols map = .ok number

/-- A declared map is referred to by its own number. -/
theorem Refers.eq_of_get? {name : String} {mapInfo info : Info} {key : Node} {symbol : Symbol}
    {number number' : Nat} (known : symbols.get? name = some symbol)
    (kind : symbol.kind = .map number)
    (refers : Refers symbols (.apply "[]" [.ident name mapInfo, key] info) number') :
    number' = number := by
  obtain ⟨map, first, numbered⟩ := refers
  cases first
  unfold mapNumber at numbered
  simp only [Node.ident?, known, kind, Option.bind_some, SymbolKind.map?] at numbered
  exact (Except.ok.inj numbered).symm

/-- The code that looks up the key in a slot. -/
def lookupCall (number : Nat) (key : Int16) : List Insn :=
  .mapRef .r1 number :: (Block.address .r2 key ++ [.callOf .mapLookupElem])

/-- The code of a read of an element: the value that was found, or zeros. -/
def lookupCode (number : Nat) (key offset : Int16) (size : Nat) (miss hit : Label) : List Insn :=
  lookupCall number key ++ (.jumpImm Opcode.jeq .r0 0 miss ::
    (Emit.readCode offset size .r0 ++ (.goto hit :: .label miss ::
      (Block.clear offset size ++ [.label hit]))))

/-- The code that puts the value in a slot under the key in another. -/
def updateCode (number : Nat) (key value : Int16) : List Insn :=
  .mapRef .r1 number :: (Block.address .r2 key ++ (Block.address .r3 value ++
    [.movImm .r4 0, .callOf .mapUpdateElem]))

/-- The code that removes the key in a slot. -/
def deleteCode (number : Nat) (key : Int16) : List Insn :=
  .mapRef .r1 number :: (Block.address .r2 key ++ [.callOf .mapDeleteElem])

variable {start : Site} {storage : Storage}

theorem emitLookup_code {subscript : Node}
    (found : Yields (emitLookup symbols subscript storage) start () finish) :
    ∃ number slot middle offset miss hit, Refers symbols subscript number ∧
      Yields (keySlot subscript) start slot middle ∧ storage.place = .slot offset ∧ miss ≠ hit ∧
      middle.stream.Grows finish.stream (lookupCode number slot offset storage.size miss hit) ∧
      finish.stream.used = middle.stream.used ∧ finish.own = middle.own := by
  unfold emitLookup at found
  simp only [yields_bind_iff, yields_liftExcept_iff, yields_slotOf_iff] at found
  obtain ⟨map, _, ⟨first, rfl⟩, number, _, ⟨numbered, rfl⟩, slot, middle, keyed, offset, _,
    ⟨placed, rfl⟩, found⟩ := found
  -- In stages: the stream of each step stands in all that follow.
  simp only [yields_lift_iff, Emit.yields_insn_iff, Emit.yields_code_iff,
    Emit.yields_freshLabel_iff] at found
  obtain ⟨_, _, ⟨_, rfl, rfl⟩, _, _, ⟨_, rfl, rfl⟩, _, _, ⟨_, rfl, rfl⟩, found⟩ := found
  obtain ⟨miss, _, ⟨_, ⟨isMiss, rfl⟩, rfl⟩, hit, _, ⟨_, ⟨isHit, rfl⟩, rfl⟩, found⟩ := found
  simp only [Emit.jumpIfEqual, Emit.yields_insn_iff, Emit.yields_readFrom_iff,
    Emit.yields_bind_label_iff, Emit.yields_clear_iff] at found
  obtain ⟨_, _, ⟨_, rfl, rfl⟩, _, _, ⟨_, ⟨_, placed', rfl⟩, rfl⟩, found⟩ := found
  obtain ⟨_, _, ⟨_, rfl, rfl⟩, _, _, ⟨_, ⟨missFree, rfl⟩, rfl⟩, _, _, ⟨_, ⟨-, rfl⟩, rfl⟩, _,
    ⟨hitFree, rfl⟩, rfl⟩ := found
  rw [placed] at placed'
  cases placed'
  have different : miss ≠ hit := by
    rw [← isMiss, ← isHit]
    simp
  refine ⟨number, slot, middle, offset, miss, hit, ⟨map, first, numbered⟩, keyed, placed, different,
    ?_, rfl, rfl⟩
  have cleared : (Block.clear offset storage.size).all inert = true := Block.inert_zeros _ _
  have called := ((Stream.Grows.refl middle.stream).trans
    (Stream.grows_append [mapRef .r1 number] rfl)).trans
    (Stream.grows_append (Block.address .r2 slot) rfl) |>.trans
    (Stream.grows_append [callOf .mapLookupElem] rfl)
  have read := ((called.trans Stream.grows_freshLabel).trans Stream.grows_freshLabel).trans
    (Stream.grows_append [jumpImm Opcode.jeq .r0 0 miss] rfl) |>.trans
    (Stream.grows_append _ (@Emit.inert_readCode offset storage.size .r0 rfl))
  have missed :=
    (read.trans (Stream.grows_append [goto hit] rfl)).trans (Stream.grows_bound missFree)
  have whole := (missed.trans (Stream.grows_append _ cleared)).trans (Stream.grows_bound hitFree)
  simpa [lookupCode, lookupCall] using whole

theorem emitUpdate_code {target : Node}
    (found : Yields (emitUpdate symbols target) start () finish) :
    ∃ number slot value middle, Refers symbols target number ∧
      Yields (keySlot target) start slot middle ∧ target.storage.place = .slot value ∧
      finish = ⟨middle.stream.append (updateCode number slot value), middle.own⟩ := by
  unfold emitUpdate at found
  simp only [yields_bind_iff, yields_liftExcept_iff, yields_lift_iff, Emit.yields_insn_iff,
    Emit.yields_code_iff, yields_slotOf_iff] at found
  obtain ⟨map, _, ⟨first, rfl⟩, number, _, ⟨numbered, rfl⟩, slot, middle, keyed, value, _,
    ⟨placed, rfl⟩, found⟩ := found
  obtain ⟨_, _, ⟨_, rfl, rfl⟩, _, _, ⟨_, rfl, rfl⟩, _, _, ⟨_, rfl, rfl⟩, _, _, ⟨_, rfl, rfl⟩, _,
    rfl, rfl⟩ := found
  refine ⟨number, slot, value, middle, ⟨map, first, numbered⟩, keyed, placed, ?_⟩
  simp only [Emit.append_append]
  rfl

theorem emitDelete_code {node target : Node} (first : node.argument 0 = .ok target)
    (found : Yields (emitDelete symbols node) start () finish) :
    ∃ number slot middle, Refers symbols target number ∧
      Yields (keySlot target) start slot middle ∧
      finish = ⟨middle.stream.append (deleteCode number slot), middle.own⟩ := by
  unfold emitDelete at found
  simp only [first, yields_bind_iff, yields_liftExcept_iff, yields_lift_iff, Emit.yields_insn_iff,
    Emit.yields_code_iff] at found
  obtain ⟨_, _, ⟨same, rfl⟩, map, _, ⟨second, rfl⟩, number, _, ⟨numbered, rfl⟩, slot, middle, keyed,
    _, _, ⟨_, rfl, rfl⟩, _, _, ⟨_, rfl, rfl⟩, _, rfl, rfl⟩ := found
  cases same
  refine ⟨number, slot, middle, ⟨map, second, numbered⟩, keyed, ?_⟩
  simp only [Emit.append_append]
  rfl

end Calls

end AtSite

namespace Node

open AtSite

variable {symbols : Symbols} {request : Request} {site finish : Site} {map key : Node}
  {info : Info} {wanted value : Ty} {kind : MapKind} {plan : Plan}

theorem plan_subscript (known : map.type? = some (.map wanted value kind))
    (found : Yields ((apply "[]" [map, key] info).planApplication request) site plan finish) :
    plan = ⟨request.onFrame, [{}, .frame]⟩ ∧ finish = site := by
  have typed : map.knownType = .ok (.map wanted value kind) := knownType_eq_ok_iff.mpr known
  have first : (apply "[]" [map, key] info).argument 0 = .ok map := rfl
  unfold planApplication at found
  simp only [yields_bind_iff, yields_liftDiagnostic_iff] at found
  obtain ⟨_, _, ⟨looked, rfl⟩, found⟩ := found
  cases looked
  simp only [Operator.plan, planSubscript, first, yields_bind_iff, yields_liftExcept_iff] at found
  obtain ⟨_, _, ⟨_, _, ⟨same, rfl⟩, found⟩, checked⟩ := found
  cases same
  simp only [typed] at found
  obtain ⟨_, _, ⟨same, rfl⟩, found⟩ := found
  cases same
  obtain ⟨rfl, rfl⟩ := yields_pure_iff.mp found
  obtain ⟨rfl, rfl⟩ := yields_pure_iff.mp checked
  exact ⟨rfl, rfl⟩

/-- A subscript of a map has a place for its value, also where the value is not read. -/
theorem finish_subscript (known : map.type? = some (.map wanted value kind))
    (found : Yields ((apply "[]" [map, key] info).finishApplication symbols request) site ()
      finish) :
    ∃ storage middle, Yields (allocateFor (apply "[]" [map, key] info) request)
      site storage middle ∧
      if request.target then finish = middle
      else Yields (emitLookup symbols (apply "[]" [map, key] info) storage) middle () finish := by
  have typed : map.knownType = .ok (.map wanted value kind) := knownType_eq_ok_iff.mpr known
  have first : (apply "[]" [map, key] info).argument 0 = .ok map := rfl
  unfold finishApplication at found
  simp only [yields_bind_iff, yields_liftDiagnostic_iff] at found
  obtain ⟨_, _, ⟨looked, rfl⟩, found⟩ := found
  cases looked
  simp only [Operator.emit, emitSubscript, first, yields_bind_iff, yields_liftExcept_iff] at found
  obtain ⟨_, _, ⟨same, rfl⟩, found⟩ := found
  cases same
  simp only [typed] at found
  obtain ⟨_, _, ⟨same, rfl⟩, found⟩ := found
  cases same
  simp only [Ty.isMap, Bool.not_true, Bool.and_false, Bool.false_eq_true, if_false,
    yields_bind_iff] at found
  obtain ⟨storage, middle, allocated, found⟩ := found
  refine ⟨storage, middle, allocated, ?_⟩
  cases target : request.target with
  | true =>
      simp only [target, Bool.not_true, Bool.false_eq_true, if_false, yields_pure_iff] at found
      simpa using found.2.symm
  | false =>
      simp only [target, Bool.not_false, if_true] at found
      simpa using found

variable {target assigned : Node} {targetType valueType : Ty} {stream : Stream}

theorem plan_assign (small : stream.limit ≤ 32767) (targetKnown : target.type? = some targetType)
    (valueKnown : assigned.type? = some valueType)
    (found : Yields ((apply "=" [target, assigned] info).planApplication request) ⟨stream, {}⟩ plan
      finish) :
    ∃ slot middle, request.Takes stream targetType.size slot middle ∧
      finish = ⟨middle, ⟨.slot slot, targetType.size⟩⟩ ∧
      plan = ⟨request.onFrame, [(Request.inSlot slot).asTarget,
        if valueType.size = targetType.size then Request.inSlot slot else .frame]⟩ := by
  have targetTyped : target.knownType = .ok targetType := knownType_eq_ok_iff.mpr targetKnown
  have valueTyped : assigned.knownType = .ok valueType := knownType_eq_ok_iff.mpr valueKnown
  have first : (apply "=" [target, assigned] info).argument 0 = .ok target := rfl
  have second : (apply "=" [target, assigned] info).argument 1 = .ok assigned := rfl
  unfold planApplication at found
  simp only [yields_bind_iff, yields_liftDiagnostic_iff] at found
  obtain ⟨_, _, ⟨looked, rfl⟩, found⟩ := found
  cases looked
  simp only [Operator.plan, planAssign, first, second, yields_bind_iff, yields_liftExcept_iff,
    yields_slotOf_iff, yields_pure_iff] at found
  obtain ⟨_, _, ⟨_, _, ⟨same, rfl⟩, _, _, ⟨typed, rfl⟩, _, _, ⟨same', rfl⟩, _, _, ⟨typed', rfl⟩,
    storage, _, allocated, slot, _, ⟨placed, rfl⟩, rfl, rfl⟩, checked⟩ := found
  cases same
  cases same'
  rw [targetTyped] at typed
  rw [valueTyped] at typed'
  cases typed
  cases typed'
  obtain ⟨same, places⟩ := allocate_inFrame small rfl allocated
  obtain ⟨rfl, rfl⟩ := yields_pure_iff.mp checked
  rcases places with ⟨rfl, -⟩ | ⟨slot', rfl, takes⟩
  · cases placed
  · cases placed
    exact ⟨slot, _, takes, same, rfl⟩

theorem finish_assign (targets : target.applies "[]" = true)
    (found : Yields ((apply "=" [target, assigned] info).finishApplication symbols request) site ()
      finish) :
    ∃ middle, Yields (convert target.storage assigned.storage assigned) site () middle ∧
      Yields (emitUpdate symbols target) middle () finish := by
  unfold finishApplication at found
  simp only [yields_bind_iff, yields_liftDiagnostic_iff] at found
  obtain ⟨_, _, ⟨looked, rfl⟩, found⟩ := found
  cases looked
  simp only [Operator.emit, emitAssign, args, targets, if_true, yields_bind_iff] at found
  obtain ⟨_, middle, converted, updated⟩ := found
  exact ⟨middle, convert_of_move converted, updated⟩

theorem plan_delete (found : Yields ((apply "delete" [target] info).planApplication request) site
    plan finish) : plan = ⟨request, [Request.frame.asTarget]⟩ ∧ finish = site := by
  unfold planApplication at found
  simp only [yields_bind_iff, yields_liftDiagnostic_iff] at found
  obtain ⟨_, _, ⟨looked, rfl⟩, found⟩ := found
  cases looked
  obtain ⟨_, _, planned, checked⟩ := found
  obtain ⟨rfl, rfl⟩ := yields_pure_iff.mp planned
  obtain ⟨rfl, rfl⟩ := yields_pure_iff.mp checked
  exact ⟨rfl, rfl⟩

theorem finish_delete
    (found : Yields ((apply "delete" [target] info).finishApplication symbols request) site ()
      finish) : Yields (emitDelete symbols (apply "delete" [target] info)) site () finish := by
  unfold finishApplication at found
  simp only [yields_bind_iff, yields_liftDiagnostic_iff] at found
  obtain ⟨_, _, ⟨looked, rfl⟩, found⟩ := found
  cases looked
  exact found

end Node

end TraceProbe
