import TraceProbe.Proofs.MapLanguage.Expressions

/-!
# Code of statements

A statement changes its map as the language says, and leaves the machine ready
for the next one.
-/

namespace TraceProbe

open Symbolic AtSite Kernel

namespace MapCommand

variable {World : Type} {kernel : Kernel World} {symbols : Symbols}
  {context : Int16 → Nat → List UInt8} {request : Request} {stream finish : Stream} {tree : Node}
  {map : String} {shape : MapShape} {key value : MapExpr} {loc targetLoc mapLoc : Loc}

/-- A statement whose code was appended to a stream. -/
def Carries (kernel : Kernel World) (symbols : Symbols) (context : Int16 → Nat → List UInt8)
    (limit : Nat) (change : Contents → Contents) (code : List Insn) : Prop :=
  ∀ machine, kernel.Ready limit symbols context machine →
    ∃ after, Runs kernel.toEnvironment code machine after ∧
      kernel.Ready limit symbols context after ∧
      kernel.contents after.world = change (kernel.contents machine.world)

/-- The element that a statement stores or removes: its key is emitted, and its
value has a place if it takes room. -/
theorem target_parts (context : Int16 → Nat → List UInt8)
    (created : ∀ {name : String} {shape : MapShape}, symbols.map? name = some shape →
      kernel.sizes shape.id = some (shape.key.size, shape.value.size))
    (known : symbols.map? map = some shape) (keyDeclared : key.declared symbols = true)
    (small : stream.limit ≤ 32767) (fits : stream.used ≤ stream.limit)
    (isTarget : request.target = true)
    (found : Node.Emits symbols
      (target symbols map key targetLoc mapLoc ((symbols.map? map).map (·.value))) request stream
        tree finish) :
    ∃ keyTree keyed keyCode keyType keySlot own,
      key.Emission symbols .frame stream keyTree keyed keyCode keyType keySlot ∧
      key.Evaluates kernel symbols context stream keyed keyCode keyType keySlot ∧
      tree = .apply "[]" [.ident map { type := some shape.type, loc := mapLoc }, keyTree]
        { type := some shape.value, loc := targetLoc, storage := own } ∧
      (own = ⟨.unassigned, shape.value.size⟩ ∧ request.slot = none ∧ finish = keyed ∨
        ∃ offset, own = ⟨.slot offset, shape.value.size⟩ ∧
          request.Takes keyed shape.value.size offset finish) := by
  rw [target, known] at found
  obtain ⟨plan, site, trees, keyed, own, planned, arguments, finished, rfl⟩ :=
    Node.emits_apply_iff.mp found
  obtain ⟨rfl, rfl⟩ := Node.plan_subscript rfl planned
  obtain ⟨keyTree, rfl, keyFound⟩ := MapExpr.element_parts known arguments
  obtain ⟨keyCode, keyType, keySlot, emission, evaluates⟩ :=
    MapExpr.exists_emission created keyDeclared
    small fits rfl rfl (fun slot chosen => by cases chosen) keyFound
  obtain ⟨storage, site, allocated, rest⟩ := Node.finish_subscript rfl finished
  have notRead : request.onFrame.target = true := isTarget
  simp only [notRead, if_true] at rest
  cases rest
  obtain ⟨type, same, allocated⟩ := yields_allocateFor_iff.mp allocated
  cases same
  have limit := emission.grows.limit
  obtain ⟨same, placed⟩ := allocate_inFrame (limit ▸ small) rfl allocated
  cases same
  exact ⟨keyTree, keyed, keyCode, keyType, keySlot, own, emission, evaluates, rfl, placed⟩

/-- The code of a removal. -/
theorem exists_remove
    (created : ∀ {name : String} {shape : MapShape}, symbols.map? name = some shape →
      kernel.sizes shape.id = some (shape.key.size, shape.value.size))
    (declared : (remove map key loc targetLoc mapLoc).declared symbols = true)
    (small : stream.limit ≤ 32767) (fits : stream.used ≤ stream.limit)
    (found : Node.Emits symbols ((remove map key loc targetLoc mapLoc).typed symbols) request stream
      tree finish) :
    ∃ code, stream.Grows finish code ∧ finish.used ≤ finish.limit ∧
      Carries kernel symbols context stream.limit
        (exec symbols context · (remove map key loc targetLoc mapLoc)) code := by
  obtain ⟨keyDeclared, shape, known⟩ := declared_remove declared
  obtain ⟨symbol, stored, -, kind⟩ := Symbols.get?_of_map? known
  obtain ⟨plan, site, trees, targeted, own, planned, arguments, finished, rfl⟩ :=
    Node.emits_apply_iff.mp found
  obtain ⟨rfl, rfl⟩ := Node.plan_delete planned
  obtain ⟨first, middle, others, targetFound, done, rfl⟩ := Node.emitsAll_cons_iff.mp arguments
  obtain ⟨rfl, rfl⟩ := Node.emitsAll_nil_iff.mp done
  obtain ⟨keyTree, keyed, keyCode, keyType, keySlot, place, emission, evaluates, rfl, placed⟩ :=
    target_parts context created known keyDeclared small fits rfl targetFound
  have takes : keyed.Grows targeted [] ∧ targeted.used ≤ targeted.limit := by
    rcases placed with ⟨-, -, rfl⟩ | ⟨offset, -, takes⟩
    · exact ⟨.refl _, emission.places.fits⟩
    · exact ⟨takes.grows, takes.fits⟩
  obtain ⟨number, slot, last, refers, slotted, same⟩ :=
    emitDelete_code rfl (Node.finish_delete finished)
  obtain rfl : number = shape.number := refers.eq_of_get? stored kind
  cases same
  have keyedLimit := emission.grows.limit
  have targetedLimit := takes.1.limit
  obtain ⟨keyIn, -⟩ := keySlot_code (by omega) rfl emission.typed emission.storage slotted
  obtain ⟨convertCode, convertGrows, convertFits, convertInside, converts⟩ :=
    kernel.runs_keyIn takes.2 (emission.places.inside.mono takes.1.used) keyIn
  have lastLimit := convertGrows.limit
  refine ⟨_, (emission.grows.trans (takes.1.trans convertGrows)).trans
    (Stream.grows_append (deleteCode shape.number slot) rfl), convertFits, ?_⟩
  intro machine ready
  obtain ⟨second, convertRuns, convertFills⟩ :=
    MapExpr.runs_converted emission evaluates takes.1.used convertGrows.used converts ready
  obtain ⟨after, deleteRuns, changes, contents⟩ := runs_deleteCode (created known) second slot
  refine ⟨after, (convertRuns.append deleteRuns), ?_, ?_⟩
  · have secondReady := ready.changed convertFills.changes fun position handed =>
      handed.bounds (show last.stream.used ≤ stream.limit by omega)
    exact secondReady.changed changes fun _ none => none.elim
  · rw [contents, convertFills.slot, convertFills.contents]
    simp only [exec, known]
    rfl

section Store

variable {first second third last : Stream} {place keySlot valueSlot slot : Int16}
  {keyTree valueTree : Node} {keyCode valueCode storeCode convertCode : List Insn}
  {keyType valueType : Ty} {valueRequest : Request}

/-- The code of a value and of its conversion leaves the value in the slot of the
target, and touches only that slot and what it reserves. -/
theorem runs_value
    (emission : value.Emission symbols valueRequest second valueTree third valueCode valueType
      valueSlot)
    (evaluates : value.Evaluates kernel symbols context second third valueCode valueType valueSlot)
    (valuePlace : valueSlot = place ∧ valueType.size = shape.value.size ∨ valueRequest.slot = none)
    (stores : ∀ machine : Machine World, ∃ after,
      Runs kernel.toEnvironment storeCode machine after ∧
        kernel.Fills (Slot place shape.value.size) machine place shape.value.size
          (resize valueType.isSigned shape.value.size
            (machine.slot valueSlot valueType.size)) after)
    {machine : Machine World} (ready : kernel.Ready second.limit symbols context machine) :
    ∃ after, Runs kernel.toEnvironment (valueCode ++ storeCode) machine after ∧
      kernel.ChangesOnly
        (fun position => Handed second third position ∨
          Slot place shape.value.size position) machine
          after ∧
      kernel.contents after.world = kernel.contents machine.world ∧
      after.slot place shape.value.size =
        MapExpr.converted (value.type? symbols) shape.value
          (value.eval symbols context (kernel.contents machine.world)) := by
  obtain ⟨valued, valueRuns, valueFills⟩ := evaluates machine ready
  obtain ⟨stored, storeRuns, storeFills⟩ := stores valued
  refine ⟨stored, valueRuns.append storeRuns, ?_, storeFills.contents.trans valueFills.contents, ?_⟩
  · refine (valueFills.changes.mono ?_).trans (storeFills.changes.mono fun _ own => .inr own)
    rintro position (handed | own)
    · exact .inl handed
    · rcases valuePlace with ⟨same, size⟩ | none
      · exact .inr (same ▸ size ▸ own)
      · exact .inl (emission.places.handed none position own)
  · rw [storeFills.slot, valueFills.slot, MapExpr.converted, emission.known]
    rfl

/-- The code of key, value and conversions leaves both operands of an update in
their slots, which do not get in each other's way. -/
theorem runs_operands (small : stream.limit ≤ 32767)
    (reserves : stream.Reserves shape.value.size place first)
    (keyEmission : key.Emission symbols .frame first keyTree second keyCode keyType keySlot)
    (keyEvaluates : key.Evaluates kernel symbols context first second keyCode keyType keySlot)
    (grows : second.used ≤ third.used) (used : third.used ≤ last.used)
    (fits : last.used ≤ stream.limit)
    (values : ∀ machine : Machine World, kernel.Ready second.limit symbols context machine →
      ∃ after, Runs kernel.toEnvironment valueCode machine after ∧
        kernel.ChangesOnly
          (fun position => Handed second third position ∨
            Slot place shape.value.size position) machine
            after ∧
        kernel.contents after.world = kernel.contents machine.world ∧
        after.slot place shape.value.size =
          MapExpr.converted (value.type? symbols) shape.value
            (value.eval symbols context (kernel.contents machine.world)))
    (converts : ∀ machine : Machine World, ∃ after,
      Runs kernel.toEnvironment convertCode machine after ∧
        kernel.Fills (Handed third last) machine slot shape.key.size
          (resize keyType.isSigned shape.key.size (machine.slot keySlot keyType.size)) after)
    {machine : Machine World} (ready : kernel.Ready stream.limit symbols context machine) :
    ∃ after, Runs kernel.toEnvironment (keyCode ++ (valueCode ++ convertCode)) machine after ∧
      kernel.Ready stream.limit symbols context after ∧
      kernel.contents after.world = kernel.contents machine.world ∧
      after.slot slot shape.key.size =
        MapExpr.converted (key.type? symbols) shape.key
          (key.eval symbols context (kernel.contents machine.world)) ∧
      after.slot place shape.value.size =
        MapExpr.converted (value.type? symbols) shape.value
          (value.eval symbols context (kernel.contents machine.world)) := by
  have firstLimit := reserves.grows.limit
  have secondLimit := keyEmission.grows.limit
  have firstUsed := keyEmission.grows.used
  have keyHanded (position : Int) (touched : Slot keySlot keyType.size position) :
      Handed first second position :=
    keyEmission.places.handed rfl position touched
  -- Whatever a piece of the code touches is in the frame.
  have bounded {from' until' : Stream} {position : Int} (upTo : until'.used ≤ stream.limit)
      (touched : Handed from' until' position ∨ Slot place shape.value.size position) :
      -(stream.limit : Int) ≤ position ∧ position < 0 := by
    rcases touched with handed | stored
    · exact handed.bounds upTo
    · exact (reserves.handed stored).bounds (by omega)
  obtain ⟨keyed, keyRuns, keyFills⟩ := keyEvaluates machine (firstLimit.symm ▸ ready)
  have keyChanges : kernel.ChangesOnly (Handed first second) machine keyed :=
    keyFills.changes.mono fun position touched => touched.elim id (keyHanded position)
  have keyedReady := ready.changed keyChanges fun position handed => handed.bounds (by omega)
  obtain ⟨valued, valueRuns, valueChanges, valueContents, valueBytes⟩ :=
    values keyed (by rwa [secondLimit, firstLimit])
  obtain ⟨converted, convertRuns, convertFills⟩ := converts valued
  have valuedReady := keyedReady.changed valueChanges fun position touched =>
    bounded (by omega) touched
  have keyKept : valued.slot keySlot keyType.size = keyed.slot keySlot keyType.size := by
    refine valueChanges.slot keyedReady (by omega) (keyEmission.places.inside.mono (by omega))
      (fun position touched => bounded (by omega) touched) ?_
    rintro position (handed | own) key
    · have below := handed.2
      have above := (keyHanded position key).1
      omega
    · have below := (keyHanded position key).2
      have above := (reserves.handed own).1
      omega
  have valueKept : converted.slot place shape.value.size = valued.slot place shape.value.size := by
    refine convertFills.changes.slot valuedReady (by omega) (reserves.inside.mono (by omega))
      (fun position touched => touched.bounds (by omega)) ?_
    intro position handed own
    have below := handed.2
    have above := (reserves.handed own).1
    omega
  refine ⟨converted, keyRuns.append (valueRuns.append convertRuns), ?_,
    convertFills.contents.trans (valueContents.trans keyFills.contents), ?_, ?_⟩
  · exact valuedReady.changed convertFills.changes fun position handed => handed.bounds (by omega)
  · rw [convertFills.slot, keyKept, keyFills.slot, MapExpr.converted, keyEmission.known]
    rfl
  · rw [valueKept, valueBytes, keyFills.contents]

/-- The value is in the slot of the target: it was put there, or it is converted
into it. -/
theorem exists_stored (kernel : Kernel World) {size : Nat} {own : Storage} {site : Site}
    (known : valueTree.type? = some valueType)
    (same : valueType.size = size → valueSlot = place) (inside : Inside third.used place size)
    (found : Yields (convert ⟨.slot place, size⟩ ⟨.slot valueSlot, valueType.size⟩ valueTree)
      ⟨third, own⟩ () site) :
    ∃ code, third.Grows site.stream code ∧ site.stream.used = third.used ∧ site.own = own ∧
      ∀ machine : Machine World, ∃ after, Runs kernel.toEnvironment code machine after ∧
        kernel.Fills (Slot place size) machine place size
          (resize valueType.isSigned size (machine.slot valueSlot valueType.size)) after := by
  by_cases equal : valueType.size = size
  · subst equal
    obtain rfl := same rfl
    obtain rfl := convert_of_eq found
    refine ⟨[], .refl _, rfl, rfl, fun machine => ⟨machine, .nil machine, .refl machine, rfl, ?_⟩⟩
    exact (resize_of_length_eq (machine.length_slot _ _)).symm
  · obtain ⟨own, wanted, ofOwn, ofWanted, rfl⟩ := convert_of_ne equal known found
    have ownBytes := Width.bytes_of_ofBytes? ofOwn
    have wantedBytes := Width.bytes_of_ofBytes? ofWanted
    refine ⟨_, Stream.grows_append _ (inert_convertCode _ _ _ _ _), rfl, rfl, ?_⟩
    intro machine
    obtain ⟨after, runs, fills⟩ := runs_convertCode kernel machine valueSlot
      own valueType.isSigned (wantedBytes ▸ inside)
    rw [ownBytes, wantedBytes] at runs fills
    exact ⟨after, runs, fills⟩

/-- The value of an update is emitted into the slot of its target if it has the size
of the element, and anywhere in the frame if it is converted. -/
theorem exists_value {size : Nat}
    (created : ∀ {name : String} {shape : MapShape}, symbols.map? name = some shape →
      kernel.sizes shape.id = some (shape.key.size, shape.value.size))
    (declared : value.declared symbols = true) (known : value.type? symbols = some valueType)
    (small : stream.limit ≤ 32767) (fits : stream.used ≤ stream.limit)
    (inside : Inside stream.used place size)
    (found : Node.Emits symbols (value.typed symbols)
      (if valueType.size = size then Request.inSlot place else .frame) stream tree finish) :
    ∃ asked code valueSlot, value.Emission symbols asked stream tree finish code
      valueType valueSlot ∧
      value.Evaluates kernel symbols context stream finish code valueType valueSlot ∧
      (valueType.size = size → valueSlot = place) ∧
      (valueSlot = place ∧ valueType.size = size ∨ asked.slot = none) := by
  by_cases equal : valueType.size = size
  · rw [if_pos equal] at found
    have room : ∀ slot, (Request.inSlot place).slot = some slot → ∀ type,
        value.type? symbols = some type → Inside stream.used slot type.size := by
      intro slot chosen type same
      obtain rfl := Option.some.inj (known.symm.trans same)
      cases chosen
      exact equal ▸ inside
    obtain ⟨code, type, valueSlot, emission, evaluates⟩ :=
      MapExpr.exists_emission created declared small fits rfl rfl room found
    obtain rfl := Option.some.inj (known.symm.trans emission.known)
    have chosen : valueSlot = place := emission.places.chosen place rfl
    exact ⟨_, code, valueSlot, emission, evaluates, fun _ => chosen, .inl ⟨chosen, equal⟩⟩
  · rw [if_neg equal] at found
    obtain ⟨code, type, valueSlot, emission, evaluates⟩ :=
      MapExpr.exists_emission created declared small fits rfl rfl (fun _ chosen => by cases chosen)
        found
    obtain rfl := Option.some.inj (known.symm.trans emission.known)
    exact ⟨_, code, valueSlot, emission, evaluates, fun same => absurd same equal, .inr rfl⟩

/-- The code of an update. -/
theorem exists_store
    (created : ∀ {name : String} {shape : MapShape}, symbols.map? name = some shape →
      kernel.sizes shape.id = some (shape.key.size, shape.value.size))
    (declared : (store map key value loc targetLoc mapLoc).declared symbols = true)
    (small : stream.limit ≤ 32767) (free : request.slot = none)
    (found : Node.Emits symbols ((store map key value loc targetLoc mapLoc).typed symbols) request
      stream tree finish) :
    ∃ code, stream.Grows finish code ∧ finish.used ≤ finish.limit ∧
      Carries kernel symbols context stream.limit
        (exec symbols context · (store map key value loc targetLoc mapLoc)) code := by
  obtain ⟨keyDeclared, valueDeclared, shape, known⟩ := declared_store declared
  obtain ⟨symbol, stored, -, kind⟩ := Symbols.get?_of_map? known
  obtain ⟨valueType, valueKnown⟩ := value.exists_type valueDeclared
  have targetTyped : (target symbols map key targetLoc mapLoc
      ((symbols.map? map).map (·.value))).type? = some shape.value := by
    rw [target, known]
    rfl
  obtain ⟨plan, site, trees, third, own, planned, arguments, finished, rfl⟩ :=
    Node.emits_apply_iff.mp found
  obtain ⟨place, first, takes, rfl, rfl⟩ :=
    Node.plan_assign small targetTyped (value.type?_typed.trans valueKnown) planned
  have reserves : stream.Reserves shape.value.size place first := by
    unfold Request.Takes at takes
    rwa [free] at takes
  have firstLimit := reserves.grows.limit
  obtain ⟨targetTree, second, others, targetFound, rest, rfl⟩ := Node.emitsAll_cons_iff.mp arguments
  obtain ⟨valueTree, last, none, valueFound, done, rfl⟩ := Node.emitsAll_cons_iff.mp rest
  obtain ⟨rfl, rfl⟩ := Node.emitsAll_nil_iff.mp done
  obtain ⟨keyTree, keyed, keyCode, keyType, keySlot, storage, keyEmission, keyEvaluates, rfl,
    placed⟩ :=
      target_parts context created known keyDeclared (by omega) reserves.fits rfl targetFound
  obtain ⟨rfl, rfl⟩ : storage = ⟨.slot place, shape.value.size⟩ ∧ second = keyed := by
    rcases placed with ⟨-, none, -⟩ | ⟨offset, rfl, rfl, rfl⟩
    · cases none
    · exact ⟨rfl, rfl⟩
  have secondLimit := keyEmission.grows.limit
  have secondUsed := keyEmission.grows.used
  have secondInside := reserves.inside.mono secondUsed
  obtain ⟨asked, valueCode, valueSlot, valueEmission, valueEvaluates, inSlot, valuePlace⟩ :=
    exists_value created valueDeclared valueKnown (by omega) keyEmission.places.fits secondInside
      valueFound
  have thirdLimit := valueEmission.grows.limit
  have thirdUsed := valueEmission.grows.used
  obtain ⟨site, converted, updated⟩ := Node.finish_assign rfl finished
  rw [valueEmission.storage] at converted
  obtain ⟨storeCode, storeGrows, storeUsed, -, stores⟩ := exists_stored kernel
    valueEmission.typed inSlot (secondInside.mono thirdUsed) converted
  have siteLimit := storeGrows.limit
  have thirdFits := valueEmission.places.fits
  obtain ⟨number, slot, placed, last, refers, slotted, atPlace, same⟩ := emitUpdate_code updated
  obtain rfl : number = shape.number := refers.eq_of_get? stored kind
  cases atPlace
  cases same
  obtain ⟨keyIn, -⟩ := keySlot_code (by omega) rfl keyEmission.typed keyEmission.storage slotted
  obtain ⟨convertCode, convertGrows, convertFits, convertInside, converts⟩ :=
    kernel.runs_keyIn (by omega) (keyEmission.places.inside.mono (by omega)) keyIn
  have lastLimit := convertGrows.limit
  have lastUsed := convertGrows.used
  have updateGrows : last.stream.Grows (last.stream.append (updateCode shape.number slot place))
      (updateCode shape.number slot place) := Stream.grows_append _ rfl
  refine ⟨_, reserves.grows.trans (keyEmission.grows.trans (valueEmission.grows.trans
    (storeGrows.trans (convertGrows.trans updateGrows)))), convertFits, ?_⟩
  intro machine ready
  have handed : ∀ machine : Machine World, ∃ after,
      Runs kernel.toEnvironment convertCode machine after ∧
      kernel.Fills (Handed third last.stream) machine slot shape.key.size
        (resize keyType.isSigned shape.key.size (machine.slot keySlot keyType.size)) after := by
    intro machine
    obtain ⟨after, runs, fills⟩ := converts machine
    exact ⟨after, runs, fills.mono fun _ handed => handed.mono (by omega) (Nat.le_refl _)⟩
  obtain ⟨before, runs, beforeReady, contents, keyBytes, valueBytes⟩ :=
    runs_operands small reserves keyEmission keyEvaluates thirdUsed (by omega) (by omega)
      (fun machine => runs_value valueEmission valueEvaluates valuePlace stores) handed ready
  obtain ⟨after, updates, changes, updatedContents⟩ :=
    runs_updateCode (created known) before slot place
  refine ⟨after, ?_, beforeReady.changed changes fun _ none => none.elim, ?_⟩
  · simpa using runs.append updates
  · rw [updatedContents, contents, keyBytes, valueBytes]
    simp only [exec, known]
    rfl

end Store

end MapCommand

end TraceProbe
