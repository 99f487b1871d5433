import TraceProbe.Proofs.MapLanguage.Typing
import TraceProbe.Proofs.MapLanguage.Values

/-!
# Code of expressions

The code of an expression leaves its bytes in one slot, and changes nothing
below that slot but what was handed out for it.
-/

namespace TraceProbe

open Symbolic AtSite Kernel

section Keys

variable {World : Type} (kernel : Kernel World) {symbols : Symbols}
  {context : Int16 → Nat → List UInt8}

/-- The key of an element, in a slot of the declared size. -/
theorem Kernel.runs_keyIn (kernel : Kernel World) {keyType : Ty} {wanted : Nat}
    {src slot : Int16} {stream finish : Stream}
    (fits : stream.used ≤ stream.limit) (inside : Inside stream.used src keyType.size)
    (keyed : KeyIn keyType wanted src stream slot finish) :
    ∃ code, stream.Grows finish code ∧ finish.used ≤ finish.limit ∧
      Inside finish.used slot wanted ∧
      ∀ machine : Machine World, ∃ after, Runs kernel.toEnvironment code machine after ∧
        kernel.Fills (Handed stream finish) machine slot wanted
          (resize keyType.isSigned wanted (machine.slot src keyType.size)) after := by
  rcases keyed with ⟨same, rfl, rfl⟩ | ⟨-, middle, own, target, reserves, ofOwn, ofWanted, rfl⟩
  · refine ⟨[], .refl _, fits, same ▸ inside, fun machine => ⟨machine, .nil machine, .refl machine,
      rfl, ?_⟩⟩
    rw [← same]
    exact (resize_of_length_eq (machine.length_slot _ _)).symm
  · have ownBytes := Width.bytes_of_ofBytes? ofOwn
    have targetBytes := Width.bytes_of_ofBytes? ofWanted
    refine ⟨_, reserves.grows.trans (Stream.grows_append _ (inert_convertCode _ _ _ _ _)),
      reserves.fits, reserves.inside, ?_⟩
    intro machine
    obtain ⟨after, runs, fills⟩ := runs_convertCode kernel machine src own
      keyType.isSigned (targetBytes ▸ reserves.inside)
    rw [ownBytes, targetBytes] at runs fills
    exact ⟨after, runs, fills.mono fun _ member => reserves.handed member⟩

end Keys

/-- An expression whose code was appended to a stream, and where its value will
be. -/
structure MapExpr.Emission (symbols : Symbols) (expr : MapExpr) (request : Request)
    (stream : Stream) (tree : Node) (finish : Stream) (code : List Insn) (type : Ty)
    (offset : Int16) : Prop where
  known : expr.type? symbols = some type
  typed : tree.type? = some type
  storage : tree.storage = ⟨.slot offset, type.size⟩
  grows : stream.Grows finish code
  places : request.Places stream type.size offset finish

namespace MapExpr

variable {World : Type} {kernel : Kernel World} {symbols : Symbols}
  {context : Int16 → Nat → List UInt8}

/-- Code that leaves the value of an expression in its slot. -/
def Evaluates (kernel : Kernel World) (symbols : Symbols) (context : Int16 → Nat → List UInt8)
    (expr : MapExpr) (stream finish : Stream) (code : List Insn) (type : Ty) (offset : Int16) :
    Prop :=
  ∀ machine, kernel.Ready stream.limit symbols context machine →
    ∃ after, Runs kernel.toEnvironment code machine after ∧
      kernel.Fills (fun position => Handed stream finish position ∨ Slot offset type.size position)
        machine offset type.size
        (expr.eval symbols context (kernel.contents machine.world)) after

variable {request : Request} {stream middle finish : Stream} {tree : Node} {type : Ty}
  {offset : Int16} {code : List Insn}

/-- A leaf whose code fills the slot that it took. -/
theorem emission_of_leaf {expr : MapExpr} (fits : stream.used ≤ stream.limit)
    (room : ∀ slot, request.slot = some slot → ∀ type, expr.type? symbols = some type →
      Inside stream.used slot type.size)
    (known : expr.type? symbols = some type) (typed : tree.type? = some type)
    (storage : tree.storage = ⟨.slot offset, type.size⟩)
    (takes : request.Takes stream type.size offset middle) (inert : code.all Insn.inert = true)
    (runs : Inside stream.limit offset type.size → ∀ machine : Machine World,
      kernel.Ready stream.limit symbols context machine →
        ∃ after, Runs kernel.toEnvironment code machine after ∧
          kernel.Fills (Slot offset type.size) machine offset type.size
            (expr.eval symbols context (kernel.contents machine.world)) after) :
    expr.Emission symbols request stream tree (middle.append code) code type offset ∧
      expr.Evaluates kernel symbols context stream (middle.append code) code type offset := by
  have places := takes.places fits fun slot same => room slot same _ known
  have limit : middle.limit = stream.limit := takes.grows.limit
  refine ⟨⟨known, typed, storage, takes.grows.trans (Stream.grows_append _ inert),
    places.grown (Stream.grows_append _ inert) places.fits⟩, ?_⟩
  intro machine ready
  obtain ⟨after, done, fills⟩ := runs (limit ▸ places.inside.mono places.fits) machine ready
  exact ⟨after, done, fills.mono fun _ member => .inr member⟩

theorem element_parts {map : String} {key : MapExpr} {shape : MapShape} {mapLoc : Loc}
    {trees : List Node} (known : symbols.map? map = some shape)
    (found : Node.EmitsAll symbols
      [.ident map { type := some shape.type, loc := mapLoc }, key.typed symbols] [{}, .frame]
        stream trees finish) :
    ∃ tree, trees = [.ident map { type := some shape.type, loc := mapLoc }, tree] ∧
      Node.Emits symbols (key.typed symbols) .frame stream tree finish := by
  obtain ⟨symbol, stored, -, kind⟩ := Symbols.get?_of_map? known
  obtain ⟨first, middle, others, mapEmits, rest, rfl⟩ := Node.emitsAll_cons_iff.mp found
  obtain ⟨own, yields, rfl⟩ := (Node.emits_leaf_iff rfl).mp mapEmits
  have same := leaf_map rfl stored kind yields
  cases same
  obtain ⟨tree, last, none, keyEmits, done, rfl⟩ := Node.emitsAll_cons_iff.mp rest
  obtain ⟨rfl, rfl⟩ := Node.emitsAll_nil_iff.mp done
  exact ⟨tree, rfl, keyEmits⟩

section Element

variable {map : String} {key : MapExpr} {shape : MapShape} {mapLoc : Loc} {info : Info}
  {keyTree : Node} {keyed : Stream} {keyCode : List Insn} {keyType : Ty} {keySlot : Int16}

/-- The code of a key and of what it is converted into. -/
theorem runs_converted
    (emission : key.Emission symbols .frame stream keyTree keyed keyCode keyType keySlot)
    (evaluates : key.Evaluates kernel symbols context stream keyed keyCode keyType keySlot)
    {middle finish : Stream} {code : List Insn} {slot : Int16} {wanted : Ty}
    (before : keyed.used ≤ middle.used) (more : middle.used ≤ finish.used)
    (runs : ∀ machine : Machine World, ∃ after, Runs kernel.toEnvironment code machine after ∧
      kernel.Fills (Handed middle finish) machine slot wanted.size
        (resize keyType.isSigned wanted.size (machine.slot keySlot keyType.size)) after)
    {machine : Machine World} (ready : kernel.Ready stream.limit symbols context machine) :
    ∃ after, Runs kernel.toEnvironment (keyCode ++ code) machine after ∧
      kernel.Fills (Handed stream finish) machine slot wanted.size
        (converted (key.type? symbols) wanted
          (key.eval symbols context (kernel.contents machine.world))) after := by
  obtain ⟨first, keyRuns, keyFills⟩ := evaluates machine ready
  obtain ⟨after, codeRuns, codeFills⟩ := runs first
  refine ⟨after, keyRuns.append codeRuns, ?_⟩
  have handed (position : Int) (touched : Handed stream keyed position ∨
      Slot keySlot keyType.size position) : Handed stream finish position := by
    have own : Handed stream keyed position := by
      rcases touched with handed | own
      · exact handed
      · exact emission.places.handed rfl position own
    exact own.mono (Nat.le_refl _) (Nat.le_trans before more)
  have later (position : Int) (touched : Handed middle finish position) :
      Handed stream finish position :=
    touched.mono (Nat.le_trans emission.grows.used before) (Nat.le_refl _)
  rw [keyFills.slot] at codeFills
  rw [converted, emission.known]
  exact (codeFills.mono later).after (keyFills.changes.mono handed) keyFills.contents

/-- The emission of a read whose key is emitted. -/
theorem read_emission {own : Storage} {loc : Loc}
    (created : ∀ {name : String} {shape : MapShape}, symbols.map? name = some shape →
      kernel.sizes shape.id = some (shape.key.size, shape.value.size))
    (known : symbols.map? map = some shape) (small : stream.limit ≤ 32767)
    (read : request.target = false)
    (room : ∀ slot, request.slot = some slot → Inside stream.used slot shape.value.size)
    (emission : key.Emission symbols .frame stream keyTree keyed keyCode keyType keySlot)
    (evaluates : key.Evaluates kernel symbols context stream keyed keyCode keyType keySlot)
    (finished : Yields ((Node.apply "[]"
        [.ident map { type := some shape.type, loc := mapLoc }, keyTree]
        { type := some shape.value, loc := loc }).finishApplication symbols request.onFrame)
      ⟨keyed, {}⟩ () ⟨finish, own⟩) :
    ∃ code offset, (MapExpr.read map key loc mapLoc).Emission symbols request stream
        (.apply "[]" [.ident map { type := some shape.type, loc := mapLoc }, keyTree]
          { type := some shape.value, loc := loc, storage := own }) finish code shape.value offset ∧
      (MapExpr.read map key loc mapLoc).Evaluates kernel symbols context stream finish code
        shape.value offset := by
  obtain ⟨symbol, stored, -, kind⟩ := Symbols.get?_of_map? known
  obtain ⟨storage, site, allocated, looked⟩ := Node.finish_subscript rfl finished
  obtain ⟨type, same, allocated⟩ := yields_allocateFor_iff.mp allocated
  cases same
  have keyedLimit := emission.grows.limit
  obtain ⟨same, placed⟩ := allocate_inFrame (keyedLimit ▸ small) rfl allocated
  rw [same] at looked
  have notTarget : request.onFrame.target = false := read
  simp only [notTarget, Bool.false_eq_true, if_false] at looked
  obtain ⟨number, slot, middle, offset, miss, hit, refers, slotted, place, different, lookupGrows,
    lookupUsed, lookupOwn⟩ := emitLookup_code looked
  obtain rfl : number = shape.number := refers.eq_of_get? stored kind
  rcases placed with ⟨rfl, -⟩ | ⟨offset', rfl, takes⟩
  · cases place
  cases place
  have taken := takes.places emission.places.fits fun slot chosen =>
    (room slot chosen).mono emission.grows.used
  have takenLimit := takes.grows.limit
  obtain ⟨keyIn, ownSame⟩ := keySlot_code (by omega) rfl emission.typed emission.storage slotted
  obtain ⟨convertCode, convertGrows, convertFits, convertInside, converts⟩ :=
    kernel.runs_keyIn taken.fits (emission.places.inside.mono takes.grows.used) keyIn
  have middleLimit := convertGrows.limit
  have finishLimit : finish.limit = middle.stream.limit := lookupGrows.limit
  have grows := emission.grows.trans (takes.grows.trans (convertGrows.trans lookupGrows))
  have finishUsed : finish.used = middle.stream.used := lookupUsed
  have finishFits : finish.used ≤ finish.limit := by omega
  have ownStorage : own = ⟨.slot offset, shape.value.size⟩ := lookupOwn.trans ownSame
  have typed : (MapExpr.read map key loc mapLoc).type? symbols = some shape.value := by
    simp [type?, known]
  have places := (taken.later emission.grows.used).grown (convertGrows.trans lookupGrows) finishFits
  refine ⟨_, offset, ⟨typed, rfl, ownStorage, grows, places.fits, places.inside, places.chosen,
    places.handed⟩, ?_⟩
  intro machine ready
  obtain ⟨second, convertRuns, convertFills⟩ :=
    runs_converted emission evaluates takes.grows.used convertGrows.used converts ready
  have middleReady := ready.changed convertFills.changes fun position handed =>
    handed.bounds (show middle.stream.used ≤ stream.limit by omega)
  obtain ⟨after, lookupRuns, lookupFills⟩ := runs_lookupCode middleReady (created known) slot
    (places.inside.mono (show finish.used ≤ stream.limit by omega)) different
  refine ⟨after, ?_, ?_⟩
  · rw [List.nil_append, ← List.append_assoc]
    exact convertRuns.append lookupRuns
  · rw [convertFills.slot, convertFills.contents] at lookupFills
    rw [MapExpr.eval, known]
    refine (lookupFills.mono fun _ own => .inr own).after ?_ convertFills.contents
    exact convertFills.changes.mono fun _ handed =>
      .inl (handed.mono (Nat.le_refl _) lookupGrows.used)

end Element

/-- The emission of an expression. -/
theorem exists_emission
    (created : ∀ {name : String} {shape : MapShape}, symbols.map? name = some shape →
      kernel.sizes shape.id = some (shape.key.size, shape.value.size))
    {expr : MapExpr} (declared : expr.declared symbols = true) (small : stream.limit ≤ 32767)
    (fits : stream.used ≤ stream.limit) (inFrame : request.inFrame = true)
    (read : request.target = false)
    (room : ∀ slot, request.slot = some slot → ∀ type, expr.type? symbols = some type →
      Inside stream.used slot type.size)
    (found : Node.Emits symbols (expr.typed symbols) request stream tree finish) :
    ∃ code type offset, expr.Emission symbols request stream tree finish code type offset ∧
      expr.Evaluates kernel symbols context stream finish code type offset := by
  induction expr generalizing request stream tree finish with
  | number value unsigned loc =>
      obtain ⟨own, yields, rfl⟩ := (Node.emits_leaf_iff rfl).mp found
      obtain ⟨offset, middle, width, rfl, takes, ofSize, rfl⟩ := leaf_number small inFrame yields
      have bytes := Width.bytes_of_ofBytes? ofSize
      have eight : (Node.numberType unsigned).size = 8 := by cases unsigned <;> rfl
      refine ⟨_, _, offset, emission_of_leaf fits room rfl rfl rfl takes
        (Emit.inert_constantCode _ _ _) ?_⟩
      intro inside machine ready
      rw [← bytes] at inside ⊢
      obtain ⟨after, runs, fills⟩ := runs_constantCode inside value
      refine ⟨after, runs, ?_⟩
      rw [MapExpr.eval, ← eight, ← bytes]
      exact fills
  | text value loc =>
      obtain ⟨own, yields, rfl⟩ := (Node.emits_leaf_iff rfl).mp found
      obtain ⟨offset, middle, rfl, takes, rfl⟩ := leaf_text small yields
      refine ⟨_, _, offset, emission_of_leaf fits room rfl rfl rfl takes
        (Block.inert_fills _ _ _) ?_⟩
      intro inside machine ready
      rw [MapExpr.eval, ← paddedBytes_literalType]
      exact runs_fill (length_paddedBytes value _) inside
  | context name loc =>
      obtain ⟨⟨type, place⟩, known⟩ := Option.isSome_iff_exists.mp declared
      obtain ⟨symbol, stored, -, kind⟩ := Symbols.get?_of_context? known
      have typed : (MapExpr.context name loc).type? symbols = some type := by simp [type?, known]
      rw [MapExpr.typed, known] at found
      obtain ⟨own, yields, rfl⟩ := (Node.emits_leaf_iff rfl).mp found
      obtain ⟨offset, middle, rfl, takes, rfl⟩ := leaf_context small inFrame stored kind yields
      refine ⟨_, _, offset, emission_of_leaf fits room typed rfl rfl takes
        (inert_contextCode _ _ _) ?_⟩
      intro inside machine ready
      rw [MapExpr.eval, known]
      exact runs_contextCode ready known inside
  | read map key loc mapLoc ih =>
      obtain ⟨keyDeclared, shape, known⟩ := declared_read declared
      obtain ⟨symbol, stored, -, kind⟩ := Symbols.get?_of_map? known
      have typed : (MapExpr.read map key loc mapLoc).type? symbols = some shape.value := by
        simp [type?, known]
      rw [MapExpr.typed, known] at found
      obtain ⟨plan, site, trees, keyed, own, planned, arguments, finished, rfl⟩ :=
        Node.emits_apply_iff.mp found
      obtain ⟨rfl, rfl⟩ := Node.plan_subscript rfl planned
      obtain ⟨keyTree, rfl, keyFound⟩ := element_parts known arguments
      obtain ⟨keyCode, keyType, keySlot, keyEmission, keyRuns⟩ :=
        ih keyDeclared small fits rfl rfl (fun slot chosen => by cases chosen) keyFound
      obtain ⟨code, offset, result⟩ := read_emission created known small read
        (fun slot chosen => room slot chosen _ typed) keyEmission keyRuns finished
      exact ⟨code, shape.value, offset, result⟩

end MapExpr

end TraceProbe
