import TraceProbe.Proofs.Emission.Composition
import TraceProbe.Proofs.Emission.HelperReads

/-!
# Members behind pointers

A member behind a pointer is read alone: the dereference leaves the object where
it is, and the dot asks for the bytes of the member.  These are the bytes that a
read of the whole object would have brought.
-/

namespace TraceProbe

open Symbolic

/-- A member of an object that a pointer points to. -/
structure Hop where
  shape : Record
  offset : Nat
  type : Ty

namespace Hop

/-- The number of bytes of the object. -/
def size (hop : Hop) : Nat :=
  (Ty.record hop.shape).size

/-- The bytes of the member among those of an object. -/
def part (hop : Hop) (object : List UInt8) : List UInt8 :=
  (object.drop hop.offset).take hop.type.size

/-- The bytes of the member of an object in memory. -/
def member (hop : Hop) (memory : Memory) (start : UInt64) : List UInt8 :=
  hop.part (memory.read start hop.size)

/-- The member lies within its object. -/
def Within (hop : Hop) : Prop :=
  hop.offset + hop.type.size ≤ hop.size

/-- The member has a name in its object. -/
structure Names (hop : Hop) (name : String) : Prop where
  field : ∃ field, hop.shape.field? name = some field ∧ field.type = hop.type
  offset : hop.shape.offsetOf? name = some hop.offset

variable {hop : Hop} {start : UInt64}

theorem Names.within {name : String} (names : hop.Names name) : hop.Within := by
  obtain ⟨field, found, same⟩ := names.field
  rw [Within, ← same]
  exact Record.bounds_of_offsetOf? found names.offset

/-- The bytes of the member lie behind one another at its offset. -/
theorem Within.read (within : hop.Within) (memory : Memory) (start : UInt64) :
    memory.read (start + UInt64.ofNat hop.offset) hop.type.size = hop.member memory start := by
  obtain ⟨rest, whole⟩ := Nat.exists_eq_add_of_le within
  rw [member, part, whole, Nat.add_assoc, Memory.read_append, Memory.read_append,
    List.drop_left' (memory.length_read _ _), List.take_left' (memory.length_read _ _)]

/-- What holds of every byte of an object holds of those of its member. -/
theorem Within.each {good : UInt64 → Prop} (within : hop.Within)
    (object : ∀ index < hop.size, good (start + UInt64.ofNat index)) (index : Nat)
    (inside : index < hop.type.size) :
    good (start + UInt64.ofNat hop.offset + UInt64.ofNat index) := by
  unfold Within at within
  rw [UInt64.add_assoc, ← UInt64.ofNat_add]
  exact object _ (by omega)

end Hop

/-- The code that takes bytes of the frame to where they are asked for. -/
def Storage.takenCode (own : Storage) (place : Int16) : List Insn :=
  match own.place with
  | .register reg => Storage.loadCode reg ⟨.slot place, own.size⟩
  | .slot offset => Block.address .r3 place ++ Emit.readCode offset own.size .r3
  | .unassigned => []

/-- Storage that bytes can be taken to: any slot, or a register in one access. -/
inductive Storage.Takes : Storage → Prop
  | register (reg : Reg) (width : Width) : Takes ⟨.register reg, width.bytes⟩
  | slot (offset : Int16) (size : Nat) : Takes ⟨.slot offset, size⟩

namespace Node

open AtSite

variable {symbols : Symbols} {request : Request} {stream finish : Stream}
  {pointer base node tree : Node} {hop : Hop} {name : String} {inner member outer info : Info}
  {literal : List Ty → Ty → Prop} {typing : Symbols} {role : Role}

/-- A member of what the base points to, by its name. -/
structure Arrow (base : Node) (hop : Hop) (name : String) : Prop where
  pointer : base.type? = some (.pointer (.record hop.shape))
  names : hop.Names name
  short : hop.size < 2 ^ 31

theorem type_of_dot
    (emittable : Emittable literal typing role (apply "." [base, str name member] outer))
    (typed : base.type? = some (.record hop.shape)) (names : hop.Names name) :
    outer.type = some hop.type := by
  obtain ⟨type, typed'⟩ := typed_of_sound emittable.sound.here
  have typed' : outer.type = some type := typed'
  obtain ⟨field, found, same⟩ := names.field
  obtain ⟨shape, other, field', known, named, there, rfl⟩ :=
    (emittable.rule typed' (by decide)).member rfl rfl
  cases typed.symm.trans known
  cases named
  cases found.symm.trans there
  exact same ▸ typed'

theorem type_of_deref {pointed : Ty}
    (emittable : Emittable literal typing role (apply "u*" [base] inner))
    (typed : base.type? = some (.pointer pointed)) : inner.type = some pointed := by
  obtain ⟨type, typed'⟩ := typed_of_sound emittable.sound.here
  have typed' : inner.type = some type := typed'
  cases typed.symm.trans ((emittable.rule typed' (by decide)).dereferenced rfl rfl)
  exact typed'

/-- A member is read at its offset behind the pointer, narrowed to 32 bits. -/
theorem appended_of_readMember {source : Node} {own mine : Storage} {offset : Nat} {site : Site}
    (found : Yields (readMember (apply "u*" [source] info) own offset) ⟨stream, mine⟩ () site) :
    ∃ place, own.place = .slot place ∧ source.storage.Loadable ∧ site =
      ⟨stream.append (source.storage.loadCode .r3 ++
        ((if offset ≠ 0 then [.alu64Imm Opcode.add .r3 (Int32.ofNat offset)] else []) ++
          Emit.readCode place own.size .r3)), mine⟩ := by
  simp only [readMember, Node.args, yields_bind_iff, yields_lift_iff,
    Emit.yields_loadReg_iff] at found
  obtain ⟨_, _, ⟨_, ⟨pointed, rfl⟩, rfl⟩, found⟩ := found
  split at found
  · rename_i moved
    simp only [yields_bind_iff, yields_lift_iff, Emit.yields_insn_iff,
      Emit.yields_readFrom_iff] at found
    obtain ⟨_, _, ⟨_, rfl, rfl⟩, _, ⟨place, placed, rfl⟩, rfl⟩ := found
    refine ⟨place, placed, pointed, ?_⟩
    rw [if_pos moved, Emit.append_append, Emit.append_append]
  · rename_i still
    simp only [yields_lift_iff, Emit.yields_readFrom_iff] at found
    obtain ⟨_, ⟨place, placed, rfl⟩, rfl⟩ := found
    refine ⟨place, placed, pointed, ?_⟩
    rw [if_neg still, Emit.append_append]
    rfl

/-- A member is read at its distance behind the pointer. -/
theorem distant_of_readMember {source : Node} {own mine : Storage} {offset : Nat} {site : Site}
    (near : offset < 2 ^ 31)
    (found : Yields (readMember (apply "u*" [source] info) own offset) ⟨stream, mine⟩ () site) :
    ∃ place, own.place = .slot place ∧ source.storage.Loadable ∧ site =
      ⟨stream.append (source.storage.distantCode place own.size (Int32.ofNat offset)), mine⟩ := by
  have zero : Int32.ofNat offset = 0 ↔ offset = 0 := by
    rw [← Int32.toInt_inj, Int32.toInt_ofNat_of_lt near]
    exact Int.natCast_eq_zero
  obtain ⟨place, placed, pointed, same⟩ := appended_of_readMember found
  refine ⟨place, placed, pointed, ?_⟩
  simp only [Storage.distantCode, ne_eq, zero]
  exact same

/-- A dereference of which one member is read emits its pointer only. -/
theorem emits_idle_deref
    (emits : Emits symbols (apply "u*" [base] info) (Request.forMember {}) stream tree finish) :
    ∃ source, Emits symbols base {} stream source finish ∧ tree = apply "u*" [source] info := by
  obtain ⟨plan, site, trees, middle, own, planned, arguments, finished, rfl⟩ :=
    emits_apply_iff.mp emits
  obtain ⟨rfl, rfl⟩ := yields_pure_iff.mp (planned_by rfl planned)
  obtain ⟨source, before, rest, here, none, rfl⟩ := emitsAll_cons_iff.mp arguments
  obtain ⟨rfl, rfl⟩ := emitsAll_nil_iff.mp none
  obtain ⟨-, same⟩ := yields_pure_iff.mp (finished_by rfl finished)
  cases same
  exact ⟨source, here, rfl⟩

/-- How a dot asks for its base. -/
def baseRequest (base : Node) : Request :=
  if base.applies "u*" then Request.forMember {} else .frame

theorem asked_of_dot {leaf : Node} {plan : Plan} {site last : Site}
    (planned : Yields ((apply "." [base, leaf] outer).planApplication request) site plan last) :
    plan.args = [base.baseRequest, {}] ∧ last = site := by
  have planned := planned_by rfl planned
  have first : (apply "." [base, leaf] outer).argument 0 = .ok base := rfl
  simp only [Operator.plan, planDot, first, yields_bind_iff, yields_liftExcept_iff] at planned
  obtain ⟨_, _, ⟨same, rfl⟩, planned⟩ := planned
  cases same
  unfold baseRequest
  split at planned
  all_goals
    rename_i deref
    obtain ⟨rfl, rfl⟩ := yields_pure_iff.mp planned
    simp [deref]

/-- The emission of a dot is that of its base, the choice of its storage and a read. -/
theorem read_of_emits {object : Ty} {offset : Nat} {type : Ty} (typed : base.type? = some object)
    (placed : object.offsetOf? name = some offset) (value : outer.type = some type)
    (unstored : outer.storage = {}) (folded : member.isVirtual = true)
    (emits : Emits symbols (apply "." [base, str name member] outer) request stream tree finish) :
    ∃ source before between own own' asked,
      Emits symbols base base.baseRequest stream source before ∧
      before.Extends between [] ∧ Owns type asked before between own ∧
      Yields (if !source.storage.isAssigned && base.applies "u*" then readMember source own offset
        else takeMember source own offset) ⟨between, own⟩ () ⟨finish, own'⟩ ∧
      tree = apply "." [source, str name member] { outer with storage := own' } := by
  obtain ⟨plan, site, trees, middle, own', planned, arguments, finished, rfl⟩ :=
    emits_apply_iff.mp emits
  obtain ⟨args, rfl⟩ := asked_of_dot planned
  rw [unstored] at finished
  rw [args] at arguments
  obtain ⟨source, between, others, here, rest, rfl⟩ := emitsAll_cons_iff.mp arguments
  obtain ⟨leaf, before, none, quiet, last, rfl⟩ := emitsAll_cons_iff.mp rest
  obtain ⟨rfl, rfl⟩ := emitsAll_nil_iff.mp last
  obtain ⟨_, silent, rfl⟩ := (emits_leaf_iff rfl).mp quiet
  unfold AtSite.leaf at silent
  rw [if_pos (show (str name member).isVirtual = true from folded)] at silent
  obtain ⟨-, same⟩ := yields_pure_iff.mp silent
  cases same
  obtain ⟨operator, type⟩ := alike_of_emits here
  have value' : ({ outer with storage := {} } : Info).type = some _ := value
  have finished := finished_by rfl finished
  obtain ⟨own, last, offset', placed', extended, owns, read⟩ :=
    yields_emitDot value' (type.trans typed) rfl finished
  cases placed.symm.trans placed'
  rw [show source.applies "u*" = base.applies "u*" by simp [applies, operator]] at read
  exact ⟨source, middle, last, own, own', _, here, extended, owns, read, rfl⟩

/-- The code of an arrow, behind that of its base. -/
theorem emits_arrow (arrow : Arrow base hop name)
    (emittable : Emittable literal typing role
      (apply "." [apply "u*" [base] inner, str name member] outer))
    (folded : member.isVirtual = true)
    (emits : Emits symbols (apply "." [apply "u*" [base] inner, str name member] outer) request
      stream tree finish) :
    ∃ source before place, Emits symbols base {} stream source before ∧ PartOf source tree ∧
      tree.storage = ⟨.slot place, hop.type.size⟩ ∧ source.storage.Loadable ∧
      finish.code = before.code ++
        source.storage.distantCode place hop.type.size (Int32.ofNat hop.offset) := by
  obtain ⟨_, known⟩ :=
    emittable.part (.inner List.mem_cons_self .root : PartOf (apply "u*" [base] inner) _)
  have object : (apply "u*" [base] inner).type? = some (.record hop.shape) :=
    type_of_deref known arrow.pointer
  obtain ⟨_, before, between, own, own', asked, idle, extended, owns, read, rfl⟩ :=
    read_of_emits object arrow.names.offset (type_of_dot emittable object arrow.names)
      (emittable.unstored _ .root) folded emits
  obtain ⟨source, emitted, rfl⟩ := emits_idle_deref idle
  have free : inner.storage = {} :=
    emittable.unstored (apply "u*" [base] inner) (.inner List.mem_cons_self .root)
  rw [if_pos
    (by simp [Node.storage, Node.info, free, Storage.isAssigned, applies, operator?])] at read
  have within := arrow.names.within
  have short := arrow.short
  unfold Hop.Within at within
  obtain ⟨place, placed, pointed, same⟩ := distant_of_readMember (by omega) read
  cases same
  have sized := owns.sized (by simp [Storage.isAssigned, placed])
  refine ⟨source, before, place, emitted,
    .inner List.mem_cons_self (.inner List.mem_cons_self .root), ?_, pointed, ?_⟩
  · rw [← sized, ← placed]
    rfl
  · rw [Stream.code_append, extended.code, List.append_nil, sized]

/-- The object behind a pointer is read as a whole. -/
theorem yields_emitDeref {source : Node} {pointed : Ty} {site : Site}
    (object : info.type = some pointed)
    (whole : request.memberOnly = false) (read : request.target = false)
    (found : Yields (emitDeref (apply "u*" [source] info) request) ⟨stream, {}⟩ () site) :
    ∃ own between place, stream.Extends between [] ∧ Owns pointed request.slot stream between own ∧
      own.place = .slot place ∧ source.storage.Loadable ∧
      site = ⟨between.append (source.storage.loadCode .r0 ++ Emit.readCode place own.size .r0),
        own⟩ := by
  unfold emitDeref at found
  rw [if_neg (by simp [whole])] at found
  obtain ⟨own, ⟨between, mine⟩, allocated, found⟩ := yields_bind_iff.mp found
  have typed : (apply "u*" [source] info).type? = some pointed := object
  obtain ⟨same, extended, owns, -⟩ := owns_of_allocateFor typed allocated
  obtain rfl : mine = own := same
  rw [if_neg (by simp [read])] at found
  have first : (apply "u*" [source] info).argument 0 = .ok source := rfl
  simp only [first, yields_bind_iff, yields_liftExcept_iff, yields_lift_iff,
    Emit.yields_loadReg_iff, Emit.yields_readFrom_iff] at found
  obtain ⟨_, _, ⟨same, rfl⟩, _, _, ⟨_, ⟨loadable, rfl⟩, rfl⟩, _, ⟨place, placed, rfl⟩, rfl⟩ := found
  cases same
  exact ⟨_, _, place, extended, owns, placed, loadable, by rw [Emit.append_append]⟩

/-- The code of a whole dereference, behind that of its pointer. -/
theorem emits_deref {pointed : Ty} (typed : base.type? = some (.pointer pointed))
    (emittable : Emittable literal typing role (apply "u*" [base] inner))
    (whole : request.memberOnly = false) (read : request.target = false)
    (emits : Emits symbols (apply "u*" [base] inner) request stream tree finish) :
    ∃ source before place, Emits symbols base {} stream source before ∧ PartOf source tree ∧
      tree.storage = ⟨.slot place, pointed.size⟩ ∧ source.storage.Loadable ∧
      finish.code =
        before.code ++ (source.storage.loadCode .r0 ++ Emit.readCode place pointed.size .r0) := by
  obtain ⟨plan, site, trees, middle, own, planned, arguments, finished, rfl⟩ :=
    emits_apply_iff.mp emits
  obtain ⟨rfl, rfl⟩ := yields_pure_iff.mp (planned_by rfl planned)
  obtain ⟨source, before, rest, here, none, rfl⟩ := emitsAll_cons_iff.mp arguments
  obtain ⟨rfl, rfl⟩ := emitsAll_nil_iff.mp none
  have finished := finished_by rfl finished
  rw [show inner.storage = {} from emittable.unstored _ .root] at finished
  have object : ({ inner with storage := {} } : Info).type = some pointed :=
    show inner.type = some pointed from type_of_deref emittable typed
  obtain ⟨own', between, place, extended, owns, placed, loadable, same⟩ :=
    yields_emitDeref object (show request.onFrame.memberOnly = false from whole)
      (show request.onFrame.target = false from read) finished
  cases same
  have sized := owns.sized (by simp [Storage.isAssigned, placed])
  refine ⟨source, middle, place, here, .inner List.mem_cons_self .root, ?_, loadable, ?_⟩
  · rw [← sized, ← placed]
    rfl
  · rw [Stream.code_append, extended.code, List.append_nil, sized]

/-- A member is taken out of a record in the frame at its offset. -/
theorem taken_of_takeMember {record : Node} {own mine : Storage} {offset : Nat} {site : Site}
    (found : Yields (takeMember record own offset) ⟨stream, mine⟩ () site) :
    ∃ start place, record.storage.place = .slot start ∧ movedOffset start offset = .ok place ∧
      own.Takes ∧ site = ⟨stream.append (own.takenCode place), mine⟩ := by
  simp only [takeMember, yields_bind_iff, yields_liftExcept_iff] at found
  obtain ⟨start, _, sited, place, _, ⟨reached, rfl⟩, found⟩ := found
  obtain ⟨located, rfl⟩ := yields_slotOf_iff.mp sited
  obtain ⟨chosen, size⟩ := own
  cases chosen with
  | register reg =>
      simp only [yields_bind_iff, yields_lift_iff, Emit.yields_accessWidth_iff,
        Emit.yields_insn_iff] at found
      obtain ⟨width, _, ⟨_, ⟨access, rfl⟩, rfl⟩, _, rfl, rfl⟩ := found
      have wide := Width.bytes_of_ofBytes? access
      refine ⟨start, place, located, reached, wide ▸ .register reg width, ?_⟩
      simp only [Storage.takenCode, Storage.loadCode, access]
      rfl
  | slot offset =>
      simp only [yields_bind_iff, yields_lift_iff, Emit.yields_code_iff,
        Emit.yields_readFrom_iff] at found
      obtain ⟨_, _, ⟨_, rfl, rfl⟩, _, ⟨_, same, rfl⟩, rfl⟩ := found
      cases same
      exact ⟨start, place, located, reached, .slot offset size, by rw [Emit.append_append]; rfl⟩
  | unassigned =>
      simp only [yields_bind_iff, yields_lift_iff, Emit.yields_code_iff,
        Emit.yields_readFrom_iff] at found
      obtain ⟨_, _, -, _, ⟨_, same, -⟩, -⟩ := found
      cases same

/-- The code of a dot behind that of a record in the frame. -/
theorem emits_dot (typed : base.type? = some (.record hop.shape))
    (plain : base.applies "u*" = false) (names : hop.Names name)
    (emittable : Emittable literal typing role (apply "." [base, str name member] outer))
    (folded : member.isVirtual = true)
    (emits : Emits symbols (apply "." [base, str name member] outer) request stream tree finish) :
    ∃ copied before start place, Emits symbols base .frame stream copied before ∧
      copied.storage.place = .slot start ∧ movedOffset start hop.offset = .ok place ∧
      tree.storage.Takes ∧ tree.storage.size = hop.type.size ∧
      finish.code = before.code ++ tree.storage.takenCode place := by
  obtain ⟨copied, before, between, own, own', asked, emitted, extended, owns, read, rfl⟩ :=
    read_of_emits typed names.offset (type_of_dot emittable typed names)
        (emittable.unstored _ .root) folded
      emits
  rw [if_neg (by simp [plain])] at read
  rw [baseRequest, if_neg (by simp [plain])] at emitted
  obtain ⟨start, place, located, reached, takes, same⟩ := taken_of_takeMember read
  cases same
  have assigned : own.isAssigned = true := by cases takes <;> rfl
  refine ⟨copied, before, start, place, emitted, located, reached, takes, owns.sized assigned, ?_⟩
  rw [Stream.code_append, extended.code, List.append_nil]
  rfl

end Node

section Runs

variable {World : Type} {env : Environment World} {machine : Machine World}
  {readable : UInt64 → Prop} {storage : Storage} {hop : Hop}

/-- The bytes of a value. -/
def Machine.bytes (machine : Machine World) (storage : Storage) : List UInt8 :=
  match storage.place with
  | .register reg => littleEndian storage.size (machine.regs reg).toNat
  | .slot offset => machine.slot offset storage.size
  | .unassigned => []

/-- The member of a readable object is read behind its pointer. -/
theorem Hop.Within.runs_distantCode (within : hop.Within) (short : hop.size < 2 ^ 31)
    (copies : env.Copies readable) (pointed : storage.Loadable) (place : Int16)
    (object : ∀ index < hop.size, readable (machine.word storage + UInt64.ofNat index)) :
    ∃ finish, Runs env (storage.distantCode place hop.type.size (Int32.ofNat hop.offset)) machine
      finish ∧
      machine.Fetched place hop.type.size (machine.word storage + UInt64.ofNat hop.offset) finish ∧
      finish.slot place hop.type.size = hop.member machine.memory (machine.word storage) := by
  have inside := within.each object
  have bound := within
  unfold Hop.Within at bound
  have distance : Opcode.immediate (Int32.ofNat hop.offset) = UInt64.ofNat hop.offset :=
    immediate_ofNat (by omega)
  rw [← distance] at inside
  obtain ⟨finish, runs, fetched⟩ :=
    TraceProbe.runs_distantCode copies (show hop.type.size < 2 ^ 31 by omega) pointed place inside
  rw [distance] at fetched
  exact ⟨finish, runs, fetched, (fetched.slot (by omega)).trans (within.read _ _)⟩

/-- The whole of a readable object is read behind its pointer. -/
theorem runs_wholeCode {size : Nat} (small : size < 2 ^ 31) (copies : env.Copies readable)
    (pointed : storage.Loadable) (place : Int16)
    (object : ∀ index < size, readable (machine.word storage + UInt64.ofNat index)) :
    ∃ finish, Runs env (storage.loadCode .r0 ++ Emit.readCode place size .r0) machine finish ∧
      machine.Fetched place size (machine.word storage) finish := by
  obtain ⟨loaded, loads, sets⟩ := runs_loadCode pointed env machine .r0
  rw [← sets.value] at object ⊢
  obtain ⟨finish, reads, fetched⟩ := runs_helperRead copies small place .r0 object
  exact ⟨finish, loads.append reads, fetched.after sets fun lasting => lasting.1 rfl⟩

/-- The member of a record in the frame is taken from its place. -/
theorem Hop.Within.runs_takenCode (within : hop.Within) {start place : Int16} {own : Storage}
    (takes : own.Takes) (sized : own.size = hop.type.size) (room : 0 < own.size)
    (inside : start.toInt + hop.size ≤ 0)
    (reached : movedOffset start hop.offset = .ok place) (copies : env.Copies readable)
    (object : ∀ index < hop.size, readable (machine.address .frame start + UInt64.ofNat index)) :
    ∃ finish, Runs env (own.takenCode place) machine finish ∧
      finish.bytes own = hop.part (machine.slot start hop.size) := by
  have low := start.le_toInt
  have bound := within
  unfold Hop.Within at bound
  have here : machine.address .frame place =
      machine.address .frame start + UInt64.ofNat hop.offset := by
    rw [Machine.address, Machine.address, Memory.address_add,
      toInt_of_movedOffset (by omega) reached]
  have whole : machine.slot place hop.type.size = hop.part (machine.slot start hop.size) := by
    rw [Machine.slot, here, within.read]
    rfl
  rw [← whole, ← sized]
  cases takes with
  | register reg width =>
      obtain ⟨finish, runs, sets⟩ := runs_loadCode (.slot place width) env machine reg
      refine ⟨finish, runs, ?_⟩
      simp only [Machine.bytes, sets.value]
      exact Block.littleEndian_loaded machine width _
  | slot offset size =>
      simp only at sized
      let pointed := machine.set .r3 (machine.address .frame place)
      have source : pointed.regs .r3 = machine.address .frame place := machine.regs_set_self _ _
      have readable' : ∀ index < size, readable (pointed.regs .r3 + UInt64.ofNat index) := by
        intro index less
        rw [source, here]
        exact within.each object index (sized ▸ less)
      obtain ⟨finish, reads, fetched⟩ :=
        runs_helperRead copies (show size < 2 ^ 31 by omega) offset .r3 readable'
      refine ⟨finish, ?_, ?_⟩
      · rw [Runs, Storage.takenCode, Block.run_address]
        exact reads
      · simp only [Machine.bytes]
        rw [fetched.slot (by omega), source]
        rfl

end Runs

end TraceProbe
