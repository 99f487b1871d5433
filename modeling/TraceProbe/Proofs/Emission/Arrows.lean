import TraceProbe.Proofs.Emission.MemberReads

/-!
# Chains of arrows

An arrow behind an arrow follows the pointer that the first has read.  Each asks
for the bytes of its member once, and none of them changes what the next one
reads unless the objects lie among the slots of the tree.
-/

namespace TraceProbe

open Symbolic

/-- Where the member points to. -/
def Hop.target (hop : Hop) (memory : Memory) (start : UInt64) : UInt64 :=
  UInt64.ofNat (fromLittleEndian (hop.member memory start))

/-- The helper read of the member of an object. -/
def Hop.asked (hop : Hop) (start : UInt64) : Int32 × List UInt64 :=
  askedRead hop.type.size (start + UInt64.ofNat hop.offset)

/-- Where a chain of pointers leads to. -/
def follow (memory : Memory) (start : UInt64) : List Hop → UInt64
  | [] => start
  | hop :: hops => follow memory (hop.target memory start) hops

/-- The helper reads of the members of a chain. -/
def askedChain (memory : Memory) (start : UInt64) : List Hop → List (Int32 × List UInt64)
  | [] => []
  | hop :: hops => hop.asked start :: askedChain memory (hop.target memory start) hops

/-- Every byte of the objects of a chain lies at an address of a certain kind. -/
def Along (memory : Memory) (good : UInt64 → Prop) (start : UInt64) : List Hop → Prop
  | [] => True
  | hop :: hops => (∀ index < hop.size, good (start + UInt64.ofNat index)) ∧
      Along memory good (hop.target memory start) hops

section Chains

variable {memory : Memory} {good better : UInt64 → Prop} {start : UInt64} {hop : Hop}
  {hops : List Hop}

theorem follow_append : follow memory start (hops ++ [hop]) =
    hop.target memory (follow memory start hops) := by
  induction hops generalizing start with
  | nil => rfl
  | cons first hops ih => exact ih

theorem askedChain_append : askedChain memory start (hops ++ [hop]) =
    askedChain memory start hops ++ [hop.asked (follow memory start hops)] := by
  induction hops generalizing start with
  | nil => rfl
  | cons first hops ih => exact congrArg (List.cons _) ih

theorem along_append : Along memory good start (hops ++ [hop]) ↔ Along memory good start hops ∧
    ∀ index < hop.size, good (follow memory start hops + UInt64.ofNat index) := by
  induction hops generalizing start with
  | nil => exact and_comm
  | cons first hops ih =>
      simp only [List.cons_append, Along, ih, follow, and_assoc]

theorem Along.mono (along : Along memory good start hops)
    (enough : ∀ address, good address → better address) :
    Along memory better start hops := by
  induction hops generalizing start with
  | nil => trivial
  | cons first hops ih => exact ⟨fun index inside => enough _ (along.1 index inside), ih along.2⟩

end Chains

namespace Storage

/-- The storage is no slot that covers an address, while the frame ends at another. -/
def Avoids (storage : Storage) (frame address : UInt64) : Prop :=
  match storage.place with
  | .slot offset => ∀ index < storage.size,
      address ≠ frame + UInt64.ofInt offset.toInt + UInt64.ofNat index
  | .register _ | .unassigned => True

instance (storage : Storage) (frame address : UInt64) : Decidable (storage.Avoids frame address) :=
  match storage with
  | ⟨.slot offset, size⟩ => inferInstanceAs (Decidable (∀ index < size,
      address ≠ frame + UInt64.ofInt offset.toInt + UInt64.ofNat index))
  | ⟨.register _, _⟩ | ⟨.unassigned, _⟩ => inferInstanceAs (Decidable True)

end Storage

namespace Node

variable {pointer base tree : Node} {name : String} {inner member outer : Info}

/-- Arrows behind arrows, as many as there are hops. -/
inductive Chain (pointer : Node) : List Hop → Node → Prop
  | root : Chain pointer [] pointer
  | arrow {hops : List Hop} {base : Node} {hop : Hop} {name : String} {inner member outer : Info} :
      Chain pointer hops base → Arrow base hop name →
        Chain pointer (hops ++ [hop]) (apply "." [apply "u*" [base] inner, str name member] outer)

/-- The names of members have no values of their own. -/
def MembersFolded (node : Node) : Prop :=
  ∀ base member info, PartOf (apply "." [base, member] info) node → member.isVirtual = true

theorem MembersFolded.part (folded : tree.MembersFolded) (among : PartOf base tree) :
    base.MembersFolded := by
  intro record member info inside
  exact folded record member info (inside.trans among)

/-- No slot of a tree covers an address, while the frame ends at another. -/
def Spares (tree : Node) (frame address : UInt64) : Prop :=
  ∀ part, PartOf part tree → part.storage.Avoids frame address

theorem partOf_arrow : PartOf base (apply "." [apply "u*" [base] inner, str name member] outer) :=
  .inner List.mem_cons_self (.inner List.mem_cons_self .root)

theorem spares_leaf {frame address : UInt64} (leaf : tree.operator? = none)
    (here : tree.storage.Avoids frame address) : tree.Spares frame address := by
  intro part among
  cases among with
  | root => exact here
  | inner _ _ => cases leaf

theorem spares_apply {operator : String} {args : List Node} {info : Info} {frame address : UInt64}
    (here : info.storage.Avoids frame address) (inner : ∀ arg ∈ args, arg.Spares frame address) :
    (apply operator args info).Spares frame address := by
  intro part among
  rcases partOf_apply_iff.mp among with rfl | ⟨arg, member, inside⟩
  · exact here
  · exact inner arg member part inside

theorem Spares.part {part : Node} {frame address : UInt64} (spares : tree.Spares frame address)
    (among : PartOf part tree) : part.Spares frame address := by
  intro inner inside
  exact spares inner (inside.trans among)

end Node

section Runs

variable {World : Type} {env : Environment World} {machine middle finish : Machine World}
  {readable : UInt64 → Prop} {storage : Storage} {base tree : Node} {hop : Hop} {hops : List Hop}
  {start : UInt64} {code : List Insn}

/-- A helper read leaves alone what its slot does not cover. -/
theorem Machine.Fetched.byte {offset : Int16} {size : Nat} {source address : UInt64}
    (fetched : machine.Fetched offset size source finish) (short : size ≤ 2 ^ 32)
    (apart : ∀ index < size, address ≠
      machine.regs .frame + UInt64.ofInt offset.toInt + UInt64.ofNat index) :
    finish.memory.byte address = machine.memory.byte address := by
  have length := machine.memory.length_read source size
  rw [fetched.memory]
  exact Memory.byte_write_of_ne _ _ _ (by omega) fun index inside => apart index (length ▸ inside)

/-- A machine has followed a chain of arrows to the value of a tree. -/
structure Machine.Chased (machine : Machine World) (start : UInt64) (hops : List Hop) (tree : Node)
    (finish : Machine World) : Prop where
  value : finish.word tree.storage = follow machine.memory start hops
  regs : ∀ reg : Reg, reg.Lasting → finish.regs reg = machine.regs reg
  spared : ∀ address, tree.Spares (machine.regs .frame) address →
    finish.memory.byte address = machine.memory.byte address
  asked : finish.asked = machine.asked ++ askedChain machine.memory start hops

/-- Objects that can be read and do not lie among the slots of a tree. -/
def Reachable (readable : UInt64 → Prop) (machine : Machine World) (tree : Node) (start : UInt64)
    (hops : List Hop) : Prop :=
  Along machine.memory (fun address => readable address ∧ tree.Spares (machine.regs .frame) address)
    start hops

/-- Code that follows a chain of arrows, from a stored pointer to the value of a tree. -/
def Chases (code : List Insn) (storage : Storage) (hops : List Hop) (tree : Node) : Prop :=
  ∀ {World : Type} (env : Environment World) (readable : UInt64 → Prop) (machine : Machine World),
    env.Copies readable → Reachable readable machine tree (machine.word storage) hops →
      ∃ finish, Runs env code machine finish ∧
      machine.Chased (machine.word storage) hops tree finish

theorem chases_nil (tree : Node) : Chases [] tree.storage [] tree := by
  intro _ _ _ machine _ _
  refine ⟨machine, .nil machine, rfl, ?_, ?_, (List.append_nil _).symm⟩
  · intro _ _
    rfl
  · intro _ _
    rfl

/-- The object at the end of a chain is as it was when its pointer is known. -/
theorem Chases.reaches (chases : Chases code storage hops base) (among : Node.PartOf base tree)
    (copies : env.Copies readable)
    (reachable : Reachable readable machine tree (machine.word storage) (hops ++ [hop])) :
    ∃ middle, Runs env code machine middle ∧
      machine.Chased (machine.word storage) hops base middle ∧
      (∀ index < hop.size, readable (middle.word base.storage + UInt64.ofNat index)) ∧
      middle.memory.read (middle.word base.storage) hop.size =
        machine.memory.read (follow machine.memory (machine.word storage) hops) hop.size := by
  obtain ⟨along, object⟩ := along_append.mp reachable
  obtain ⟨middle, runs, chased⟩ := chases env readable machine copies
    (along.mono fun address good => ⟨good.1, good.2.part among⟩)
  refine ⟨middle, runs, chased, ?_, ?_⟩
  · rw [chased.value]
    intro index inside
    exact (object index inside).1
  · rw [chased.value]
    exact Memory.read_congr fun index inside => chased.spared _ ((object index inside).2.part among)

/-- One more arrow. -/
theorem Chases.arrow {place : Int16} (chases : Chases code storage hops base)
    (within : hop.Within) (short : hop.size < 2 ^ 31) (among : Node.PartOf base tree)
    (stored : tree.storage = ⟨.slot place, hop.type.size⟩) (pointed : base.storage.Loadable) :
    Chases (code ++ base.storage.distantCode place hop.type.size (Int32.ofNat hop.offset)) storage
      (hops ++ [hop]) tree := by
  intro World env readable machine copies reachable
  obtain ⟨middle, runs, chased, object, same⟩ := chases.reaches among copies reachable
  obtain ⟨finish, reads, fetched, slot⟩ := within.runs_distantCode short copies pointed place object
  rw [Hop.member, same] at slot
  rw [chased.value] at fetched
  have bound := within
  unfold Hop.Within at bound
  refine ⟨finish, runs.append reads, ?_, ?_, ?_, ?_⟩
  · rw [follow_append, Hop.target, Hop.member, ← slot, stored]
    rfl
  · intro reg lasting
    exact (fetched.regs reg lasting).trans (chased.regs reg lasting)
  · intro address spares
    refine (fetched.byte (by omega) ?_).trans (chased.spared address (spares.part among))
    intro index inside
    have avoids := spares tree .root
    rw [stored] at avoids
    rw [chased.regs _ Reg.lasting_frame]
    exact avoids index inside
  · rw [fetched.asked, chased.asked, askedChain_append, List.append_assoc]
    rfl

end Runs

namespace Node

open AtSite

variable {symbols : Symbols} {request : Request} {stream finish : Stream}
  {pointer base node tree : Node} {hop : Hop} {hops : List Hop} {name : String}
  {inner member outer : Info} {literal : List Ty → Ty → Prop} {typing : Symbols} {role : Role}

theorem chases_of_emits (chain : Chain pointer hops node)
    (emittable : Emittable literal typing role node)
    (folded : node.MembersFolded) (emits : Emits symbols node {} stream tree finish) :
    ∃ source before added, Emits symbols pointer {} stream source before ∧
      finish.code = before.code ++ added ∧ Chases added source.storage hops tree := by
  induction chain generalizing role tree finish with
  | root => exact ⟨tree, finish, [], emits, (List.append_nil _).symm, chases_nil tree⟩
  | arrow _ arrow ih =>
      obtain ⟨value, after, place, emitted, among, stored, pointed, code⟩ :=
        emits_arrow arrow emittable (folded _ _ _ .root) emits
      obtain ⟨role, inside⟩ := emittable.part partOf_arrow
      obtain ⟨source, before, added, first, earlier, chases⟩ :=
        ih inside (folded.part partOf_arrow) emitted
      refine ⟨source, before, _, first, ?_,
        chases.arrow arrow.names.within arrow.short among stored pointed⟩
      rw [code, earlier, List.append_assoc]

/-- The emission of a node computes a pointer and follows a chain of arrows behind it,
wherever the objects can be read and lie apart from the slots of the node.  It leaves
bytes of the last object in a slot, for which it asks the helper once, after the
members on the way. -/
def ReadsBehind (symbols : Symbols) (pointer : Node) (hops : List Hop) (hop : Hop)
    (bytes : List UInt8 → List UInt8) (asked : UInt64 → Int32 × List UInt64) (stream : Stream)
    (tree : Node) (finish : Stream) : Prop :=
  ∃ source before added place size, Emits symbols pointer {} stream source before ∧
    tree.storage = ⟨.slot place, size⟩ ∧ finish.code = before.code ++ added ∧
    ∀ {World : Type} (env : Environment World) (readable : UInt64 → Prop) (machine : Machine World),
      env.Copies readable →
      let start := machine.word source.storage
      let last := follow machine.memory start hops
      Reachable readable machine tree start (hops ++ [hop]) →
        ∃ final, Runs env added machine final ∧
          final.slot place size = bytes (machine.memory.read last hop.size) ∧
          final.asked = machine.asked ++ (askedChain machine.memory start hops ++ [asked last])

variable (chain : Chain pointer hops base)

include chain

/-- An arrow reads the bytes of its member. -/
theorem readsBehind_arrow (arrow : Arrow base hop name)
    (emittable : Emittable literal typing role
      (apply "." [apply "u*" [base] inner, str name member] outer))
    (folded : (apply "." [apply "u*" [base] inner, str name member] outer).MembersFolded)
    (emits : Emits symbols (apply "." [apply "u*" [base] inner, str name member] outer) request
      stream tree finish) : ReadsBehind symbols pointer hops hop hop.part hop.asked
        stream tree finish := by
  obtain ⟨value, after, place, emitted, among, stored, pointed, code⟩ :=
    emits_arrow arrow emittable (folded _ _ _ .root) emits
  obtain ⟨role, inside⟩ := emittable.part partOf_arrow
  obtain ⟨source, before, added, first, earlier, chases⟩ :=
    chases_of_emits chain inside (folded.part partOf_arrow) emitted
  refine ⟨source, before, _, place, _, first, stored, by rw [code, earlier, List.append_assoc], ?_⟩
  intro World env readable machine copies start last reachable
  obtain ⟨middle, runs, chased, object, same⟩ := chases.reaches among copies reachable
  obtain ⟨final, reads, fetched, slot⟩ :=
    arrow.names.within.runs_distantCode arrow.short copies pointed place object
  refine ⟨final, runs.append reads, slot.trans (congrArg hop.part same), ?_⟩
  rw [fetched.asked, chased.asked, chased.value, List.append_assoc]
  rfl

/-- A dereference reads all bytes of its object. -/
theorem readsBehind_deref (typed : base.type? = some (.pointer (.record hop.shape)))
    (short : hop.size < 2 ^ 31)
    (emittable : Emittable literal typing role (apply "u*" [base] inner))
    (folded : (apply "u*" [base] inner).MembersFolded) (whole : request.memberOnly = false)
    (read : request.target = false)
    (emits : Emits symbols (apply "u*" [base] inner) request stream tree finish) :
    ReadsBehind symbols pointer hops hop id (askedRead hop.size) stream tree finish := by
  obtain ⟨value, after, place, emitted, among, stored, pointed, code⟩ :=
    emits_deref typed emittable whole read emits
  have first : PartOf base (apply "u*" [base] inner) := .inner List.mem_cons_self .root
  obtain ⟨role, inside⟩ := emittable.part first
  obtain ⟨source, before, added, first, earlier, chases⟩ :=
    chases_of_emits chain inside (folded.part first) emitted
  refine ⟨source, before, _, place, _, first, stored, by rw [code, earlier, List.append_assoc], ?_⟩
  intro World env readable machine copies start last reachable
  obtain ⟨middle, runs, chased, object, same⟩ := chases.reaches among copies reachable
  obtain ⟨final, reads, fetched⟩ := runs_wholeCode short copies pointed place object
  refine ⟨final, runs.append reads, (fetched.slot (Nat.le_of_lt (by omega))).trans same, ?_⟩
  rw [fetched.asked, chased.asked, chased.value, List.append_assoc]

omit chain

/-- The emission of a dot leaves the bytes of a member of a record that it has emitted
to the frame. -/
def TakesFromFrame (symbols : Symbols) (record : Node) (hop : Hop) (stream : Stream) (tree : Node)
    (finish : Stream) : Prop :=
  ∃ copied before added place, Emits symbols record .frame stream copied before ∧
    copied.storage.place = .slot place ∧ finish.code = before.code ++ added ∧
    ∀ {World : Type} (env : Environment World) (readable : UInt64 → Prop) (machine : Machine World),
      env.Copies readable → place.toInt + hop.size ≤ 0 →
      (∀ index < hop.size, readable (machine.address .frame place + UInt64.ofNat index)) →
        ∃ final, Runs env added machine final ∧
          final.bytes tree.storage = hop.part (machine.slot place hop.size)

theorem takesFromFrame {record : Node} (names : hop.Names name) (room : 0 < hop.type.size)
    (typed : record.type? = some (.record hop.shape)) (plain : record.applies "u*" = false)
    (emittable : Emittable literal typing role (apply "." [record, str name member] outer))
    (folded : member.isVirtual = true)
    (emits : Emits symbols (apply "." [record, str name member] outer) request stream tree finish) :
    TakesFromFrame symbols record hop stream tree finish := by
  obtain ⟨copied, before, start, place, emitted, located, reached, takes, sized, code⟩ :=
    emits_dot typed plain names emittable folded emits
  refine ⟨copied, before, _, start, emitted, located, code, ?_⟩
  intro World env readable machine copies inside object
  exact names.within.runs_takenCode takes sized (sized ▸ room) inside reached copies object

end Node

end TraceProbe
