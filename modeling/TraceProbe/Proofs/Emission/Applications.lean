import TraceProbe.Proofs.Emission.Reserving
import TraceProbe.Proofs.Emission.Texts

/-!
# Emission around arguments

What an application appends before its arguments and behind them.  Whatever the
operator is, it fills its own storage and slots of its own, and leaves alone
what its arguments hold.
-/

namespace TraceProbe

/-- The positions of a value in the slot that was chosen for it, if one was. -/
def Request.Claims (request : Request) (own : Storage) (position : Int) : Prop :=
  request.slot ≠ none ∧ own.Covers position

/-- There is room for what is asked of an emission: a chosen slot lies in the
part of the frame that is in use.  Struct literals have the members that are
written. -/
structure Fit (literal : List Ty → Ty → Prop) (request : Request) (stream : Stream)
    (own : Storage) : Prop where
  small : stream.limit ≤ 32767
  fits : stream.used ≤ stream.limit
  inside : ∀ position, request.Claims own position →
    -(stream.used : Int) ≤ position ∧ position < 0
  literal : ∀ members type, literal members type → Registry.Literal members type

theorem Owns.claims {request : Request} {stream finish : Stream} {own : Storage} {type : Ty}
    (owns : Owns type request.slot stream finish own)
    (small : stream.limit ≤ 32767) {position : Int}
    (covers : own.Covers position) :
    Handed stream finish position ∨ request.Claims own position := by
  rcases owns.covers small position covers with handed | ⟨offset, same, -⟩
  · exact .inl handed
  · exact .inr ⟨by rw [same]; exact Option.some_ne_none _, covers⟩

/-- Storage that was allocated for a request that fits is in the frame. -/
theorem Fit.bounds {literal : List Ty → Ty → Prop} {request : Request} {stream site : Stream}
    {own : Storage} {type : Ty} {added : List Insn} (fit : Fit literal request stream own)
    (extended : stream.Extends site added) (owns : Owns type request.slot stream site own)
    {position : Int} (covers : own.Covers position) :
    -(site.used : Int) ≤ position ∧ position < 0 := by
  have used := extended.used
  rcases owns.claims fit.small covers with ⟨low, high⟩ | claims
  · exact ⟨low, by omega⟩
  · obtain ⟨low, high⟩ := fit.inside position claims
    exact ⟨by omega, high⟩

theorem Fit.size_le {literal : List Ty → Ty → Prop} {request : Request}
    {stream site : Stream} {type : Ty}
    {added : List Insn} {base : Int16} {size : Nat}
    (fit : Fit literal request stream ⟨.slot base, size⟩)
    (extended : stream.Extends site added)
    (owns : Owns type request.slot stream site ⟨.slot base, size⟩) :
    size ≤ 32767 := by
  have room := Storage.size_le fun position covers => fit.bounds extended owns covers
  have small : site.used ≤ 32767 :=
    Nat.le_trans (extended.fits fit.fits) (extended.limit ▸ fit.small)
  exact Nat.le_trans room small

namespace Node

open AtSite

/-- What is appended around the arguments of an application: what is planned
before them reads nothing, and what is finished behind them reads what they
hold. -/
structure Around (sure : Prop) (literal : List Ty → Ty → Prop) (operator : String)
    (request : Request) (plan : Plan) (stream site : Stream) (trees : List Node)
    (middle finish : Stream) (own : Storage) (planned finished : List Move) : Prop where
  plans : stream.Moved site planned
  finishes : middle.Moved finish finished
  unread : ∀ move ∈ planned, move.srcs = []
  clears : ∀ move ∈ planned, ∀ dst, move.dst = some dst → (∀ reg, dst.place ≠ .register reg) ∧
    (Fit literal request stream own → ∀ position, dst.Covers position → own.Covers position)
  reads : ∀ move ∈ finished, ∀ src ∈ move.srcs, Readable sure trees middle finish src
  writes : ∀ move ∈ finished, ∀ dst, move.dst = some dst → NewSlot middle finish dst ∨
    dst = own ∧ ∀ (index : Nat) (asked : Request), plan.args[index]? = some asked →
      asked.slot ≠ none → Role.of operator trees index = .target
  filled : ∀ reg, own.place = .register reg → ∃ move ∈ finished, move.dst = some own
  register : ∀ reg, own.place = .register reg →
    ∃ number, reg = .virtual number ∧ middle.nextReg ≤ number ∧ number < finish.nextReg
  covers : stream.limit ≤ 32767 → ∀ position, own.Covers position →
    Handed stream site position ∨ Handed middle finish position ∨ request.Claims own position
  asked : Fit literal request stream own → ∀ (index : Nat) (tree : Node) (asked : Request),
    trees[index]? = some tree → plan.args[index]? = some asked →
      ∀ position, asked.Claims tree.storage position →
        own.Covers position ∧ -(site.used : Int) ≤ position ∧ position < 0
  separate : Fit literal request stream own → ∀ (index later : Nat) (tree other : Node)
    (asked asked' : Request), index < later → trees[index]? = some tree →
      trees[later]? = some other → plan.args[index]? = some asked →
        plan.args[later]? = some asked' → Role.of operator trees index ≠ .target →
          ∀ position, asked.Claims tree.storage position → ¬ asked'.Claims other.storage position
  targets : ∀ (index : Nat) (asked : Request), plan.args[index]? = some asked →
    Role.of operator trees index = .target → asked.target = true
  element : operator = "[]" → planned = [] ∧ (∀ asked ∈ plan.args, asked.slot = none) ∧
    (request.target = true → finished = [])
  reserved : request.slot = none → ∀ offset, own.place = .slot offset →
    stream.HandsOut finish offset own.size

section Roles

variable {operator : String} {trees : List Node} {index : Nat}

theorem Role.of_eq_target_iff :
    Role.of operator trees index = .target ↔ operator = "=" ∧ index = 0 := by
  unfold Role.of
  split
  · rename_i later
    simp [later]
  · split
    · rename_i assign
      simp_all
    · rename_i other
      split <;> simp [other]

end Roles

variable {symbols : Symbols} {request : Request} {stream middle finish : Stream} {own : Storage}
  {plan : Plan} {site : Site} {info : Info} {sure : Prop} {literal : List Ty → Ty → Prop}
  {operator : String} {args trees : List Node} {type : Ty} {moves : List Move}

theorem placed_apply (sized : type ≠ .void → own.isAssigned = true → own.size = type.size)
    (typed : info.type = some type)
    (positive : request.slot = none → own.isAssigned = true → 0 < own.size)
    (obeyed : ∀ offset, request.slot = some offset → own.isAssigned = true →
      own.place = .slot offset) :
    (apply operator trees { info with storage := own }).Placed request := by
  refine ⟨⟨?_, fun value text => by cases text⟩, positive, obeyed⟩
  intro other known real
  rw [show info.type = some other from known] at typed
  cases typed
  exact sized real

/-- Operators that leave the storage of their arguments to them. -/
theorem around_passive {added : List Insn} (passive : plan.Passive request)
    (noTarget : operator ≠ "=") (inner : stream.Extends middle added)
    (finishes : Finishes sure type plan.own.slot trees middle finish own moves)
    (element : operator = "[]" → request.target = true → moves = []) :
    Around sure literal operator request plan stream stream trees middle finish own [] moves := by
  have free {index : Nat} {asked : Request} (found : plan.args[index]? = some asked) :
      asked.slot = none := passive.free asked (List.mem_of_getElem? found)
  have unclaimed {index : Nat} {asked : Request} (found : plan.args[index]? = some asked)
      {storage : Storage} {position : Int} : ¬ asked.Claims storage position :=
    fun claims => claims.1 (free found)
  have owns := passive.slot ▸ finishes.owns
  exact
    { plans := .refl stream
      finishes := finishes.moved
      unread := fun _ member => by cases member
      clears := fun _ member => by cases member
      reads := finishes.reads
      writes := by
        intro move member dst filled
        rcases finishes.writes move member dst filled with same | new
        · exact .inr ⟨same, fun index asked found some => absurd (free found) some⟩
        · exact .inl new
      filled := finishes.filled
      register := finishes.owns.register
      covers := by
        intro small position covers
        rw [← inner.limit] at small
        exact .inr (owns.claims small covers)
      asked := by
        intro _ index tree asked _ found position claims
        exact absurd claims (unclaimed found)
      separate := by
        intro _ index later tree other asked asked' _ _ _ found _ _ position claims
        exact absurd claims (unclaimed found)
      targets := by
        intro index asked _ target
        exact absurd (Role.of_eq_target_iff.mp target).1 noTarget
      element := fun isElement => ⟨rfl, passive.free, element isElement⟩
      reserved := by
        intro none offset placed
        exact (owns.reserved none offset placed).mono inner (.refl finish) }

/-- What is known about the arguments of an application once they are emitted. -/
structure Supplied (plan : Plan) (args trees : List Node) : Prop where
  bares : args.map bare = trees.map bare
  types : ∀ (index : Nat) (arg tree : Node), args[index]? = some arg → trees[index]? = some tree →
    tree.type? = arg.type?
  lengths : plan.args.length = args.length
  placed : ∀ (index : Nat) (tree : Node) (asked : Request), trees[index]? = some tree →
    plan.args[index]? = some asked → tree.Placed asked

theorem Supplied.follows (supplied : Supplied plan args trees) : Follows args trees where
  bares := supplied.bares
  typed index arg tree here there _ typed :=
    (supplied.types index arg tree here there).trans typed

theorem Supplied.exists_request (supplied : Supplied plan args trees) {index : Nat} {tree : Node}
    (found : trees[index]? = some tree) :
    ∃ asked, plan.args[index]? = some asked ∧ tree.Placed asked := by
  have inside : index < plan.args.length := by
    rw [supplied.lengths, length_of_bares supplied.bares]
    exact (List.getElem?_eq_some_iff.mp found).1
  exact ⟨_, List.getElem?_eq_getElem inside, supplied.placed index tree _ found
    (List.getElem?_eq_getElem inside)⟩

theorem Supplied.placed_of_mem (supplied : Supplied plan args trees) {tree : Node}
    (member : tree ∈ trees) :
    ∃ asked ∈ plan.args, tree.Placed asked := by
  obtain ⟨index, found⟩ := List.mem_iff_getElem?.mp member
  obtain ⟨asked, there, placed⟩ := supplied.exists_request found
  exact ⟨asked, List.mem_of_getElem? there, placed⟩

/-- Storage is forced into the frame where it would otherwise be left without a
value. -/
theorem inFrame_of_plan {pointer : Node}
    (planned : Yields ((apply "u*" [pointer] info).planApplication request) site
      plan ⟨stream, own⟩) :
    plan.own.inFrame = true := by
  have found := planned_by rfl planned
  obtain ⟨rfl, -⟩ := yields_pure_iff.mp found
  rfl

/-- What passive operators append. -/
theorem finishes_passive {last : Site} (shape : Shape operator trees)
    (other : reserves operator = false)
    (typed : info.type = some type) (rule : operator ≠ "[]" → Rule literal operator trees type)
    (sureRule : sure → Rule literal operator trees type) (passive : plan.Passive request)
    (planned : Yields ((apply operator args info).planApplication request) site plan last)
    (supplied : Supplied plan args trees)
    (found : Yields ((apply operator trees { info with storage := {} }).finishApplication symbols
      plan.own) ⟨middle, {}⟩ () ⟨finish, own⟩) :
    ∃ moves, Finishes sure type plan.own.slot trees middle finish own moves ∧
      (operator = "[]" → request.target = true → moves = []) := by
  have plain {name : String} (different : name ≠ "[]")
      (finishes : ∃ moves, Finishes sure type plan.own.slot trees middle finish own moves) :
      ∃ moves, Finishes sure type plan.own.slot trees middle finish own moves ∧
        (name = "[]" → request.target = true → moves = []) := by
    obtain ⟨moves, finishes⟩ := finishes
    exact ⟨moves, finishes, fun same => absurd same different⟩
  have typed : (apply operator trees { info with storage := {} }).type? = some type := typed
  cases shape with
  | dot named =>
      obtain ⟨asked, -, placed⟩ := supplied.placed_of_mem List.mem_cons_self
      exact plain (by decide) (finishes_dot typed (rule (by decide)) placed.toStored found)
  | deref pointer =>
      obtain ⟨pointer', rfl, -⟩ := one_of_bares supplied.bares.symm
      exact plain (by decide) (finishes_deref typed (inFrame_of_plan planned) found)
  | structLiteral _ | assign _ _ => cases other
  | subscript collection key =>
      obtain ⟨collection', key', rfl, -, -⟩ := two_of_bares supplied.bares.symm
      obtain ⟨asked, -, placed⟩ := supplied.placed_of_mem List.mem_cons_self
      have inFrame : ∀ wanted value kind, collection.type? = some (.map wanted value kind) →
          plan.own.inFrame = true := by
        intro wanted value kind known
        have same := supplied.types 0 collection' collection rfl rfl
        obtain ⟨rfl, -⟩ := plan_subscript (same.symm.trans known) planned
        rfl
      obtain ⟨moves, finishes, idle⟩ := finishes_subscript typed sureRule placed.toStored inFrame
        found
      exact ⟨moves, finishes, fun _ target => idle (passive.target.trans target)⟩
  | delete _ => exact plain (by decide) (finishes_delete found)
  | strcmp left right =>
      refine plain (by decide) (finishes_strcmp typed ?_ found)
      intro tree member
      obtain ⟨asked, among, placed⟩ := supplied.placed_of_mem member
      refine ⟨placed.toStored, placed.positive (passive.free asked among), ?_⟩
      obtain ⟨leftType, rightType, known, string, known', string'⟩ :=
        (rule (by decide)).strings rfl rfl
      rcases List.mem_cons.mp member with rfl | last
      · exact ⟨leftType, known, string⟩
      · obtain rfl := List.mem_singleton.mp last
        exact ⟨rightType, known', string'⟩
  | mem source _ => exact plain (by decide) (finishes_mem typed found)
  | str source _ => exact plain (by decide) (finishes_str typed found)

/-- What an assignment asks of its target and its value, and how they are stored. -/
structure Assigning (plan : Plan) (slot : Int16) (target value : Node)
    (targetType valueType : Ty) : Prop where
  asks : plan.args = [(Request.inSlot slot).asTarget,
    if valueType.size = targetType.size then Request.inSlot slot else .frame]
  knownTarget : target.type? = some targetType
  knownValue : value.type? = some valueType
  realTarget : targetType ≠ .void
  realValue : valueType ≠ .void
  placedTarget : target.Placed (Request.inSlot slot).asTarget
  placedValue :
      value.Placed (if valueType.size = targetType.size then Request.inSlot slot else .frame)

section Assigning

variable {slot : Int16} {target value : Node} {targetType valueType : Ty}

theorem assigning_of_supplied (rule : Rule literal "=" [target, value] type)
    (supplied : Supplied plan args [target, value]) {target' value' : Node}
    (parts : args = [target', value'])
    (known : target'.type? = some targetType) (known' : value'.type? = some valueType)
    (asks : plan.args = [(Request.inSlot slot).asTarget,
      if valueType.size = targetType.size then Request.inSlot slot else .frame]) :
    Assigning plan slot target value targetType valueType := by
  subst parts
  rw [← supplied.types 0 target' target rfl rfl] at known
  rw [← supplied.types 1 value' value rfl rfl] at known'
  obtain ⟨_, _, same, same', realTarget, realValue, -⟩ := rule.assigned rfl rfl
  cases known.symm.trans same
  cases known'.symm.trans same'
  exact ⟨asks, known, known', realTarget, realValue,
    supplied.placed 0 target _ rfl (by rw [asks]; rfl),
    supplied.placed 1 value _ rfl (by rw [asks]; rfl)⟩

/-- Both arguments go into the slot, if they are asked into it at all. -/
theorem Assigning.covers (assigning : Assigning plan slot target value targetType valueType)
    {index : Nat} {tree : Node} {asked : Request} (here : [target, value][index]? = some tree)
    (there : plan.args[index]? = some asked) {position : Int}
    (claims : asked.Claims tree.storage position) :
    Storage.Covers ⟨.slot slot, targetType.size⟩ position := by
  obtain ⟨chosen, offset, at', inside⟩ := claims
  have assigned : tree.storage.isAssigned = true := by simp [Storage.isAssigned, at']
  rw [assigning.asks] at there
  obtain _ | _ | index := index
  · cases here
    rw [assigning.placedTarget.whole rfl assigning.knownTarget assigning.realTarget
      assigned] at inside at'
    exact ⟨offset, at', inside⟩
  · cases here
    cases there
    have placed := assigning.placedValue
    split at chosen
    · rename_i sizes
      rw [if_pos sizes] at placed
      rw [placed.whole rfl assigning.knownValue assigning.realValue assigned, sizes] at inside at'
      exact ⟨offset, at', inside⟩
    · exact absurd rfl chosen
  · cases here

end Assigning

/-- An assignment asks for its target and mostly for its value in its own slot. -/
theorem around_assign {target value : Node} {added : List Insn}
    (shape : Shape "=" [target, value]) (rule : Rule literal "=" [target, value] type)
    (planned : Yields ((apply "=" args info).planApplication request) ⟨stream, {}⟩ plan site)
    (inner : site.stream.Extends middle added) (supplied : Supplied plan args [target, value])
    (found : Yields ((apply "=" [target, value] { info with storage := site.own }).finishApplication
      symbols plan.own) ⟨middle, site.own⟩ () ⟨finish, own⟩) :
    ∃ finished targetType, Owns targetType request.slot stream site.stream own ∧
      Around sure literal "=" request plan stream site.stream [target, value] middle finish own []
        finished := by
  obtain ⟨target', value', parts, -, -⟩ := two_of_bares supplied.bares.symm
  obtain ⟨targetType, valueType, slot, known, known', whole, extended, owns, asks⟩ :=
    reserved_assign (parts ▸ planned)
  have assigning := assigning_of_supplied rule supplied parts known known' asks
  have targets := shape.target_applies (show [target, value][0]? = some target from rfl) rfl
  obtain ⟨reserved, own'⟩ := site
  obtain ⟨same, moves, moved, reads, writes⟩ := finishes_assign targets assigning.knownValue
    assigning.realValue assigning.placedValue rfl assigning.knownTarget assigning.realTarget
    assigning.placedTarget found
  obtain rfl : own = own' := same
  obtain rfl : own = ⟨.slot slot, targetType.size⟩ := whole
  refine ⟨moves, targetType, owns, ?_⟩
  exact
    { plans := Stream.moved_nil extended
      finishes := moved
      unread := fun _ member => by cases member
      clears := fun _ member => by cases member
      reads := reads
      writes := by
        intro move member dst filled
        rcases writes move member dst filled with ⟨rfl, free⟩ | new
        · refine .inr ⟨rfl, ?_⟩
          intro index asked there some
          rw [asks] at there
          obtain _ | _ | index := index
          · rfl
          · cases there
            exact absurd free some
          · cases there
        · exact .inl new
      filled := fun reg placed => by cases placed
      register := fun reg placed => by cases placed
      covers := by
        intro small position covers
        exact (owns.claims small covers).imp_right .inr
      asked := by
        intro fit index tree asked here there position claimed
        have covers := assigning.covers here there claimed
        exact ⟨covers, fit.bounds extended owns covers⟩
      separate := by
        intro _ index later tree other asked asked' order here there _ _ value
        obtain _ | _ | index := index
        · exact absurd rfl value
        · obtain _ | _ | later := later
          · cases order
          · exact absurd order (Nat.lt_irrefl 1)
          · cases there
        · cases here
      targets := by
        intro index asked there target
        obtain ⟨-, rfl⟩ := Role.of_eq_target_iff.mp target
        rw [asks] at there
        cases there
        rfl
      element := fun element => absurd element (by decide)
      reserved := by
        intro none offset placed
        exact (owns.reserved none offset placed).mono (.refl stream)
          (inner.trans moved.extended) }

theorem type?_of_valueTypes? {members : List Ty} (known : valueTypes? trees = some members)
    {index : Nat} {tree : Node} (here : trees[index]? = some tree) :
    ∃ type, tree.type? = some type ∧ members[index]? = some type ∧ type ≠ .void := by
  induction trees generalizing members index with
  | nil => cases here
  | cons first others ih =>
      unfold valueTypes? at known
      split at known
      · cases known
      · rename_i type typed
        split at known
        · rename_i room
          obtain ⟨rest, others', rfl⟩ := Option.map_eq_some_iff.mp known
          cases index with
          | zero =>
              cases here
              refine ⟨type, typed, rfl, ?_⟩
              rintro rfl
              cases room
          | succ index => exact ih others' here
        · cases known

theorem length_of_valueTypes? {members : List Ty} (known : valueTypes? trees = some members) :
    members.length = trees.length := by
  induction trees generalizing members with
  | nil =>
      cases known
      rfl
  | cons tree trees ih =>
      unfold valueTypes? at known
      split at known
      · cases known
      · split at known
        · obtain ⟨others, rest, rfl⟩ := Option.map_eq_some_iff.mp known
          rw [List.length_cons, List.length_cons, ih rest]
        · cases known

/-- An argument of a struct literal is asked into the place of its member, which
has its type. -/
theorem Member.asked {members : List Ty} {index : Nat} {tree : Node} {shape : Record}
    {base : Int16} {asked : Request} (known : valueTypes? trees = some members)
    (fields : shape.fields = Registry.positionalFields members)
    (here : trees[index]? = some tree)
    (member : Member base (shape.fields.zip shape.offsets) index asked) :
    ∃ field distance place, (shape.fields.zip shape.offsets)[index]? = some (field, distance) ∧
      movedOffset base distance = .ok place ∧ asked = Request.inSlot place ∧
        tree.type? = some field.type ∧ field.type ≠ .void := by
  obtain ⟨field, distance, place, found, reached, rfl⟩ := member
  obtain ⟨type, typed, among, real⟩ := type?_of_valueTypes? known here
  have same : field.type = type := by
    have there := (List.getElem?_zip_eq_some.mp found).1
    rw [fields, Registry.positionalFields, List.getElem?_mapIdx, among] at there
    cases there
    rfl
  exact ⟨field, distance, place, found, reached, rfl, same ▸ typed, same ▸ real⟩

/-- An argument of a struct literal takes the room of its member. -/
theorem Member.whole {members : List Ty} {index : Nat} {tree : Node} {shape : Record}
    {base : Int16} {asked : Request} (known : valueTypes? trees = some members)
    (fields : shape.fields = Registry.positionalFields members)
    (here : trees[index]? = some tree) (placed : tree.Placed asked)
    (assigned : tree.storage.isAssigned = true)
    (member : Member base (shape.fields.zip shape.offsets) index asked) :
    ∃ field distance place, (shape.fields.zip shape.offsets)[index]? = some (field, distance) ∧
      movedOffset base distance = .ok place ∧ tree.storage = ⟨.slot place, field.type.size⟩ := by
  obtain ⟨field, distance, place, found, reached, rfl, typed, real⟩ :=
    member.asked known fields here
  exact ⟨field, distance, place, found, reached, placed.whole rfl typed real assigned⟩

/-- What an argument of a struct literal claims lies in the place of its member. -/
theorem Supplied.member_of_claims {members : List Ty} {index : Nat} {tree : Node} {shape : Record}
    {base : Int16} {asked : Request} (supplied : Supplied plan args trees)
    (known : valueTypes? trees = some members)
    (fields : shape.fields = Registry.positionalFields members)
    (asks : ∀ index asked, plan.args[index]? = some asked →
      Member base (shape.fields.zip shape.offsets) index asked)
    (here : trees[index]? = some tree) (there : plan.args[index]? = some asked) {position : Int}
    (claims : asked.Claims tree.storage position) :
    ∃ field distance place, (shape.fields.zip shape.offsets)[index]? = some (field, distance) ∧
      movedOffset base distance = .ok place ∧
        Storage.Covers ⟨.slot place, field.type.size⟩ position := by
  obtain ⟨-, covers⟩ := claims
  have assigned : tree.storage.isAssigned = true := by
    obtain ⟨offset, at', -⟩ := covers
    simp [Storage.isAssigned, at']
  obtain ⟨field, distance, place, found, reached, whole⟩ := Member.whole known fields here
    (supplied.placed index tree asked here there) assigned (asks index asked there)
  exact ⟨field, distance, place, found, reached, whole ▸ covers⟩

/-- The places of two members have no position in common. -/
theorem apart_of_members {shape : Record} {base place place' : Int16}
    {index later distance distance' : Nat}
    {field field' : Field} (struct : shape.union = false) (small : (Ty.record shape).size ≤ 32767)
    (order : index < later)
    (member : (shape.fields.zip shape.offsets)[index]? = some (field, distance))
    (member' : (shape.fields.zip shape.offsets)[later]? = some (field', distance'))
    (reached : movedOffset base distance = .ok place)
    (reached' : movedOffset base distance' = .ok place')
    {position : Int} (covers : Storage.Covers ⟨.slot place, field.type.size⟩ position) :
    ¬ Storage.Covers ⟨.slot place', field'.type.size⟩ position := by
  intro covers'
  have order := (Record.laid_of_struct struct).ordered order member member'
  have ends := Record.bounds_of_mem (List.mem_of_getElem? member')
  have first := toInt_of_movedOffset (by omega) reached
  have second := toInt_of_movedOffset (by omega) reached'
  have high := (Storage.covers_slot.mp covers).2
  have low := (Storage.covers_slot.mp covers').1
  omega

theorem positional_of_rule {shape : Record} (rule : Rule literal ":struct" trees (.record shape))
    (gives : ∀ members type, literal members type → Registry.Literal members type) :
    shape.union = false ∧ ∃ members, valueTypes? trees = some members ∧
      shape.fields = Registry.positionalFields members := by
  obtain ⟨members, known, found⟩ := rule.members rfl
  obtain ⟨name, same⟩ := gives members _ found
  cases same
  exact ⟨rfl, members, known, rfl⟩

/-- A struct literal asks for its members in its own slot and clears what lies
between them. -/
theorem around_structLiteral {added : List Insn} (typed : info.type = some type)
    (rule : Rule literal ":struct" trees type)
    (free : ∀ arg ∈ args, arg.storage.isAssigned = false)
    (planned : Yields ((apply ":struct" args info).planApplication request) ⟨stream, {}⟩ plan site)
    (inner : site.stream.Extends middle added) (supplied : Supplied plan args trees)
    (found : Yields ((apply ":struct" trees { info with storage := site.own }).finishApplication
      symbols plan.own) ⟨middle, site.own⟩ () ⟨finish, own⟩) :
    ∃ planned, Owns type request.slot stream site.stream own ∧
      Around sure literal ":struct" request plan stream site.stream trees middle finish own planned
        [] := by
  obtain ⟨reserved, own'⟩ := site
  obtain ⟨shape, base, moves, rfl, whole, moved, owns, asks, clears, gaps⟩ :=
    reserved_structLiteral typed free planned
  obtain rfl : own' = ⟨.slot base, (Ty.record shape).size⟩ := whole
  have lengths := supplied.lengths.trans (length_of_bares supplied.bares)
  have typed' :
      (apply ":struct" trees { info with storage := ⟨.slot base, (Ty.record shape).size⟩ }).type? =
      some (.record shape) := typed
  have unchanged := finished_structLiteral typed' rfl rfl lengths asks supplied.placed found
  cases unchanged
  -- With the members that are written, everything asked and cleared is a part of the slot.
  have struct (fit : Fit literal request stream ⟨.slot base, (Ty.record shape).size⟩) :
      (Ty.record shape).size ≤ 32767 ∧ shape.union = false ∧
        ∃ members, valueTypes? trees = some members ∧
          shape.fields = Registry.positionalFields members :=
    ⟨fit.size_le moved.extended owns, positional_of_rule rule fit.literal⟩
  refine ⟨moves, owns, ?_⟩
  exact
    { plans := moved
      finishes := .refl _
      unread := by
        intro move member
        obtain ⟨start, stop, free, -⟩ := clears move member
        exact free
      clears := by
        intro move member dst filled
        constructor
        · obtain ⟨start, stop, -, place, -, same⟩ := clears move member
          rw [filled] at same
          cases same
          intro reg placed
          cases placed
        · intro fit position covers
          obtain ⟨small, union, -⟩ := struct fit
          obtain ⟨start, stop, order, ends, -, place, reached, same⟩ := gaps union move member
          rw [filled] at same
          cases same
          exact covers_of_part reached (by omega) small covers
      reads := fun _ member => by cases member
      writes := fun _ member => by cases member
      filled := fun reg placed => by cases placed
      register := fun reg placed => by cases placed
      covers := by
        intro small position covers
        exact (owns.claims small covers).imp_right .inr
      asked := by
        intro fit index tree asked here there position claims
        obtain ⟨small, -, members, known, fields⟩ := struct fit
        obtain ⟨field, distance, place, member, reached, covers⟩ :=
          supplied.member_of_claims known fields asks here there claims
        have among := List.mem_of_getElem? member
        have inside := covers_of_part reached (Record.bounds_of_mem among) small covers
        exact ⟨inside, fit.bounds moved.extended owns inside⟩
      separate := by
        intro fit index later tree other asked asked' order here there found found' _ position
          claims claims'
        obtain ⟨small, union, members, known, fields⟩ := struct fit
        obtain ⟨_, _, _, member, reached, covers⟩ :=
          supplied.member_of_claims known fields asks here found claims
        obtain ⟨_, _, _, member', reached', covers'⟩ :=
          supplied.member_of_claims known fields asks there found' claims'
        exact apart_of_members union small order member member' reached reached' covers covers'
      targets := by
        intro index asked there target
        exact absurd (Role.of_eq_target_iff.mp target).1 (by decide)
      element := fun element => absurd element (by decide)
      reserved := by
        intro none offset placed
        exact (owns.reserved none offset placed).mono (.refl stream) inner }

/-- The storage of an application fits its type and its request, and its code is
such as it should be around its arguments. -/
theorem around {added : List Insn} (shape : Shape operator args) (typed : info.type = some type)
    (rule : operator ≠ "[]" → Rule literal operator args type)
    (sureRule : sure → Rule literal operator args type)
    (free : ∀ arg ∈ args, arg.storage.isAssigned = false)
    (planned : Yields ((apply operator args info).planApplication request) ⟨stream, {}⟩ plan site)
    (inner : site.stream.Extends middle added)
    (supplied : Supplied plan args trees)
    (found : Yields ((apply operator trees { info with storage := site.own }).finishApplication
      symbols plan.own) ⟨middle, site.own⟩ () ⟨finish, own⟩) :
    ∃ planned finished, (apply operator trees { info with storage := own }).Placed request ∧
      Around sure literal operator request plan stream site.stream trees middle finish own planned
        finished := by
  have shape' := shape.of_bares supplied.bares
  have follows := supplied.follows
  by_cases reserving : reserves operator = true
  · cases shape with
    | structLiteral _ =>
        obtain ⟨moves, owns, around⟩ :=
          around_structLiteral typed ((rule (by decide)).follows follows)
          free planned inner supplied found
        exact ⟨moves, [],
          placed_apply (fun _ => owns.sized) typed owns.positive owns.obeyed, around⟩
    | assign value targets =>
        obtain ⟨target', value', rfl, -, -⟩ := two_of_bares supplied.bares
        have rule := rule (by decide)
        obtain ⟨_, _, -, -, -, -, rfl⟩ := rule.assigned rfl rfl
        obtain ⟨moves, targetType, owns, around⟩ :=
          around_assign shape' (rule.follows follows) planned
          inner supplied found
        exact ⟨[], moves,
          placed_apply (fun real => absurd rfl real) typed owns.positive owns.obeyed, around⟩
    | _ => cases reserving
  · have other : reserves operator = false := Bool.not_eq_true _ ▸ reserving
    obtain ⟨passive, rfl⟩ := passive_of_plan shape other planned
    obtain ⟨moves, finishes, element⟩ := finishes_passive shape' other typed
      (fun different => (rule different).follows follows)
      (fun sure => (sureRule sure).follows follows)
      passive planned supplied found
    have owns := passive.slot ▸ finishes.owns
    refine ⟨[], moves, placed_apply (fun _ => owns.sized) typed owns.positive owns.obeyed,
      around_passive passive ?_ inner finishes element⟩
    rintro rfl
    cases other

end Node

end TraceProbe
