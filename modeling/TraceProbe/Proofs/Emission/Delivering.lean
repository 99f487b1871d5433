import TraceProbe.Proofs.Emission.Deliveries
import TraceProbe.Proofs.Ty.Members

/-!
# Operators that deliver

Each operator plans for the values that its code reads, and its code leaves the
value of the operator where it was asked.  By induction on the tree, emission
delivers whatever is typed, marked and workable.
-/

namespace TraceProbe.Node

open AtSite

variable {symbols typing : Symbols} {node : Node} {request asked : Request} {stream : Stream}
  {site : Site} {operator : String} {args trees : List Node} {info : Info} {type : Ty}
  {role : Role} {requests : List Request} {target : Bool}

/-- The value of an argument that is read is where it was asked. -/
theorem Furnished.carried {index : Nat} {tree : Node}
    (furnished : Furnished symbols operator args trees type requests target)
    (here : trees[index]? = some tree) (there : requests[index]? = some asked)
    (whole : asked.memberOnly = false) (read : ¬ Unread operator trees index)
    (solid : ¬ Folded operator (firstType? trees) tree index) :
    ∃ type, tree.type? = some type ∧ 0 < type.size ∧ tree.storage.Carries type asked.inFrame := by
  have lodged := furnished.lodged index tree asked here there
  exact furnished.provided.carried lodged here whole read solid

theorem strcmp_of_folded {collection : Option Ty} {arg : Node}
    (folded : Folded operator collection arg 0) :
    operator = "strcmp" := by
  cases folded
  assumption

theorem operator_of_folded {collection : Option Ty} {arg : Node} {index : Nat}
    (folded : Folded operator collection arg index) :
    operator ∈ [".", "mem", "str", "[]", "strcmp"] := by
  cases folded with
  | member same | index same _ _ _ | literal same _ => simp [same]
  | length either _ => rcases either with same | same <;> simp [same]

theorem index_of_folded {collection : Option Ty} {arg : Node} {index : Nat}
    (folded : Folded operator collection arg index) (subscript : operator = "[]") :
    arg.num?.isSome = true ∧ ∃ type, collection = some type ∧ type.isMap = false := by
  subst subscript
  rcases folded with _ | ⟨either, _⟩ | ⟨_, number, known, noMap⟩ | _
  · contradiction
  · exact absurd either (by decide)
  · exact ⟨number, _, known, noMap⟩
  · contradiction

theorem text_of_folded {collection : Option Ty} {arg : Node} {index : Nat}
    (folded : Folded operator collection arg index) (strcmp : operator = "strcmp") :
    arg.str?.isSome = true := by
  subst strcmp
  rcases folded with _ | ⟨either, _⟩ | _ | ⟨_, text⟩
  · contradiction
  · exact absurd either (by decide)
  · contradiction
  · exact text

theorem lodged_of_carries {own : Storage} (deref : operator ≠ "u*") (subscript : operator ≠ "[]")
    (typed : info.type = some type) (carries : 0 < type.size → own.Carries type request.inFrame) :
    (apply operator trees { info with storage := own }).Lodged symbols request := by
  have other {name : String} (different : operator ≠ name) :
      (apply operator trees { info with storage := own }).applies name = false := by
    simpa [applies, operator?] using different
  refine lodged_of_own (other deref) (other subscript) ?_
  intro type' same room _
  cases typed.symm.trans same
  exact carries room

section Dots

variable {base member : Node}

theorem leads_planDot :
    Leads (fun plan finish => finish = site ∧
      plan = if base.applies "u*" then ⟨request.onFrame, [Request.forMember {}, {}]⟩
        else ⟨request, [.frame, {}]⟩)
      (planDot (apply "." [base, member] info) request) site := by
  unfold planDot
  refine .bind_known (rfl : Node.argument _ 0 = .ok base) ?_
  split <;> exact leads_pure ⟨rfl, rfl⟩

theorem leads_emitDot {literal : List Ty → Ty → Prop} (typed : info.type = some type)
    (rule : Rule literal "." [base, member] type) (room : 0 < type.size) (free : site.own = {})
    (through : base.applies "u*" = true → base.storage.isAssigned = false ∧ request.inFrame = true ∧
      ∃ pointer pointed, base.args = [pointer] ∧ pointer.storage.Carries (.pointer pointed) false)
    (within : base.applies "u*" = false → ∃ record, base.storage.Carries record true) :
    Leads (fun _ finish => finish.own.Carries type request.inFrame)
      (emitDot (apply "." [base, member] info) request) site := by
  obtain ⟨shape, name, field, known, named, found, rfl⟩ := rule.member rfl rfl
  obtain ⟨offset, placed⟩ := Record.exists_offsetOf? found
  unfold emitDot
  refine (leads_allocateFor request
    (show (apply "." [base, member] info).type? = _ from typed) free).bind ?_
  intro own _ allocated
  obtain ⟨owned, -, carries⟩ := allocated
  have carries := carries room
  refine .bind_known (rfl : Node.argument _ 0 = .ok base)
    (.bind_known (knownType_eq_ok_iff.mpr known) ?_)
  refine .bind_known
    (show Node.memberName _ = .ok name by rw [memberName]; simp [Node.args, named]) ?_
  rw [show (Ty.record shape).offsetOf? name = some offset from placed]
  dsimp only
  cases deref : base.applies "u*" with
  | true =>
      obtain ⟨unassigned, framed, pointer, pointed, dereferences, points⟩ := through deref
      rw [if_pos (by simp [unassigned])]
      exact (steady_readMember dereferences points (framed ▸ carries) _).last ⟨owned, rfl⟩ carries
  | false =>
      obtain ⟨record, held⟩ := within deref
      rw [if_neg (by simp)]
      exact (steady_takeMember held carries _).last ⟨owned, rfl⟩ carries

theorem delivers_dot (ih : ∀ arg ∈ [base, member], Deliverable symbols typing arg)
    (fitted : Fitted symbols typing role (apply "." [base, member] info))
    (typed : info.type = some type)
    (target : role = .target → request.target = true) (room : 0 < type.size) :
    Delivers symbols (apply "." [base, member] info) request stream := by
  refine delivers_apply ih fitted typed target (leads_planned rfl leads_planDot ?_) ?_
  · rintro plan finish ⟨-, rfl⟩
    split <;> rfl
  · rintro plan site trees middle ⟨rfl, rfl⟩ furnished
    obtain ⟨base', member', rfl, same, -⟩ := furnished.alike.pair
    have rule := furnished.rule (.inl (by decide))
    rw [applies_of_bare same.bare "u*"] at furnished ⊢
    refine (leads_finished rfl (leads_emitDot typed rule room rfl ?_ ?_)).mono
      fun _ finish carries => lodged_of_carries (by decide) (by decide) typed ?_
    · intro deref
      rw [if_pos deref] at furnished ⊢
      have lodged := furnished.lodged 0 base' _ rfl rfl
      exact ⟨lodged.skipped deref rfl, rfl, lodged.pointer deref⟩
    · intro other
      rw [if_neg (by simp [other])] at furnished
      obtain ⟨record, -, -, carries⟩ := furnished.carried rfl rfl rfl (by simp [Unread, other])
        fun folded => absurd (strcmp_of_folded folded) (by decide)
      exact ⟨record, carries⟩
    · intro _
      split at carries
      · exact carries.relax
      · exact carries

end Dots

section Dereferences

variable {pointer : Node}

/-- Nothing is read where one member is read through the node. -/
theorem leads_emitDeref {pointed : Ty} (typed : info.type = some type)
    (points : pointer.storage.Carries (.pointer pointed) false) (framed : request.inFrame = true)
    (room : request.memberOnly = false → 0 < type.size) (free : site.own = {}) :
    Leads (fun _ finish => (request.memberOnly = true → finish.own = {}) ∧
      (request.memberOnly = false → finish.own.Carries type true))
      (emitDeref (apply "u*" [pointer] info) request) site := by
  unfold emitDeref
  split
  · rename_i only
    exact leads_pure ⟨fun _ => free, fun whole => by rw [only] at whole; cases whole⟩
  · rename_i whole
    refine (leads_allocateFor request
      (show (apply "u*" [pointer] info).type? = _ from typed) free).bind ?_
    intro own _ allocated
    obtain ⟨owned, -, carries⟩ := allocated
    have carries : own.Carries type true := framed ▸ carries (room (by simpa using whole))
    have left (finish : Site) (there : finish.own.Carries type true) :
        (request.memberOnly = true → finish.own = {}) ∧
          (request.memberOnly = false → finish.own.Carries type true) :=
      ⟨fun only => absurd only whole, fun _ => there⟩
    split
    · exact leads_pure (left _ (owned ▸ carries))
    · refine .bind_known (rfl : Node.argument _ 0 = .ok pointer) ?_
      have wide : (Width.ofBytes? pointer.storage.size).isSome = true :=
        points.sized ▸ isSome_ofBytes?_of_isWord rfl
      have read := (steady_lift (Emit.tame_loadReg points.isAssigned wide .r0)).then ⟨owned, rfl⟩
        fun _ _ here => (steady_lift (Emit.tame_readFrom carries .r0)).last here carries
      exact read.mono fun _ finish there => left finish there

theorem delivers_deref (ih : ∀ arg ∈ [pointer], Deliverable symbols typing arg)
    (fitted : Fitted symbols typing role (apply "u*" [pointer] info))
    (typed : info.type = some type)
    (target : role = .target → request.target = true)
    (room : request.memberOnly = false → 0 < type.size) :
    Delivers symbols (apply "u*" [pointer] info) request stream := by
  refine delivers_apply ih fitted typed target (leads_plannedAs rfl rfl rfl) ?_
  rintro plan site trees middle ⟨rfl, rfl⟩ furnished
  obtain ⟨pointer', rfl, -⟩ := furnished.alike.single
  have known := (furnished.rule (.inl (by decide))).dereferenced rfl rfl
  obtain ⟨_, known', -, carries⟩ := furnished.carried rfl rfl rfl (by simp [Unread])
    fun folded => absurd (strcmp_of_folded folded) (by decide)
  cases known.symm.trans known'
  have typed' : ({ info with storage := {} } : Info).type = some type := typed
  have room' : request.onFrame.memberOnly = false → 0 < type.size := room
  refine (leads_finished rfl (leads_emitDeref typed' carries rfl room' rfl)).mono ?_
  intro _ finish left
  refine ⟨?_, ?_, fun _ => ⟨pointer', _, rfl, carries⟩, fun element => (by cases element)⟩
  · intro other same _ _ read
    cases typed.symm.trans same
    exact (left.2 (Bool.eq_false_iff.mpr fun only => read ⟨rfl, only⟩)).relax
  · intro _ only
    show finish.own.isAssigned = false
    rw [left.1 only]
    rfl

end Dereferences

section StructLiterals

variable {members : List Ty}

theorem leads_literalShape {shape : Record} {own : Storage} {offset : Int16}
    (typed : node.type? = some (.record shape)) (placed : own.place = .slot offset) :
    Leads (fun found finish => found = (.record shape, shape, offset) ∧ finish = site)
      (literalShape node own) site := by
  unfold literalShape
  refine .bind_known (knownType_eq_ok_iff.mpr typed) ?_
  have there : Yields (slotOf own "struct literal not on the stack") site offset site :=
    yields_slotOf_iff.mpr ⟨placed, rfl⟩
  have found : Leads (fun base finish => base = offset ∧ finish = site) _ site :=
    leads_of_yields there ⟨rfl, rfl⟩
  refine found.bind ?_
  rintro _ _ ⟨rfl, rfl⟩
  exact leads_pure ⟨rfl, rfl⟩

theorem leads_planStructLiteral (typed : info.type = some type)
    (known : valueTypes? args = some members)
    (literal : Registry.Literal members type) (room : 0 < type.size) (free : site.own = {}) :
    Leads (fun plan finish => finish.own.Carries type true ∧ plan.own = request.onFrame ∧
      plan.args.length = args.length ∧ ∀ asked ∈ plan.args, asked.memberOnly = false)
      (planStructLiteral (apply ":struct" args info) request) site := by
  obtain ⟨name, rfl⟩ := literal
  have typed' : (apply ":struct" args info).type? = some _ := typed
  unfold planStructLiteral
  refine (leads_allocateFor request.onFrame typed' free).bind ?_
  intro own _ allocated
  obtain ⟨owned, -, carries⟩ := allocated
  have carries : own.Carries _ true := carries room
  obtain ⟨offset, placed⟩ := carries.slot
  refine (leads_literalShape typed' placed).bind ?_
  rintro _ middle ⟨rfl, rfl⟩
  have enough : args.length ≤ ((Registry.positionalFields members).zip
      (Record.offsets ⟨name, Registry.positionalFields members, false, false⟩)).length := by
    rw [List.length_zip, Record.length_offsets, Nat.min_self]
    simp [Registry.positionalFields, length_of_valueTypes? known]
  refine (leads_planMembers offset 0 enough middle).bind ?_
  intro planned last asks
  obtain ⟨same, lengths, plain⟩ := asks
  refine (steady_clearGap _ _ _ last).bind fun _ finish kept => leads_pure ⟨?_, rfl, lengths, plain⟩
  rw [kept.1, same, owned]
  exact carries

theorem steady_emitStructLiteral (typed : info.type = some type)
    (literal : Registry.Literal members type) (own : info.storage.Carries type true)
    (held : ∀ tree ∈ trees, ∃ type inFrame, tree.storage.Carries type inFrame) :
    Steady (emitStructLiteral (apply ":struct" trees info)) := by
  obtain ⟨name, rfl⟩ := literal
  have typed' : (apply ":struct" trees info).type? = some _ := typed
  obtain ⟨offset, placed⟩ := own.slot
  unfold emitStructLiteral
  exact .bind_known (knownType_eq_ok_iff.mpr typed')
    ((steady_slotOf placed _).bind fun _ => steady_copyMembers _ held)

theorem delivers_structLiteral (ih : ∀ arg ∈ args, Deliverable symbols typing arg)
    (fitted : Fitted symbols typing role (apply ":struct" args info))
    (typed : info.type = some type)
    (target : role = .target → request.target = true) (room : 0 < type.size) :
    Delivers symbols (apply ":struct" args info) request stream := by
  obtain ⟨members, result, known, same, literal⟩ := fitted.provided.workable.literal rfl
  cases typed.symm.trans same
  refine delivers_apply ih fitted typed target
    (leads_planned rfl (leads_planStructLiteral typed known literal room rfl)
      fun _ _ ⟨_, _, lengths, _⟩ => lengths) ?_
  rintro plan site trees middle ⟨carries, own, lengths, plain⟩ furnished
  have held : ∀ tree ∈ trees, ∃ type inFrame, tree.storage.Carries type inFrame := by
    intro tree member
    obtain ⟨index, here⟩ := List.mem_iff_getElem?.mp member
    have inside : index < plan.args.length := by
      rw [lengths, ← furnished.alike.length]
      exact (List.getElem?_eq_some_iff.mp here).1
    obtain ⟨type, -, -, carries⟩ := furnished.carried here (List.getElem?_eq_getElem inside)
      (plain _ (List.getElem_mem inside)) (by simp [Unread])
      fun folded => absurd (operator_of_folded folded) (by decide)
    exact ⟨type, _, carries⟩
  have typed' : ({ info with storage := site.own } : Info).type = some type := typed
  have code : Steady _ := steady_emitStructLiteral typed' literal carries held
  refine (leads_finished rfl (code ⟨middle, site.own⟩)).mono ?_
  intro _ finish same
  exact lodged_of_carries (by decide) (by decide) typed fun _ => same.1 ▸ carries.relax

end StructLiterals

section Subscripts

variable {collection key : Node} {other : Ty}

/-- How the collection and the key of a subscript are asked, by the type of the
collection. -/
inductive PlansElement (request : Request) (key : Node) : Ty → Plan → Prop
  | map {wanted value : Ty} {kind : MapKind} :
      PlansElement request key (.map wanted value kind) ⟨request.onFrame, [{}, .frame]⟩
  | array {element : Ty} {length : Nat} :
      key.num?.isSome = true →
      PlansElement request key (.array element length) ⟨request, [.frame, {}]⟩
  | pointer {pointed : Ty} : PlansElement request key (.pointer pointed) ⟨request.onFrame, [{}, {}]⟩

/-- What a subscript can take an element of. -/
theorem Subscriptable.cases (subscriptable : Subscriptable symbols collection key)
    (known : collection.type? = some other) :
    (∃ wanted value kind, other = .map wanted value kind ∧ collection.NamesMap symbols ∧
      Movable key.valueSize wanted.size) ∨ (∃ element length, other = .array element length) ∨
        ∃ pointed, other = .pointer pointed := by
  unfold Subscriptable at subscriptable
  rw [known] at subscriptable
  cases other with
  | map wanted value kind => exact .inl ⟨wanted, value, kind, rfl, subscriptable⟩
  | array element length => exact .inr (.inl ⟨element, length, rfl⟩)
  | pointer pointed => exact .inr (.inr ⟨pointed, rfl⟩)
  | _ => exact subscriptable.elim

theorem leads_planSubscript (known : collection.type? = some other)
    (subscriptable : Subscriptable symbols collection key) :
    Leads (fun plan finish => PlansElement request key other plan ∧ finish = site)
      (planSubscript (apply "[]" [collection, key] info) request) site := by
  unfold planSubscript
  refine .bind_known (rfl : Node.argument _ 0 = .ok collection) ?_
  refine .bind_known (knownType_eq_ok_iff.mpr known) ?_
  rcases subscriptable.cases known with
    ⟨wanted, value, kind, rfl, -⟩ | ⟨element, length, rfl⟩ | ⟨pointed, rfl⟩
  · exact leads_pure ⟨.map, rfl⟩
  · refine .bind_known (rfl : Node.argument _ 1 = .ok key) ?_
    split
    · rename_i position number
      exact leads_pure ⟨.array (by rw [number]; rfl), rfl⟩
    · exact leads_throw (actionable_unsupported _ _).tolerable
  · exact leads_pure ⟨.pointer, rfl⟩

theorem leads_emitSubscript_of_target {post : Unit → Site → Prop}
    (known : collection.type? = some other)
    (noMap : other.isMap = false) (target : request.target = true) :
    Leads post (emitSubscript symbols (apply "[]" [collection, key] info) request) site := by
  unfold emitSubscript
  refine .bind_known (rfl : Node.argument _ 0 = .ok collection) ?_
  refine .bind_known (knownType_eq_ok_iff.mpr known) ?_
  dsimp only
  rw [if_pos (by simp [target, noMap])]
  exact leads_throw_bind (actionable_unsupported _ _).tolerable

/-- An element of a map that is written to is not read. -/
theorem leads_emitSubscript_of_map (typed : info.type = some type)
    (addressed : Addressed symbols collection key) (framed : request.inFrame = true)
    (room : request.target = false → 0 < type.size) (free : site.own = {}) :
    Leads (fun _ finish => 0 < type.size → finish.own.Carries type true)
      (emitSubscript symbols (apply "[]" [collection, key] info) request) site := by
  obtain ⟨wanted, value, kind, -, known, -⟩ := addressed.fits
  have typed' : (apply "[]" [collection, key] info).type? = some type := typed
  unfold emitSubscript
  refine .bind_known (rfl : Node.argument _ 0 = .ok collection) ?_
  refine .bind_known (knownType_eq_ok_iff.mpr known) ?_
  dsimp only
  rw [if_neg (by simp [Ty.isMap])]
  refine (leads_allocateFor request typed' free).bind ?_
  intro own _ allocated
  obtain ⟨owned, -, carries⟩ := allocated
  rw [framed] at carries
  split
  · rename_i read
    have carries := carries (room (by simpa using read))
    exact (leads_emitLookup addressed carries).mono
      fun _ finish same _ => by rw [same, owned]; exact carries
  · exact leads_pure fun some => owned ▸ carries some

theorem leads_emitSubscript_of_array {element record : Ty} {length : Nat}
    (typed : info.type = some type)
    (known : collection.type? = some (.array element length)) (number : key.num?.isSome = true)
    (base : collection.storage.Carries record true) (read : request.target = false)
    (room : 0 < type.size) (free : site.own = {}) :
    Leads (fun _ finish => finish.own.Carries type request.inFrame)
      (emitSubscript symbols (apply "[]" [collection, key] info) request) site := by
  obtain ⟨position, number⟩ := Option.isSome_iff_exists.mp number
  have typed' : (apply "[]" [collection, key] info).type? = some type := typed
  unfold emitSubscript
  refine .bind_known (rfl : Node.argument _ 0 = .ok collection) ?_
  refine .bind_known (knownType_eq_ok_iff.mpr known) ?_
  dsimp only
  rw [if_neg (by simp [read])]
  refine (leads_allocateFor request typed' free).bind ?_
  intro own _ allocated
  obtain ⟨owned, -, carries⟩ := allocated
  exact (steady_emitArrayElement number base (carries room)).last ⟨owned, rfl⟩ (carries room)

theorem leads_emitSubscript_of_pointer {pointed : Ty} {inFrame : Bool}
    (typed : info.type = some type) (known : collection.type? = some (.pointer pointed))
    (points : collection.storage.Carries (.pointer pointed) inFrame)
    (indexed : key.num? = none → ∃ kind, key.storage.Carries (.scalar kind) inFrame)
    (framed : request.inFrame = true) (read : request.target = false) (room : 0 < type.size)
    (free : site.own = {}) :
    Leads (fun _ finish => finish.own.Carries type true)
      (emitSubscript symbols (apply "[]" [collection, key] info) request) site := by
  have typed' : (apply "[]" [collection, key] info).type? = some type := typed
  unfold emitSubscript
  refine .bind_known (rfl : Node.argument _ 0 = .ok collection) ?_
  refine .bind_known (knownType_eq_ok_iff.mpr known) ?_
  dsimp only
  rw [if_neg (by simp [read])]
  refine (leads_allocateFor request typed' free).bind ?_
  intro own _ allocated
  obtain ⟨owned, -, carries⟩ := allocated
  have carries : own.Carries type true := framed ▸ carries room
  exact (steady_emitPointerElement points indexed carries).last ⟨owned, rfl⟩ carries

theorem lodged_element {own : Storage} (typed : info.type = some type)
    (carries : 0 < type.size → own.Carries type request.inFrame)
    (element : request.target = true → Addressed symbols collection key) :
    (apply "[]" [collection, key] { info with storage := own }).Lodged symbols request := by
  refine ⟨?_, fun deref => (by cases deref), fun deref => (by cases deref),
    fun _ target => ⟨collection, key, rfl, element target⟩⟩
  intro other same room _ _
  cases typed.symm.trans same
  exact carries room

theorem addressed_of_furnished {wanted value : Ty} {kind : MapKind} {arguments : List Node}
    (furnished : Furnished symbols "[]" arguments [collection, key] type [{}, .frame] target)
    (known : collection.type? = some (.map wanted value kind)) :
    Addressed symbols collection key := by
  have subscriptable := furnished.provided.workable.subscripted rfl collection key rfl
  have solid : ¬ Folded "[]" (firstType? [collection, key]) key 1 := by
    intro folded
    obtain ⟨-, _, same, noMap⟩ := index_of_folded folded rfl
    rw [show firstType? [collection, key] = _ from known] at same
    cases same
    cases noMap
  obtain ⟨keyType, typed, room, carries⟩ := furnished.carried rfl rfl rfl (by simp [Unread]) solid
  rcases subscriptable.cases known with ⟨_, _, _, same, names, movable⟩ | ⟨_, _, same⟩ | ⟨_, same⟩
  all_goals cases same
  rw [valueSize_of_type? typed] at movable
  exact ⟨names, wanted, value, kind, keyType, known, typed, room, carries, movable⟩

/-- A collection is read unless it is a map. -/
theorem collection_of_furnished {arguments : List Node}
    (furnished : Furnished symbols "[]" arguments [collection, key] type requests target)
    (known : collection.type? = some other) (noMap : other.isMap = false)
    (there : requests[0]? = some asked) (whole : asked.memberOnly = false) :
    collection.storage.Carries other asked.inFrame := by
  have read : ¬ Unread "[]" [collection, key] 0 := by
    rintro ⟨-, assign | delete | ⟨dot, -⟩ | ⟨-, type, same, map⟩⟩
    · exact absurd assign (by decide)
    · exact absurd delete (by decide)
    · exact absurd dot (by decide)
    · rw [show firstType? [collection, key] = _ from known] at same
      cases same
      cases noMap.symm.trans map
  obtain ⟨type, same, -, carries⟩ := furnished.carried rfl there whole read
    fun folded => absurd (strcmp_of_folded folded) (by decide)
  cases known.symm.trans same
  exact carries

/-- An index behind a pointer is a scalar, and it is read unless it is folded. -/
theorem index_of_furnished {pointed : Ty} {arguments : List Node}
    (furnished : Furnished symbols "[]" arguments [collection, key] type [{}, {}] false)
    (known : collection.type? = some (.pointer pointed)) (free : key.num? = none) :
    ∃ kind, key.storage.Carries (.scalar kind) false := by
  obtain ⟨_, keyType, same, scalar, elements⟩ := (furnished.rule (.inr rfl)).subscript rfl rfl
  cases known.symm.trans same
  obtain ⟨-, kind, rfl⟩ := elements
  have solid : ¬ Folded "[]" (firstType? [collection, key]) key 1 := fun folded => by
    simpa [free] using (index_of_folded folded rfl).1
  obtain ⟨type, same, -, carries⟩ := furnished.carried rfl rfl rfl (by simp [Unread]) solid
  cases scalar.symm.trans same
  exact ⟨kind, carries⟩

theorem delivers_subscript (ih : ∀ arg ∈ [collection, key], Deliverable symbols typing arg)
    (fitted : Fitted symbols typing role (apply "[]" [collection, key] info))
    (typed : info.type = some type)
    (target : role = .target → request.target = true)
    (room : request.target = false → 0 < type.size) :
    Delivers symbols (apply "[]" [collection, key] info) request stream := by
  have first : [collection, key][0]? = some collection := rfl
  obtain ⟨other, known⟩ := typed_of_sound (fitted.emittable.arg first).sound.here
  have subscriptable := fitted.provided.workable.subscripted rfl collection key rfl
  refine delivers_apply ih fitted typed target
    (leads_planned rfl (leads_planSubscript known subscriptable) ?_) ?_
  · rintro plan finish ⟨planned, -⟩
    cases planned <;> rfl
  rintro plan site trees middle ⟨planned, rfl⟩ furnished
  obtain ⟨collection', key', rfl, alike, alike'⟩ := furnished.alike.pair
  have known : collection'.type? = some other := alike.type.trans known
  have typed' : ({ info with storage := {} } : Info).type = some type := typed
  have unmapped (noMap : other.isMap = false) (wanted : request.target = true) (asked : Request)
      (same : asked.target = request.target) :
      Leads (fun _ finish =>
        (apply "[]" [collection', key'] { info with storage := finish.own }).Lodged symbols request)
          ((apply "[]" [collection', key'] { info with storage := {} }).finishApplication
            symbols asked)
            ⟨middle, {}⟩ :=
    leads_finished rfl (leads_emitSubscript_of_target known noMap (same.trans wanted))
  cases planned with
  | map =>
      have addressed := addressed_of_furnished furnished known
      have room' : request.onFrame.target = false → 0 < type.size := room
      refine (leads_finished rfl
        (leads_emitSubscript_of_map typed' addressed rfl room' rfl)).mono ?_
      intro _ finish carries
      exact lodged_element typed (fun some => (carries some).relax) fun _ => addressed
  | array number =>
      cases wanted : request.target with
      | true => exact unmapped rfl wanted request rfl
      | false =>
          have base := collection_of_furnished furnished known rfl rfl rfl
          have number : key'.num?.isSome = true := num?_of_bare alike'.bare ▸ number
          refine (leads_finished rfl (leads_emitSubscript_of_array typed' known number base wanted
            (room wanted) rfl)).mono ?_
          intro _ finish carries
          exact lodged_element typed (fun _ => carries)
            fun target => by cases wanted.symm.trans target
  | pointer =>
      cases wanted : request.target with
      | true => exact unmapped rfl wanted request.onFrame rfl
      | false =>
          have base := collection_of_furnished furnished known rfl rfl rfl
          have indexed := index_of_furnished (wanted ▸ furnished) known
          have wanted' : request.onFrame.target = false := wanted
          refine (leads_finished rfl (leads_emitSubscript_of_pointer typed' known base indexed rfl
            wanted' (room wanted) rfl)).mono ?_
          intro _ finish carries
          exact lodged_element typed (fun _ => carries.relax)
            fun target => by cases wanted.symm.trans target

end Subscripts

section Changes

variable {target value : Node}

theorem leads_planAssign {targetType valueType : Ty} (known : target.type? = some targetType)
    (known' : value.type? = some valueType) (room : 0 < targetType.size) (free : site.own = {}) :
    Leads (fun plan _ => ∃ slot, plan = ⟨request.onFrame, [(Request.inSlot slot).asTarget,
      if valueType.size = targetType.size then Request.inSlot slot else .frame]⟩)
      (planAssign (apply "=" [target, value] info) request) site := by
  unfold planAssign
  refine .bind_known (rfl : Node.argument _ 0 = .ok target)
    (.bind_known (knownType_eq_ok_iff.mpr known) ?_)
  refine .bind_known (rfl : Node.argument _ 1 = .ok value)
    (.bind_known (knownType_eq_ok_iff.mpr known') ?_)
  refine (leads_allocate targetType request.onFrame free).bind ?_
  intro own _ allocated
  have carries : own.Carries targetType true := allocated.2.2 room
  obtain ⟨slot, placed⟩ := carries.slot
  refine (steady_slotOf placed _ _).bind ?_
  intro offset finish _
  exact leads_pure ⟨offset, rfl⟩

/-- The element that is written to has the value in its slot. -/
theorem steady_emitAssign {targetType valueType : Ty} {map key : Node} {inFrame : Bool}
    (into : target.storage.Carries targetType true)
    (carries : value.storage.Carries valueType inFrame)
    (typed : value.type? = some valueType) (movable : Movable valueType.size targetType.size)
    (element : target.applies "[]" = true) (parts : target.args = [map, key])
    (addressed : Addressed symbols map key) :
    Steady (emitAssign symbols (apply "=" [target, value] info)) := by
  have update : Steady (emitUpdate symbols target) := by
    cases target with
    | apply operator args info =>
        cases parts
        exact steady_emitUpdate addressed into
    | ident _ _ | str _ _ | num _ _ _ => cases parts
  unfold emitAssign
  dsimp only [Node.args]
  rw [if_pos element]
  exact (steady_move into carries typed movable).bind fun _ => update

theorem delivers_assign (ih : ∀ arg ∈ [target, value], Deliverable symbols typing arg)
    (fitted : Fitted symbols typing role (apply "=" [target, value] info))
    (typed : info.type = some type)
    (wanted : role = .target → request.target = true) (element : target.applies "[]" = true) :
    Delivers symbols (apply "=" [target, value] info) request stream := by
  have solid {collection : Option Ty} {arg : Node} {index : Nat} :
      ¬ Folded "=" collection arg index :=
    fun folded => absurd (operator_of_folded folded) (by decide)
  have first : [target, value][0]? = some target := rfl
  have second : [target, value][1]? = some value := rfl
  obtain ⟨targetType, known⟩ := typed_of_sound (fitted.emittable.arg first).sound.here
  obtain ⟨-, valueType, known', room⟩ := fitted.provided.value second (by simp [Unread]) solid
  have movable := fitted.provided.workable.assigned rfl target value rfl
  rw [valueSize_of_type? known, valueSize_of_type? known'] at movable
  refine delivers_apply ih fitted typed wanted
    (leads_planned rfl (leads_planAssign known known' (movable.positive room) rfl) ?_) ?_
  · rintro _ _ ⟨_, rfl⟩
    rfl
  rintro plan site trees middle ⟨slot, rfl⟩ furnished
  obtain ⟨target', value', rfl, alike, alike'⟩ := furnished.alike.pair
  have element : target'.applies "[]" = true := applies_of_bare alike.bare "[]" ▸ element
  have here : [target', value'][0]? = some target' := rfl
  have lodged := furnished.lodged 0 target' _ here rfl
  have into : target'.storage.Carries targetType true :=
    lodged.own targetType (alike.type.trans known) (movable.positive room)
      (furnished.provided.real here solid) fun member => by cases member.2
  obtain ⟨map, key, parts, addressed⟩ := lodged.element element rfl
  have there : [target', value'][1]? = some value' := rfl
  obtain ⟨_, same, -, carries⟩ :=
    furnished.carried there rfl (by split <;> rfl) (by simp [Unread]) solid
  cases (alike'.type.trans known').symm.trans same
  have code :
      Steady (emitAssign symbols (apply "=" [target', value'] { info with storage := site.own })) :=
    steady_emitAssign into carries same movable element parts addressed
  obtain ⟨-, -, -, -, -, -, rfl⟩ := (furnished.rule (.inl (by decide))).assigned rfl rfl
  refine (leads_finished rfl (code ⟨middle, site.own⟩)).mono ?_
  intro _ finish _
  exact lodged_of_carries (by decide) (by decide) typed fun some => by cases some

theorem delivers_delete (ih : ∀ arg ∈ [target], Deliverable symbols typing arg)
    (fitted : Fitted symbols typing role (apply "delete" [target] info))
    (typed : info.type = some type)
    (wanted : role = .target → request.target = true) (element : target.applies "[]" = true) :
    Delivers symbols (apply "delete" [target] info) request stream := by
  refine delivers_apply ih fitted typed wanted (leads_plannedAs rfl rfl rfl) ?_
  rintro plan site trees middle ⟨rfl, rfl⟩ furnished
  obtain ⟨target', rfl, alike⟩ := furnished.alike.single
  have element : target'.applies "[]" = true := applies_of_bare alike.bare "[]" ▸ element
  have lodged := furnished.lodged 0 target' _ rfl rfl
  obtain ⟨map, key, parts, addressed⟩ := lodged.element element rfl
  have code :
      Steady (emitDelete symbols (apply "delete" [target'] { info with storage := {} })) := by
    cases target' with
    | apply operator args info =>
        cases parts
        exact steady_emitDelete addressed rfl
    | ident _ _ | str _ _ | num _ _ _ => cases parts
  obtain rfl := (furnished.rule (.inl (by decide))).removed rfl
  refine (leads_finished rfl (code ⟨middle, {}⟩)).mono ?_
  intro _ finish _
  exact lodged_of_carries (by decide) (by decide) typed fun some => by cases some

end Changes

section Texts

variable {left right source : Node} {rest : List Node}

theorem delivers_strcmp (ih : ∀ arg ∈ [left, right], Deliverable symbols typing arg)
    (fitted : Fitted symbols typing role (apply "strcmp" [left, right] info))
    (typed : info.type = some type) (target : role = .target → request.target = true) :
    Delivers symbols (apply "strcmp" [left, right] info) request stream := by
  refine delivers_apply ih fitted typed target (leads_plannedAs rfl rfl rfl) ?_
  rintro plan site trees middle ⟨rfl, rfl⟩ furnished
  obtain ⟨left', right', rfl, -, -⟩ := furnished.alike.pair
  have rule := furnished.rule (.inl (by decide))
  obtain ⟨leftType, rightType, known, -, known', -⟩ := rule.strings rfl rfl
  obtain rfl := rule.compared rfl
  have comparable {index : Nat} {tree : Node} {type : Ty}
      (here : [left', right'][index]? = some tree)
      (there : [Request.frame, Request.frame][index]? = some Request.frame)
          (typed : tree.type? = some type) :
      ComparisonSide tree := by
    refine ⟨⟨type, typed⟩, ?_⟩
    intro plain
    obtain ⟨type, -, -, carries⟩ := furnished.carried here there rfl (by simp [Unread])
      fun folded => by simpa [plain] using text_of_folded folded rfl
    exact ⟨type, carries⟩
  have few := furnished.provided.vetted.compares rfl rfl
  have first : [left', right'][0]? = some left' := rfl
  have second : [left', right'][1]? = some right' := rfl
  have typed' : (apply "strcmp" [left', right'] { info with storage := {} }).type? =
      some .int := typed
  refine (leads_finished rfl (leads_emitStrcmp typed' rfl few (comparable first rfl known)
    (comparable second rfl known') rfl)).mono ?_
  intro _ finish carries
  exact lodged_of_carries (by decide) (by decide) typed fun _ => carries

theorem address_of_furnished {source : Node} {rest arguments : List Node}
    (furnished : Furnished symbols operator arguments (source :: rest) type requests target)
    (reads : operator = "mem" ∨ operator = "str") (there : requests[0]? = some ({} : Request)) :
    ∃ address, source.storage.Carries address false ∧
      (Width.ofBytes? address.size).isSome = true := by
  obtain ⟨address, known, wide⟩ := furnished.provided.vetted.reads reads rfl source rest rfl
  have here : (source :: rest)[0]? = some source := rfl
  have read : ¬ Unread operator (source :: rest) 0 := by
    rcases reads with rfl | rfl <;> simp [Unread]
  have whole : ¬ Folded operator (firstType? (source :: rest)) source 0 := by
    intro folded
    have compared := strcmp_of_folded folded
    rcases reads with rfl | rfl <;> simp at compared
  obtain ⟨_, same, -, carries⟩ := furnished.carried here there rfl read whole
  cases known.symm.trans same
  exact ⟨address, carries, wide⟩

theorem delivers_mem (ih : ∀ arg ∈ source :: rest, Deliverable symbols typing arg)
    (fitted : Fitted symbols typing role (apply "mem" (source :: rest) info))
    (typed : info.type = some type)
    (target : role = .target → request.target = true) (room : 0 < type.size) :
    Delivers symbols (apply "mem" (source :: rest) info) request stream := by
  refine delivers_apply ih fitted typed target (leads_plannedAs rfl rfl List.length_replicate) ?_
  rintro plan site trees middle ⟨rfl, rfl⟩ furnished
  obtain ⟨source', rest', rfl⟩ := furnished.alike.source
  obtain ⟨address, points, wide⟩ := address_of_furnished furnished (.inl rfl) rfl
  have typed' : (apply "mem" (source' :: rest') { info with storage := {} }).type? =
      some type := typed
  refine (leads_finished rfl (leads_emitMem typed' room rfl points wide rfl rfl)).mono ?_
  intro _ finish carries
  exact lodged_of_carries (by decide) (by decide) typed fun _ => carries.relax

theorem delivers_str (ih : ∀ arg ∈ source :: rest, Deliverable symbols typing arg)
    (fitted : Fitted symbols typing role (apply "str" (source :: rest) info))
    (typed : info.type = some type)
    (target : role = .target → request.target = true) (room : 0 < type.size) :
    Delivers symbols (apply "str" (source :: rest) info) request stream := by
  refine delivers_apply ih fitted typed target (leads_plannedAs rfl rfl List.length_replicate) ?_
  rintro plan site trees middle ⟨rfl, rfl⟩ furnished
  obtain ⟨source', rest', rfl⟩ := furnished.alike.source
  obtain ⟨address, points, wide⟩ := address_of_furnished furnished (.inr rfl) rfl
  have typed' : (apply "str" (source' :: rest') { info with storage := {} }).type? =
      some type := typed
  refine (leads_finished rfl (leads_emitStr typed' room rfl points wide rfl rfl)).mono ?_
  intro _ finish carries
  exact lodged_of_carries (by decide) (by decide) typed fun _ => carries.relax

end Texts

section Trees

/-- A value is asked of an application unless it is a change, or it is written to or
one member of it is read. -/
theorem size_of_served (served : (apply operator args info).Served symbols request)
    (typed : info.type = some type) (assign : operator ≠ "=") (delete : operator ≠ "delete")
    (deref : operator = "u*" → request.memberOnly = false)
    (subscript : operator = "[]" → request.target = false) : 0 < type.size := by
  have operator_of {name : String} (applied : (apply operator args info).applies name = true) :
      operator = name := by
    simpa [Node.applies, operator?] using applied
  rcases served with
    ⟨leaf, -⟩ | ⟨name, _, named, -⟩ | applied | applied | ⟨applied, only⟩ | ⟨applied, target⟩ | some
  · cases leaf
  · cases named
  · exact absurd (operator_of applied) assign
  · exact absurd (operator_of applied) delete
  · rw [deref (operator_of applied)] at only
    cases only
  · rw [subscript (operator_of applied)] at target
    cases target
  · rwa [valueSize_of_type? (show (apply operator args info).type? = _ from typed)] at some

theorem delivers_leaf (leaf : node.operator? = none) (fitted : Fitted symbols typing role node)
    (served : node.Served symbols request) : Delivers symbols node request stream := by
  have leads : Leads _ (AtSite.leaf symbols node request) ⟨stream, {}⟩ :=
    leads_leaf leaf (fitted.noted node .root) fitted.emittable.sound.here served
  have fresh : node.storage = {} := fitted.emittable.unstored node .root
  constructor
  · have faults := leads.faults
    rw [← fresh] at faults
    cases node with
    | apply _ _ _ => cases leaf
    | ident _ _ | str _ _ | num _ _ _ => exact faults
  · intro tree finish emits
    obtain ⟨own, found, rfl⟩ := (emits_leaf_iff leaf).mp emits
    rw [fresh] at found
    exact leads.reaches () _ found

theorem deliverable (node : Node) : Deliverable symbols typing node := by
  induction node using induct with
  | leaf node leaf =>
      intro role request stream fitted _ served
      exact delivers_leaf leaf fitted served
  | apply operator args info ih =>
      intro role request stream fitted target served
      obtain ⟨type, typed⟩ := typed_of_sound fitted.emittable.sound.here
      have typed : info.type = some type := typed
      have size := size_of_served served typed
      have shape := fitted.provided.shape
      cases shape with
      | dot _ =>
          exact delivers_dot ih fitted typed target (size (by simp) (by simp) (by simp) (by simp))
      | deref pointer =>
          exact delivers_deref ih fitted typed target fun whole =>
            size (by simp) (by simp) (fun _ => whole) (by simp)
      | structLiteral _ =>
          exact delivers_structLiteral ih fitted typed target
            (size (by simp) (by simp) (by simp) (by simp))
      | subscript collection key =>
          exact delivers_subscript ih fitted typed target fun read =>
            size (by simp) (by simp) (by simp) fun _ => read
      | assign value element => exact delivers_assign ih fitted typed target element
      | delete element => exact delivers_delete ih fitted typed target element
      | strcmp left right => exact delivers_strcmp ih fitted typed target
      | mem source _ =>
          exact delivers_mem ih fitted typed target (size (by simp) (by simp) (by simp) (by simp))
      | str source _ =>
          exact delivers_str ih fitted typed target (size (by simp) (by simp) (by simp) (by simp))

end Trees

end TraceProbe.Node
