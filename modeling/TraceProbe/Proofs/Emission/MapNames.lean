import TraceProbe.Proofs.Emission.Siblings
import TraceProbe.Proofs.MapLanguage.Language
import TraceProbe.Proofs.Typing.Marks

/-!
# Maps and their names

Emission refers to a map by the number of its symbol, and takes the size of its
keys from the type of the collection.  Both belong to the same map: only a
collection whose type the key of its own subscript settles may have another
type than its symbol, and nothing assigns in a key that is emitted.
-/

namespace TraceProbe.Node

open AtSite

/-- Nothing in a tree assigns. -/
def Assignless (node : Node) : Prop :=
  ∀ part, PartOf part node → part.applies "=" = false

variable {symbols typing : Symbols} {literal : List Ty → Ty → Prop} {role : Role}
  {request : Request} {stream middle finish : Stream} {plan : Plan} {site last : Site}
  {operator : String} {node tree : Node} {args trees : List Node} {info : Info} {type : Ty}

theorem Assignless.not_assigns (assignless : node.Assignless) (name : String) :
    ¬ node.Assigns name := by
  rintro ⟨part, among, assigns, -⟩
  rw [assignless part among] at assigns
  cases assigns

theorem assignless_leaf (leaf : node.operator? = none) : node.Assignless := by
  intro part among
  obtain rfl := eq_of_partOf_leaf leaf among
  simp [applies, leaf]

theorem assignless_apply (other : operator ≠ "=") (inner : ∀ arg ∈ args, arg.Assignless) :
    (apply operator args info).Assignless := by
  intro part among
  rcases partOf_apply_iff.mp among with rfl | ⟨arg, member, inside⟩
  · simp [applies, operator?, other]
  · exact inner arg member part inside

/-- Only assignments and removals ask for targets. -/
theorem untargeted_of_plan (shape : Shape operator args) (noAssign : operator ≠ "=")
    (noDelete : operator ≠ "delete") (typed : info.type = some type)
    (free : ∀ arg ∈ args, arg.storage.isAssigned = false)
    (found : Yields ((apply operator args info).planApplication request) ⟨stream, {}⟩ plan last) :
    ∀ asked ∈ plan.args, asked.target = false := by
  have both {description : Description}
      (known : OperatorTable.language.lookup (apply operator args info) = .ok description)
      (planned : Yields (description.operator.plan (apply operator args info) request)
        ⟨stream, {}⟩ plan last → ∀ asked ∈ plan.args, asked.target = false) :
          ∀ asked ∈ plan.args, asked.target = false :=
    planned (planned_by known found)
  have plain {given : Plan} (untargeted : ∀ asked ∈ given.args, asked.target = false)
      (planned : Yields (pure given : AtSite Plan) ⟨stream, {}⟩ plan last) :
      ∀ asked ∈ plan.args, asked.target = false := by
    obtain ⟨rfl, -⟩ := yields_pure_iff.mp planned
    exact untargeted
  have free' {node : Node} {given : Request} :
      ∀ asked ∈ (Plan.free node given).args, asked.target = false :=
    fun asked member => List.eq_of_mem_replicate member ▸ rfl
  cases shape with
  | dot named =>
      refine both rfl ?_
      intro planned
      simp only [Operator.plan, planDot, yields_bind_iff, yields_liftExcept_iff] at planned
      obtain ⟨base, _, ⟨-, rfl⟩, planned⟩ := planned
      split at planned <;> refine plain ?_ planned <;> simp [Request.forMember, Request.frame]
  | deref pointer => exact both rfl (plain free')
  | structLiteral _ =>
      obtain ⟨shape, base, moves, -, -, -, -, asks, -⟩ := reserved_structLiteral typed free found
      intro asked member
      obtain ⟨index, there⟩ := List.mem_iff_getElem?.mp member
      obtain ⟨_, _, place, -, -, rfl⟩ := asks index asked there
      rfl
  | subscript collection key =>
      refine both rfl ?_
      intro planned
      simp only [Operator.plan, planSubscript, yields_bind_iff, yields_liftExcept_iff] at planned
      obtain ⟨base, _, ⟨-, rfl⟩, _, _, ⟨-, rfl⟩, planned⟩ := planned
      split at planned
      · exact plain (by simp [Request.frame]) planned
      · simp only [yields_bind_iff, yields_liftExcept_iff] at planned
        obtain ⟨index, _, ⟨-, rfl⟩, planned⟩ := planned
        split at planned
        · exact plain (by simp [Request.frame]) planned
        · exact absurd planned not_yields_throw
      · exact plain free' planned
      · exact absurd planned not_yields_throw
  | assign _ _ => exact absurd rfl noAssign
  | delete _ => exact absurd rfl noDelete
  | strcmp left right => exact both rfl (plain (by simp [Request.frame]))
  | mem source _ => exact both rfl (plain free')
  | str source _ => exact both rfl (plain free')

/-- Every argument of a value is written down or has a value itself. -/
theorem valued_args (shape : Shape operator args) (rule : Rule literal operator args type)
    (vetted : Vetted operator args (some type)) (real : type ≠ .void)
    (keys : operator = "[]" → ∀ collection key wanted value kind, args = [collection, key] →
      collection.type? = some (.map wanted value kind) → wanted ≠ .void) :
    ∀ arg ∈ args, arg.operator? = none ∨ arg.type? ≠ some .void := by
  have two {left right : Node} (first : left.operator? = none ∨ left.type? ≠ some .void)
      (second : right.operator? = none ∨ right.type? ≠ some .void) :
      ∀ arg ∈ [left, right], arg.operator? = none ∨ arg.type? ≠ some .void := by
    intro arg member
    rcases List.mem_cons.mp member with rfl | later
    · exact first
    · rwa [List.mem_singleton.mp later]
  have typed {arg : Node} {known : Ty} (typed : arg.type? = some known) (other : known ≠ .void) :
      arg.operator? = none ∨ arg.type? ≠ some .void :=
    .inr fun same => other (Option.some.inj (typed.symm.trans same))
  have reads {source : Node} {rest : List Node} (reading : operator = "mem" ∨ operator = "str")
      (same : args = source :: rest) : ∀ arg ∈ args, arg.operator? = none ∨
      arg.type? ≠ some .void := by
    have short : rest.length ≤ 1 := by
      cases shape with
      | mem _ short | str _ short =>
          cases same
          exact short
      | _ => exact absurd reading (by decide)
    intro arg member
    rw [same] at member
    rcases List.mem_cons.mp member with rfl | later
    · obtain ⟨address, known, wide⟩ := vetted.reads reading rfl arg rest same
      refine typed known ?_
      rintro rfl
      cases wide
    · obtain ⟨length, rfl⟩ : ∃ length, rest = [length] := by
        cases rest with
        | nil => cases later
        | cons length others => exact ⟨length, by simpa using short⟩
      obtain rfl := List.mem_singleton.mp later
      have number := vetted.lengths reading rfl arg (by rw [same]; rfl)
      cases arg with
      | num _ _ _ => exact .inl rfl
      | apply _ _ _ | ident _ _ | str _ _ => cases number
  cases rule with
  | @dot base member object shape name field based record named found =>
      refine two (typed based ?_) (.inl ?_)
      · rintro rfl
        cases record
      · cases member with
        | str _ _ => rfl
        | apply _ _ _ | ident _ _ | num _ _ _ => cases named
  | deref pointed =>
      intro arg member
      obtain rfl := List.mem_singleton.mp member
      exact typed pointed fun same => by cases same
  | structLiteral known _ =>
      intro arg member
      obtain ⟨index, here⟩ := List.mem_iff_getElem?.mp member
      obtain ⟨type, known, -, real⟩ := type?_of_valueTypes? known here
      exact typed known real
  | arrayElement known scalar _ =>
      exact two (typed known fun same => by cases same) (typed scalar fun same => by cases same)
  | pointerElement known scalar =>
      exact two (typed known fun same => by cases same) (typed scalar fun same => by cases same)
  | @mapElement map key wanted value keyType _ kind known keyed fits _ =>
      refine two (typed known fun same => by cases same) (typed keyed ?_)
      rintro rfl
      exact keys rfl map key wanted value kind rfl known (Ty.eq_void_of_compatible fits)
  | assign _ _ _ _ | delete => exact absurd rfl real
  | strcmp known string known' string' =>
      exact two (typed known (Ty.ne_void_of_isString string))
        (typed known' (Ty.ne_void_of_isString string'))
  | mem _ => exact reads (.inl rfl) rfl
  | str _ => exact reads (.inr rfl) rfl

/-- Keys that are handed to a helper take room. -/
theorem ne_void_of_keySlot {subscript collection key : Node} {own : Storage} {slot : Int16}
    {wanted value : Ty} {kind : MapKind} (arguments : subscript.args = [collection, key])
    (known : collection.type? = some (.map wanted value kind))
    (positive : key.storage.isAssigned = true → 0 < key.storage.size)
    (found : Yields (keySlot subscript) ⟨stream, own⟩ slot site) : wanted ≠ .void := by
  rintro rfl
  obtain ⟨_, _, _, _, _, same, known', there | ⟨_, some, -, -⟩⟩ := yields_keySlot found
  · cases arguments.symm.trans same
    cases known.symm.trans known'
    have enough := positive (by rw [there.1]; rfl)
    rw [there.1] at enough
    exact absurd enough (Nat.lt_irrefl 0)
  · cases arguments.symm.trans same
    cases known.symm.trans known'
    exact absurd some (Nat.lt_irrefl 0)

/-- Nothing is assigned in a value that is emitted. -/
theorem assignless_of_emits {role : Role} {request : Request} {stream finish : Stream}
    (emittable : Emittable literal typing role node) (noted : node.AllNoted symbols)
    (value : role ≠ .target) (read : request.target = false) (real : node.type? ≠ some .void)
    (emits : Emits symbols node request stream tree finish) : node.Assignless := by
  -- The result of an assignment would be used by its parent, but there is none.
  induction node using induct generalizing role request stream tree finish with
  | leaf node leaf => exact assignless_leaf leaf
  | apply operator args info ih =>
      obtain ⟨plan, site, trees, middle, own, before, inner, behind, planned, found,
        applied, placed, rfl⟩ :=
        applied_of_emits (fun arg _ => composes arg) emittable emits
      obtain ⟨type, typed⟩ := typed_of_sound emittable.sound.here
      have typed : info.type = some type := typed
      have shape := emittable.shaped operator args info .root
      have rule := (emittable.ruled typed).resolve_right fun unmapped => value unmapped.1
      have real : type ≠ .void := fun same => real (typed.trans (congrArg some same))
      have noAssign : operator ≠ "=" := by
        intro assign
        cases rule with
        | assign _ _ _ _ => exact real rfl
        | _ => exact absurd assign (by decide)
      have noDelete : operator ≠ "delete" := fun delete => real (rule.removed delete)
      have free := emittable.unstored.args_free
      have supplied := supplied_of_composed applied.lengths applied.composed
      have vetted : Vetted operator args (some type) := typed ▸ (noted _ .root).2
      have untargeted := untargeted_of_plan shape noAssign noDelete typed free planned
      have valued := valued_args shape rule vetted real ?_
      · refine assignless_apply noAssign ?_
        intro arg member
        obtain ⟨index, here⟩ := List.mem_iff_getElem?.mp member
        obtain ⟨other, there⟩ : ∃ tree, trees[index]? = some tree := by
          have inside := (List.getElem?_eq_some_iff.mp here).1
          rw [length_of_bares supplied.bares] at inside
          exact ⟨_, List.getElem?_eq_getElem inside⟩
        obtain ⟨_, asked, _, _, same, requested, -, emits, -⟩ :=
          applied.emits.at applied.lengths there
        rw [here] at same
        cases same
        rcases valued arg member with leaf | real
        · exact assignless_leaf leaf
        · refine ih arg member (emittable.arg here) (noted.inner member) ?_
            (untargeted asked (List.mem_of_getElem? requested)) real emits
          intro target
          exact noAssign (Role.of_eq_target_iff.mp target).1
      · rintro rfl collection key wanted held kind rfl known rfl
        obtain ⟨collection', key', rfl, -, -⟩ := two_of_bares supplied.bares
        obtain ⟨passive, rfl⟩ := passive_of_plan shape rfl planned
        have known' := (supplied.types 0 collection collection' rfl rfl).trans known
        have typed' : (apply "[]" [collection', key'] { info with storage := {} }).type? =
            some type := typed
        obtain ⟨_, storage, reached, same, -, -, -, found⟩ := yields_subscript typed' found
        rw [known'] at same
        cases same
        dsimp only at found
        rw [passive.target, read] at found
        obtain ⟨_, slot, _, _, _, _, -, keyed, -⟩ := emitLookup_code found
        obtain ⟨asked, among, placed⟩ :=
          supplied.placed_of_mem (List.mem_cons_of_mem _ List.mem_cons_self)
        exact ne_void_of_keySlot rfl known' (placed.positive (passive.free asked among)) keyed rfl

theorem map?_of_mapNumber {map : Node} {number : Nat} {wanted value : Ty} {kind : MapKind}
    (found : mapNumber symbols map = .ok number)
    (known : ∀ name, map.ident? = some name →
      symbols.typeOf? name = some (.map wanted value kind)) :
    ∃ name, map.ident? = some name ∧ symbols.map? name = some ⟨number, wanted, value, kind⟩ := by
  unfold mapNumber at found
  split at found
  · cases found
  · rename_i name named
    split at found
    · rename_i number' numbered
      cases found
      obtain ⟨symbol, stored, isMap⟩ := Option.bind_eq_some_iff.mp numbered
      have typed := known name named
      rw [Symbols.typeOf?, stored, Option.bind_some] at typed
      refine ⟨name, named, ?_⟩
      obtain ⟨_, _, place⟩ := symbol
      obtain rfl : _ = some (Ty.map wanted value kind) := typed
      cases place with
      | map _ =>
          cases isMap
          simp [Symbols.map?, stored]
      | context _ => cases isMap
    · cases found

/-- An element whose key is handed to a helper is one of the map whose number the
helper gets: the collection has the type of that map. -/
theorem named_of_emits {slot : Int16} {own : Storage}
    (emittable : Emittable literal symbols role (apply "[]" args info))
    (noted : (apply "[]" args info).AllNoted symbols)
    (emits : Emits symbols (apply "[]" args info) request stream tree finish)
    (keyed : Yields (keySlot tree) ⟨middle, own⟩ slot site) {number : Nat}
    (refers : Refers symbols tree number) :
    ∃ map key name shape, tree.args = [map, key] ∧ map.type? = some (MapShape.type shape) ∧
      map.ident? = some name ∧ symbols.map? name = some shape ∧ shape.number = number ∧
      ∀ type, tree.type? = some type → shape.value.compatible type = true := by
  obtain ⟨plan, site', trees, reached, stored, before, inner, behind, planned, found,
    applied, placed, rfl⟩ :=
    applied_of_emits (fun arg _ => composes arg) emittable emits
  obtain ⟨type, typed⟩ := typed_of_sound emittable.sound.here
  have shape := emittable.shaped "[]" args info .root
  have supplied := supplied_of_composed applied.lengths applied.composed
  obtain ⟨map, key, wanted, value, kind, arguments, known, -⟩ := yields_keySlot keyed
  obtain rfl : trees = [map, key] := arguments
  obtain ⟨first, same, numbered⟩ := refers
  cases same
  obtain ⟨map', key', rfl, same, same'⟩ := two_of_bares supplied.bares.symm
  have known' := (supplied.types 0 map' map rfl rfl).symm.trans known
  have rule : Rule literal "[]" [map', key'] type := by
    refine (emittable.ruled typed).resolve_right ?_
    rintro ⟨-, -, _, _, other, arguments, elsewhere, noMap⟩
    cases arguments
    rw [known'] at elsewhere
    cases elsewhere
    cases noMap
  obtain ⟨_, keyType, first, second, fits⟩ := rule.subscript rfl rfl
  rw [known'] at first
  cases first
  obtain ⟨fits, valued⟩ := fits
  suffices typed' : ∀ name, map.ident? = some name →
      symbols.typeOf? name = some (.map wanted value kind) by
    obtain ⟨name, named, symbol⟩ := map?_of_mapNumber numbered typed'
    refine ⟨map, key, name, ⟨number, wanted, value, kind⟩, rfl, known, named, symbol, rfl, ?_⟩
    intro other found
    obtain rfl : type = other := Option.some.inj (typed.symm.trans found)
    exact valued
  intro name named
  -- The key has a value, so nothing in it assigns.
  have real : key'.type? ≠ some .void := by
    intro void
    cases void.symm.trans second
    obtain ⟨passive, -⟩ := passive_of_plan shape rfl planned
    obtain ⟨asked, among, placed⟩ :=
      supplied.placed_of_mem (List.mem_cons_of_mem _ List.mem_cons_self)
    exact ne_void_of_keySlot rfl known (placed.positive (passive.free asked among)) keyed
      (Ty.eq_void_of_compatible fits)
  have assignless : key'.Assignless := by
    obtain ⟨_, asked, _, _, there, requested, -, emits, -⟩ :=
      applied.emits.at applied.lengths (show [map, key][1]? = some key from rfl)
    cases there
    have untargeted := untargeted_of_plan shape (by decide) (by decide) typed
      emittable.unstored.args_free planned
    have emittable' := emittable.arg (show [map', key'][1]? = some key' from rfl)
    have noted' := noted.inner (List.mem_cons_of_mem _ List.mem_cons_self)
    exact assignless_of_emits emittable' noted' (fun target => by cases target)
      (untargeted asked (List.mem_of_getElem? requested)) real emits
  have named' : map'.ident? = some name := (ident?_of_bare same).symm.trans named
  rcases (emittable.sound.arg (show [map', key'][0]? = some map' from rfl)).here with
      obeys | ⟨-, excused⟩
  · cases map' with
    | ident _ _ =>
        cases named'
        obtain ⟨_, typed, symbol⟩ := obeys
        cases Eq.trans (Eq.symm typed) known'
        exact symbol
    | apply _ _ _ | str _ _ | num _ _ _ => cases named'
  · obtain ⟨name', -, assigns⟩ :
        ∃ name', map'.ident? = some name' ∧ key'.bare.Assigns name' := excused
    exact absurd (assigns.of_bare (bare_bare key')) (assignless.not_assigns name')

end TraceProbe.Node
