import TraceProbe.Proofs.Emission.Applications

/-!
# Emission of trees, piece by piece

A tree that is emitted appends pieces that read what was filled before and fill
new registers and slots, or the slot that was chosen for the tree.  By induction
on the tree.
-/

namespace TraceProbe

/-- A piece fills a register. -/
def Move.Fills (move : Move) (reg : Reg) : Prop :=
  ∃ dst, move.dst = some dst ∧ dst.place = .register reg

/-- Registers are read behind the pieces that fill them, but for some that were
filled before. -/
def Sourced : (Reg → Prop) → List Move → Prop
  | _, [] => True
  | filled, move :: moves =>
      (∀ src ∈ move.srcs, ∀ reg, src.place = .register reg → filled reg) ∧
        Sourced (fun reg => filled reg ∨ move.Fills reg) moves

namespace Sourced

variable {filled more : Reg → Prop} {moves later : List Move}

theorem mono (sourced : Sourced filled moves) (enough : ∀ reg, filled reg → more reg) :
    Sourced more moves := by
  induction moves generalizing filled more with
  | nil => trivial
  | cons move moves ih =>
      exact ⟨fun src among reg placed => enough reg (sourced.1 src among reg placed),
        ih sourced.2 fun reg => Or.imp_left (enough reg)⟩

theorem append (sourced : Sourced filled moves)
    (others : Sourced (fun reg => filled reg ∨ ∃ move ∈ moves, move.Fills reg) later) :
    Sourced filled (moves ++ later) := by
  induction moves generalizing filled with
  | nil => exact others.mono fun reg => fun
      | .inl before => before
      | .inr ⟨_, member, _⟩ => by cases member
  | cons move moves ih =>
      refine ⟨sourced.1, ih sourced.2 (others.mono ?_)⟩
      intro reg
      rintro (before | ⟨other, member, fills⟩)
      · exact .inl (.inl before)
      · rcases List.mem_cons.mp member with rfl | behind
        · exact .inl (.inr fills)
        · exact .inr ⟨other, behind, fills⟩

theorem of_all (all : ∀ move ∈ moves, ∀ src ∈ move.srcs, ∀ reg, src.place = .register reg →
    filled reg) : Sourced filled moves := by
  induction moves generalizing filled with
  | nil => trivial
  | cons move moves ih =>
      exact ⟨all move List.mem_cons_self, ih fun other member src among reg placed =>
        .inl (all other (List.mem_cons_of_mem _ member) src among reg placed)⟩

end Sourced

namespace Node

/-- What the emission of a tree has appended, and where its values are. -/
structure Composed (sure : Prop) (literal : List Ty → Ty → Prop) (node : Node)
    (request : Request) (stream : Stream) (tree : Node) (finish : Stream) (moves : List Move) :
    Prop where
  moved : stream.Moved finish moves
  sourced : Sourced (fun _ => False) moves
  filled : ∀ part, PartOf part tree → ∀ reg, part.storage.place = .register reg →
    ∃ move ∈ moves, move.Fills reg
  fresh : ∀ move ∈ moves, ∀ reg, move.Fills reg →
    ∃ number, reg = .virtual number ∧ stream.nextReg ≤ number ∧ number < finish.nextReg
  same : tree.unstored = node.unstored
  placed : tree.Placed request
  reserved : request.slot = none → ∀ offset, tree.storage.place = .slot offset →
    stream.HandsOut finish offset tree.storage.size
  writes : Fit literal request stream tree.storage → ∀ move ∈ moves, ∀ dst, move.dst = some dst →
    ∀ position, dst.Covers position → Handed stream finish position ∨
      request.Claims tree.storage position ∧ ¬ (tree.applies "[]" = true ∧ request.target = true)
  own : Fit literal request stream tree.storage → ∀ position, tree.storage.Covers position →
    Handed stream finish position ∨ request.Claims tree.storage position
  inner : Fit literal request stream tree.storage → ∀ arg ∈ tree.args, ∀ part, PartOf part arg →
    ∀ position, part.storage.Covers position → Handed stream finish position ∨
      request.Claims tree.storage position ∧ tree.applies "[]" = false
  reads : sure → Fit literal request stream tree.storage → ∀ move ∈ moves, ∀ src ∈ move.srcs,
    ∀ position, src.Covers position → -(finish.used : Int) ≤ position ∧ position < 0

/-- There is room for what is asked of several trees; all that is asked lies in
a region. -/
structure FitAll (literal : List Ty → Ty → Prop) (requests : List Request) (stream : Stream)
    (trees : List Node) (room : Int → Prop) : Prop where
  small : stream.limit ≤ 32767
  fits : stream.used ≤ stream.limit
  inside : ∀ (index : Nat) (tree : Node) (asked : Request), trees[index]? = some tree →
    requests[index]? = some asked → ∀ position, asked.Claims tree.storage position →
      room position ∧ -(stream.used : Int) ≤ position ∧ position < 0
  literal : ∀ members type, literal members type → Registry.Literal members type

/-- What the emission of several trees has appended. -/
structure ComposedAll (literal : List Ty → Ty → Prop) (nodes : List Node)
    (requests : List Request) (stream : Stream) (trees : List Node) (finish : Stream)
    (moves : List Move) : Prop where
  moved : stream.Moved finish moves
  sourced : Sourced (fun _ => False) moves
  filled : ∀ tree ∈ trees, ∀ part, PartOf part tree → ∀ reg, part.storage.place = .register reg →
    ∃ move ∈ moves, move.Fills reg
  fresh : ∀ move ∈ moves, ∀ reg, move.Fills reg →
    ∃ number, reg = .virtual number ∧ stream.nextReg ≤ number ∧ number < finish.nextReg
  same : trees.map unstored = nodes.map unstored
  placed : ∀ (index : Nat) (tree : Node) (asked : Request), trees[index]? = some tree →
    requests[index]? = some asked → tree.Placed asked
  writes : ∀ room, FitAll literal requests stream trees room → ∀ move ∈ moves, ∀ dst,
    move.dst = some dst → ∀ position, dst.Covers position →
      Handed stream finish position ∨ room position
  parts : ∀ room, FitAll literal requests stream trees room → ∀ tree ∈ trees, ∀ part,
    PartOf part tree → ∀ position, part.storage.Covers position →
      Handed stream finish position ∨ room position
  reads : ∀ room, FitAll literal requests stream trees room → ∀ move ∈ moves, ∀ src ∈ move.srcs,
    ∀ position, src.Covers position → -(finish.used : Int) ≤ position ∧ position < 0

variable {symbols : Symbols} {request : Request} {stream middle finish : Stream} {sure : Prop}
  {literal : List Ty → Ty → Prop} {node tree : Node} {moves : List Move}

/-- A part of a tree is the tree itself or a part of an argument. -/
theorem Composed.covers {part : Node}
    (composed : Composed sure literal node request stream tree finish moves)
    (fit : Fit literal request stream tree.storage) (among : PartOf part tree) {position : Int}
    (covers : part.storage.Covers position) :
    Handed stream finish position ∨ request.Claims tree.storage position := by
  cases among with
  | root => exact composed.own fit position covers
  | inner member inside =>
      exact (composed.inner fit _ member part inside position covers).imp_right And.left

theorem Composed.slot_of_claims
    (composed : Composed sure literal node request stream tree finish moves)
    {position : Int} (claims : request.Claims tree.storage position) :
    ∃ offset, request.slot = some offset ∧ Slot offset tree.storage.size position := by
  obtain ⟨chosen, place, placed, inside⟩ := claims
  obtain ⟨offset, slot⟩ := Option.ne_none_iff_exists'.mp chosen
  have assigned : tree.storage.isAssigned = true := by simp [Storage.isAssigned, placed]
  have same := composed.placed.obeyed offset slot assigned
  rw [placed] at same
  cases same
  exact ⟨_, slot, inside⟩

/-- There is room for what is asked if the slot that was chosen lies in the frame. -/
theorem Composed.fit (composed : Composed sure literal node request stream tree finish moves)
    (literals : ∀ members type, literal members type → Registry.Literal members type)
    (small : stream.limit ≤ 32767) (fits : stream.used ≤ stream.limit)
    (room : ∀ offset, request.slot = some offset →
      ∀ position, Slot offset tree.storage.size position →
      -(stream.used : Int) ≤ position ∧ position < 0) :
        Fit literal request stream tree.storage := by
  refine ⟨small, fits, ?_, literals⟩
  intro position claims
  obtain ⟨offset, slot, inside⟩ := composed.slot_of_claims claims
  exact room offset slot position inside

section Lists

variable {nodes trees : List Node} {requests : List Request} {room : Int → Prop}

theorem FitAll.first {asked : Request}
    (fit : FitAll literal (asked :: requests) stream (tree :: trees) room) :
    Fit literal asked stream tree.storage where
  small := fit.small
  fits := fit.fits
  inside position claims := (fit.inside 0 tree asked rfl rfl position claims).2
  literal := fit.literal

theorem FitAll.rest {asked : Request} {added : List Insn}
    (fit : FitAll literal (asked :: requests) stream (tree :: trees) room)
    (extended : stream.Extends middle added) : FitAll literal requests middle trees room := by
  refine ⟨extended.limit ▸ fit.small, extended.fits fit.fits, ?_, fit.literal⟩
  intro index other later here there position claims
  obtain ⟨inside, low, high⟩ := fit.inside (index + 1) other later here there position claims
  have used := extended.used
  exact ⟨inside, by omega, high⟩

theorem composedAll_nil : ComposedAll literal [] requests stream [] stream [] where
  moved := .refl stream
  sourced := trivial
  filled _ member := by cases member
  fresh _ member := by cases member
  same := rfl
  placed _ _ _ found := by simp at found
  writes _ _ _ member := by cases member
  parts _ _ _ member := by cases member
  reads _ _ _ member := by cases member

theorem Composed.cons {asked : Request} {others : List Move}
    (first : Composed sure literal node asked stream tree middle moves)
    (holds : sure) (rest : ComposedAll literal nodes requests middle trees finish others) :
    ComposedAll literal (node :: nodes) (asked :: requests) stream (tree :: trees) finish
      (moves ++ others) := by
  have before := first.moved.extended
  have after := rest.moved.extended
  have early {position : Int} (handed : Handed stream middle position) :
      Handed stream finish position := handed.mono (Nat.le_refl _) after.used
  have late {position : Int} (handed : Handed middle finish position) :
      Handed stream finish position := handed.mono before.used (Nat.le_refl _)
  refine ⟨first.moved.trans rest.moved,
    first.sourced.append (rest.sourced.mono fun _ none => none.elim), ?_, ?_, ?_, ?_, ?_, ?_, ?_⟩
  · intro other member part among reg placed
    rcases List.mem_cons.mp member with rfl | behind
    · obtain ⟨move, member, fills⟩ := first.filled part among reg placed
      exact ⟨move, List.mem_append_left _ member, fills⟩
    · obtain ⟨move, member, fills⟩ := rest.filled other behind part among reg placed
      exact ⟨move, List.mem_append_right _ member, fills⟩
  · intro move member reg fills
    rcases List.mem_append.mp member with member | member
    · obtain ⟨number, same, low, high⟩ := first.fresh move member reg fills
      exact ⟨number, same, low, Nat.lt_of_lt_of_le high after.regs⟩
    · obtain ⟨number, same, low, high⟩ := rest.fresh move member reg fills
      exact ⟨number, same, Nat.le_trans before.regs low, high⟩
  · rw [List.map_cons, List.map_cons, first.same, rest.same]
  · intro index other request here there
    cases index with
    | zero =>
        cases here
        cases there
        exact first.placed
    | succ index => exact rest.placed index other request here there
  · intro room fit move member dst filled position covers
    rcases List.mem_append.mp member with member | member
    · rcases first.writes fit.first move member dst filled position covers with handed | ⟨claims, -⟩
      · exact .inl (early handed)
      · exact .inr (fit.inside 0 tree asked rfl rfl position claims).1
    · exact (rest.writes room (fit.rest before) move member dst filled position
        covers).imp_left late
  · intro room fit other member part among position covers
    rcases List.mem_cons.mp member with rfl | behind
    · rcases first.covers fit.first among covers with handed | claims
      · exact .inl (early handed)
      · exact .inr (fit.inside 0 _ asked rfl rfl position claims).1
    · exact (rest.parts room (fit.rest before) other behind part among position
        covers).imp_left late
  · intro room fit move member src among position covers
    rcases List.mem_append.mp member with member | member
    · obtain ⟨low, high⟩ := first.reads holds fit.first move member src among position covers
      have used := after.used
      exact ⟨by omega, high⟩
    · exact rest.reads room (fit.rest before) move member src among position covers

end Lists

variable {role : Role} {typing : Symbols} {operator : String} {args trees : List Node} {info : Info}
  {plan : Plan} {type : Ty}

/-- A typed tree as inference leaves it to emission, in the role that it has in its
statement. -/
structure Emittable (literal : List Ty → Ty → Prop) (typing : Symbols) (role : Role) (node : Node) :
    Prop where
  sound : Everywhere (Sound literal typing) role node
  applies : role = .target → node.applies "[]" = true
  shaped : node.Shaped
  unstored : node.Unstored

theorem Emittable.arg (emittable : Emittable literal typing role (apply operator args info))
    {index : Nat} {arg : Node} (found : args[index]? = some arg) :
    Emittable literal typing (Role.of operator args index) arg where
  sound := emittable.sound.arg found
  applies := (emittable.shaped operator args info .root).target_applies found
  shaped := emittable.shaped.arg (List.mem_of_getElem? found)
  unstored := emittable.unstored.arg (List.mem_of_getElem? found)

theorem Emittable.part {part : Node} (emittable : Emittable literal typing role node)
    (among : PartOf part node) : ∃ role, Emittable literal typing role part := by
  -- Induction on where the part is.
  induction among generalizing role with
  | root => exact ⟨role, emittable⟩
  | inner member _ ih =>
      obtain ⟨index, found⟩ := List.mem_iff_getElem?.mp member
      exact ih (emittable.arg found)

/-- Every emission of a tree is composed of pieces. -/
def Composes (symbols typing : Symbols) (literal : List Ty → Ty → Prop) (node : Node) : Prop :=
  ∀ (role : Role) (request : Request) (stream : Stream) (tree : Node) (finish : Stream),
    Emittable literal typing role node → Emits symbols node request stream tree finish →
      ∃ moves, Composed (role = .target → request.target = true) literal node request stream tree
        finish moves

theorem composesAll {roles : Nat → Role} {requests : List Request}
    (each : ∀ arg ∈ args, Composes symbols typing literal arg)
    (emittable : ∀ (index : Nat) (arg : Node), args[index]? = some arg →
      Emittable literal typing (roles index) arg)
    (lengths : requests.length = args.length)
    (targets : ∀ (index : Nat) (asked : Request), requests[index]? = some asked →
      roles index = .target → asked.target = true)
    (emits : EmitsAll symbols args requests stream trees finish) :
    ∃ moves, ComposedAll literal args requests stream trees finish moves := by
  induction args generalizing roles requests stream trees with
  | nil =>
      obtain ⟨rfl, rfl⟩ := emitsAll_nil_iff.mp emits
      exact ⟨[], composedAll_nil⟩
  | cons arg args ih =>
      cases requests with
      | nil => cases lengths
      | cons asked requests =>
          obtain ⟨first, middle, others, here, rest, rfl⟩ := emitsAll_cons_iff.mp emits
          obtain ⟨moves, composed⟩ :=
            each arg List.mem_cons_self (roles 0) asked stream first middle
            (emittable 0 arg rfl) here
          obtain ⟨more, composedAll⟩ :=
            ih (fun other member => each other (List.mem_cons_of_mem _ member))
            (fun index other found => emittable (index + 1) other found) (Nat.succ.inj lengths)
            (fun index other found => targets (index + 1) other found) rest
          exact ⟨moves ++ more, composed.cons (targets 0 asked rfl) composedAll⟩

theorem typed_of_sound (sound : Sound literal typing role node) :
    ∃ type, node.type? = some type := by
  rcases sound with obeys | ⟨typed, -⟩
  · cases node with
    | apply _ _ _ | ident _ _ =>
        obtain ⟨type, typed, -⟩ := obeys
        exact ⟨type, typed⟩
    | str _ _ | num _ _ _ => exact ⟨_, obeys⟩
  · exact Option.isSome_iff_exists.mp typed

theorem literal_of_sound {value : String} (sound : Sound literal typing role node)
    (text : node.str? = some value) : node.type? = some (literalType value) := by
  cases node with
  | str value' info =>
      cases text
      rcases sound with obeys | ⟨-, excused⟩
      · exact obeys
      · cases role with
        | value => cases excused
        | target =>
            obtain ⟨collection, key, type, arguments, -⟩ := excused
            cases arguments
        | collection key =>
            cases key with
            | none => cases excused
            | some key =>
                obtain ⟨name, same, -⟩ := excused
                cases same
  | apply _ _ _ | ident _ _ | num _ _ _ => cases text

theorem rule_of_sound (sound : Sound literal typing role (apply operator args info))
    (typed : info.type = some type) :
    Rule literal operator args type ∨ role = .target ∧ Unmapped args := by
  rcases sound with ⟨other, typed', rule⟩ | ⟨-, excused⟩
  · rw [typed] at typed'
    cases typed'
    exact .inl rule
  · cases role with
    | value => cases excused
    | target => exact .inr ⟨rfl, excused⟩
    | collection key =>
        cases key with
        | none => cases excused
        | some key =>
            obtain ⟨name, same, -⟩ := excused
            cases same

theorem Emittable.ruled (emittable : Emittable literal typing role (apply operator args info))
    (typed : info.type = some type) :
    Rule literal operator args type ∨ role = .target ∧ operator = "[]" ∧ Unmapped args := by
  rcases rule_of_sound emittable.sound.here typed with rule | ⟨rfl, unmapped⟩
  · exact .inl rule
  · have element := emittable.applies rfl
    simp only [Node.applies, operator?, decide_eq_true_eq, Option.some.injEq] at element
    exact .inr ⟨rfl, element, unmapped⟩

theorem Emittable.rule (emittable : Emittable literal typing role (apply operator args info))
    (typed : info.type = some type) (different : operator ≠ "[]") :
    Rule literal operator args type := by
  rcases emittable.ruled typed with rule | element
  · exact rule
  · exact absurd element.2.1 different

section Storage

variable {own : Storage}

@[simp] theorem storage_withStorage : (node.withStorage own).storage = own := by
  cases node <;> rfl

@[simp] theorem type?_withStorage : (node.withStorage own).type? = node.type? := by
  cases node <;> rfl

@[simp] theorem str?_withStorage : (node.withStorage own).str? = node.str? := by
  cases node <;> rfl

@[simp] theorem operator?_withStorage : (node.withStorage own).operator? = node.operator? := by
  cases node <;> rfl

theorem unstored_withStorage (leaf : node.operator? = none) :
    (node.withStorage own).unstored = node.unstored := by
  cases node with
  | apply _ _ _ => cases leaf
  | ident _ _ | str _ _ | num _ _ _ => rfl

theorem args_of_leaf (leaf : node.operator? = none) : node.args = [] := by
  cases node with
  | apply _ _ _ => cases leaf
  | ident _ _ | str _ _ | num _ _ _ => rfl

theorem eq_of_partOf_leaf {part : Node} (leaf : node.operator? = none) (among : PartOf part node) :
    part = node := by
  cases among with
  | root => rfl
  | inner _ _ => cases leaf

end Storage

theorem composes_leaf (leaf : node.operator? = none) : Composes symbols typing literal node := by
  intro role request stream tree finish ⟨everywhere, _, _, unstored⟩ emits
  obtain ⟨own, found, rfl⟩ := (emits_leaf_iff leaf).mp emits
  obtain ⟨type, typed⟩ := typed_of_sound everywhere.here
  rw [unstored node .root] at found
  obtain ⟨moves, finishes⟩ : ∃ moves, Finishes True type request.slot [] stream finish own moves :=
    AtSite.finishes_leaf leaf typed found
  have owns := finishes.owns
  have bare : (node.withStorage own).operator? = none := by simpa using leaf
  have noTree {storage : Storage} : ¬ Operand [] storage := by
    rintro ⟨_, member, -⟩
    cases member
  refine ⟨moves, finishes.moved, ?_, ?_, ?_, unstored_withStorage leaf, ?_, ?_, ?_, ?_, ?_, ?_⟩
  · refine .of_all ?_
    intro move member src among reg placed
    rcases finishes.reads move member src among with operand | ⟨free, -⟩
    · exact absurd operand noTree
    · exact absurd placed (free reg)
  · intro part among reg placed
    obtain rfl := eq_of_partOf_leaf bare among
    rw [storage_withStorage] at placed
    obtain ⟨move, member, filled⟩ := finishes.filled reg placed
    exact ⟨move, member, own, filled, placed⟩
  · rintro move member reg ⟨dst, filled, placed⟩
    rcases finishes.writes move member dst filled with rfl | ⟨free, -⟩
    · exact owns.register reg placed
    · exact absurd placed (free reg)
  · refine ⟨⟨?_, ?_⟩, ?_, ?_⟩
    · intro other known _
      rw [type?_withStorage, typed] at known
      cases known
      simpa using owns.sized
    · intro value text
      rw [str?_withStorage] at text
      simpa using literal_of_sound everywhere.here text
    · simpa using owns.positive
    · simpa using owns.obeyed
  · simpa using owns.reserved
  · intro fit move member dst filled position covers
    rw [storage_withStorage] at fit ⊢
    have notElement : ¬ ((node.withStorage own).applies "[]" = true ∧ request.target = true) := by
      simp [applies, bare]
    rcases finishes.writes move member dst filled with rfl | ⟨-, handed⟩
    · exact (owns.claims fit.small covers).imp_right fun claims => ⟨claims, notElement⟩
    · exact .inl (handed fit.small position covers)
  · intro fit position covers
    rw [storage_withStorage] at fit covers ⊢
    exact owns.claims fit.small covers
  · intro _ arg member
    rw [args_of_leaf bare] at member
    cases member
  · intro _ fit move member src among position covers
    rcases finishes.reads move member src among with operand | ⟨-, inside⟩
    · exact absurd operand noTree
    · exact inside trivial ⟨fit.small, fit.fits, fun _ operand => absurd operand noTree⟩
        position covers

section Applications

variable {own : Storage} {site : Site} {planned finished inner : List Move}

theorem target_of_plan (shape : Shape operator args)
    (found : Yields ((apply operator args info).planApplication request) ⟨stream, {}⟩ plan site)
    {index : Nat} {asked : Request} (there : plan.args[index]? = some asked)
    (target : Role.of operator args index = .target) : asked.target = true := by
  obtain ⟨assign, rfl⟩ := Role.of_eq_target_iff.mp target
  cases shape with
  | assign value targets =>
      obtain ⟨_, _, slot, -, -, -, -, -, asks⟩ := reserved_assign found
      rw [asks] at there
      cases there
      rfl
  | _ => exact absurd assign (by decide)

theorem not_finishes_unmapped {finish : Site} (unmapped : Unmapped trees)
    (target : request.target = true) :
    ¬ Yields ((apply "[]" trees info).finishApplication symbols request) site () finish := by
  intro found
  obtain ⟨collection, key, type, rfl, typed, noMap⟩ := unmapped
  have found := finished_by rfl found
  have first : (apply "[]" [collection, key] info).argument 0 = .ok collection := rfl
  have known : collection.knownType = .ok type := AtSite.knownType_eq_ok_iff.mpr typed
  simp only [Operator.emit, AtSite.emitSubscript, first, yields_bind_iff,
    yields_liftExcept_iff] at found
  obtain ⟨_, _, ⟨same, rfl⟩, _, _, ⟨same', rfl⟩, found⟩ := found
  cases same
  rw [known] at same'
  cases same'
  rw [if_pos (by simp [target, noMap])] at found
  simp only [yields_bind_iff, not_yields_throw, false_and, exists_false] at found

theorem supplied_of_composed (lengths : plan.args.length = args.length)
    (composed : ComposedAll literal args plan.args stream trees middle inner) :
    Supplied plan args trees := by
  refine ⟨?_, ?_, lengths, composed.placed⟩
  · have found := congrArg (List.map bare) composed.same
    simpa only [List.map_map, Function.comp_def, bare_unstored] using found.symm
  · intro index arg tree here there
    have found := congrArg (·[index]?) composed.same
    simp only [List.getElem?_map, here, there, Option.map_some, Option.some.injEq] at found
    have infos := congrArg (Info.type ∘ Node.info) found
    simp only [unstored, Function.comp_apply, info_mapInfo] at infos
    exact infos

/-- Nothing is asked into the slot of an element. -/
theorem Around.fitAll {reserved : Stream} {added : List Insn}
    (around : Around sure literal operator request plan stream reserved trees middle finish
      own planned finished) (fit : Fit literal request stream own)
        (extended : stream.Extends reserved added) :
    FitAll literal plan.args reserved trees fun position => (own.Covers position ∧
      operator ≠ "[]") ∧ -(reserved.used : Int) ≤ position ∧ position < 0 := by
  refine ⟨extended.limit ▸ fit.small, extended.fits fit.fits, ?_, fit.literal⟩
  intro index tree asked here there position claims
  obtain ⟨covers, inside⟩ := around.asked fit index tree asked here there position claims
  refine ⟨⟨⟨covers, fun element => claims.1 ?_⟩, inside⟩, inside⟩
  exact (around.element element).2.1 asked (List.mem_of_getElem? there)

/-- What is handed out for the arguments is handed out for the whole. -/
theorem Around.handed {reserved : Stream} {position : Int}
    (around : Around sure literal operator request plan stream reserved trees middle finish
      own planned finished) (handed : Handed reserved middle position) :
    Handed stream finish position := by
  have later := around.plans.extended.used
  have earlier := around.finishes.extended.used
  exact handed.mono later earlier

section Compose

variable {reserved : Stream}
  (around : Around sure literal operator request plan stream reserved trees middle finish
    own planned finished)
  (composed : ComposedAll literal args plan.args reserved trees middle inner)
include around composed

theorem Around.sourced : Sourced (fun _ => False) (planned ++ (inner ++ finished)) := by
  refine Sourced.append (.of_all ?_)
    (Sourced.append (composed.sourced.mono fun _ none => none.elim) (.of_all ?_))
  · intro move member src among
    rw [around.unread move member] at among
    cases among
  · intro move member src among reg placed
    rcases around.reads move member src among with ⟨tree, argument, part, inside, rfl⟩ | ⟨free, -⟩
    · exact .inr (composed.filled tree argument part inside reg placed)
    · exact absurd placed (free reg)

theorem Around.fills {part : Node}
    (among : PartOf part (apply operator trees { info with storage := own }))
    {reg : Reg} (placed : part.storage.place = .register reg) :
    ∃ move ∈ planned ++ (inner ++ finished), move.Fills reg := by
  cases among with
  | root =>
      obtain ⟨move, member, filled⟩ := around.filled reg placed
      exact ⟨move, List.mem_append_right _ (List.mem_append_right _ member), own, filled, placed⟩
  | inner argument inside =>
      obtain ⟨move, member, fills⟩ := composed.filled _ argument part inside reg placed
      exact ⟨move, List.mem_append_right _ (List.mem_append_left _ member), fills⟩

theorem Around.fresh {move : Move} (member : move ∈ planned ++ (inner ++ finished)) {reg : Reg}
    (fills : move.Fills reg) :
    ∃ number, reg = .virtual number ∧ stream.nextReg ≤ number ∧ number < finish.nextReg := by
  have before := around.plans.extended
  have within := composed.moved.extended
  obtain ⟨dst, filled, there⟩ := fills
  rcases List.mem_append.mp member with member | member
  · exact absurd there ((around.clears move member dst filled).1 reg)
  · rcases List.mem_append.mp member with member | member
    · obtain ⟨number, same, low, high⟩ := composed.fresh move member reg ⟨dst, filled, there⟩
      exact ⟨number, same, Nat.le_trans before.regs low,
        Nat.lt_of_lt_of_le high around.finishes.extended.regs⟩
    · rcases around.writes move member dst filled with ⟨free, -⟩ | ⟨rfl, -⟩
      · exact absurd there (free reg)
      · obtain ⟨number, same, low, high⟩ := around.register reg there
        exact ⟨number, same, Nat.le_trans (before.trans within).regs low, high⟩

theorem Around.owned (fit : Fit literal request stream own) {position : Int}
    (covers : own.Covers position) :
    Handed stream finish position ∨ request.Claims own position := by
  have before := around.plans.extended
  have within := composed.moved.extended
  rcases around.covers fit.small position covers with handed | handed | claims
  · exact .inl (handed.mono (Nat.le_refl _) (within.trans around.finishes.extended).used)
  · exact .inl (handed.mono (before.trans within).used (Nat.le_refl _))
  · exact .inr claims

theorem Around.written (fit : Fit literal request stream own) {move : Move}
    (member : move ∈ planned ++ (inner ++ finished)) {dst : Storage} (filled : move.dst = some dst)
    {position : Int} (covers : dst.Covers position) :
    Handed stream finish position ∨
      request.Claims own position ∧ ¬ (operator = "[]" ∧ request.target = true) := by
  have before := around.plans.extended
  have within := composed.moved.extended
  have target (own' : own.Covers position) (other : ¬ (operator = "[]" ∧ request.target = true)) :
      Handed stream finish position ∨
        request.Claims own position ∧ ¬ (operator = "[]" ∧ request.target = true) :=
    (around.owned composed fit own').imp_right fun claims => ⟨claims, other⟩
  rcases List.mem_append.mp member with member | member
  · refine target ((around.clears move member dst filled).2 fit position covers) ?_
    intro both
    rw [(around.element both.1).1] at member
    cases member
  · rcases List.mem_append.mp member with member | member
    · rcases composed.writes _ (around.fitAll fit before) move member dst filled
          position covers with
        handed | ⟨⟨inside, other⟩, -⟩
      · exact .inl (around.handed handed)
      · exact target inside fun both => other both.1
    · rcases around.writes move member dst filled with ⟨-, handed⟩ | ⟨rfl, -⟩
      · exact .inl ((handed ((before.trans within).limit ▸ fit.small) position covers).mono
          (before.trans within).used (Nat.le_refl _))
      · refine target covers ?_
        intro both
        rw [(around.element both.1).2.2 both.2] at member
        cases member

theorem Around.within (fit : Fit literal request stream own) {arg part : Node}
    (member : arg ∈ trees)
    (inside : PartOf part arg) {position : Int} (covers : part.storage.Covers position) :
    Handed stream finish position ∨ request.Claims own position ∧ operator ≠ "[]" := by
  rcases composed.parts _ (around.fitAll fit around.plans.extended) arg member part inside position
    covers with handed | ⟨⟨inside, other⟩, -⟩
  · exact .inl (around.handed handed)
  · exact (around.owned composed fit inside).imp_right fun claims => ⟨claims, other⟩

theorem Around.inFrame (fit : Fit literal request stream own) : InFrame trees middle := by
  have before := around.plans.extended
  have within := composed.moved.extended
  have earlier := before.used
  have later := within.used
  refine ⟨(before.trans within).limit ▸ fit.small, (before.trans within).fits fit.fits, ?_⟩
  rintro storage ⟨tree, argument, part, inside, rfl⟩ position covers
  rcases composed.parts _ (around.fitAll fit before) tree argument part inside position covers with
    ⟨low, high⟩ | ⟨-, low, high⟩
  · exact ⟨low, by omega⟩
  · exact ⟨by omega, high⟩

theorem Around.read (holds : sure) (fit : Fit literal request stream own) {move : Move}
    (member : move ∈ planned ++ (inner ++ finished)) {src : Storage} (among : src ∈ move.srcs)
    {position : Int} (covers : src.Covers position) :
    -(finish.used : Int) ≤ position ∧ position < 0 := by
  have used := around.finishes.extended.used
  rcases List.mem_append.mp member with member | member
  · rw [around.unread move member] at among
    cases among
  · rcases List.mem_append.mp member with member | member
    · obtain ⟨low, high⟩ :=
        composed.reads _ (around.fitAll fit around.plans.extended) move member src
        among position covers
      exact ⟨by omega, high⟩
    · have frame := around.inFrame composed fit
      rcases around.reads move member src among with operand | ⟨-, inside⟩
      · obtain ⟨low, high⟩ := frame.covers src operand position covers
        exact ⟨by omega, high⟩
      · exact inside holds frame position covers

/-- The pieces around the arguments and those of the arguments, taken together. -/
theorem Around.compose
    (placed : (apply operator trees { info with storage := own }).Placed request) :
    Composed sure literal (apply operator args info) request stream
      (apply operator trees { info with storage := own }) finish
        (planned ++ (inner ++ finished)) where
  moved := around.plans.trans (composed.moved.trans around.finishes)
  sourced := around.sourced composed
  filled part among reg placed := around.fills composed among placed
  fresh move member reg fills := around.fresh composed member fills
  same := by
    simp only [unstored, mapInfo, mapInfos_eq_map, apply.injEq, true_and, and_true]
    exact composed.same
  placed := placed
  reserved := around.reserved
  writes fit move member dst filled position covers :=
    (around.written composed fit member filled covers).imp_right <| And.imp_right fun other both =>
      other ⟨by simpa [Node.applies, operator?] using both.1, both.2⟩
  own fit position covers := around.owned composed fit covers
  inner fit arg member part inside position covers :=
    (around.within composed fit member inside covers).imp_right <| And.imp_right fun other => by
      simpa [Node.applies, operator?] using other
  reads holds fit move member src among position covers :=
    around.read composed holds fit member among covers

end Compose

/-- What is emitted keeps its rule, also where it is a target. -/
theorem Emittable.rule_of_finishes {info' : Info} {start last : Site}
    (emittable : Emittable literal typing role (apply operator args info))
    (typed : info.type = some type) (target : role = .target → request.target = true)
    (planned : Yields ((apply operator args info).planApplication request) ⟨stream, {}⟩ plan site)
    (supplied : Supplied plan args trees)
    (found : Yields ((apply operator trees info').finishApplication symbols plan.own) start
      () last) :
    Rule literal operator args type := by
  rcases emittable.ruled typed with rule | ⟨rfl, rfl, unmapped⟩
  · exact rule
  · obtain ⟨passive, rfl⟩ := passive_of_plan (emittable.shaped "[]" args info .root) rfl planned
    obtain ⟨collection, key, other, rfl, known, noMap⟩ := unmapped
    obtain ⟨collection', key', rfl, -, -⟩ := two_of_bares supplied.bares
    have known' := (supplied.types 0 collection collection' rfl rfl).trans known
    exact absurd found (not_finishes_unmapped ⟨_, _, other, rfl, known', noMap⟩
      (passive.target.trans (target rfl)))

/-- What the emission of an application consists of: its arguments, and what is
appended around them. -/
structure Applied (symbols : Symbols) (sure : Prop)
    (literal : List Ty → Ty → Prop) (operator : String)
    (args : List Node) (request : Request) (plan : Plan)
    (stream reserved : Stream) (trees : List Node)
    (middle finish : Stream) (own : Storage) (planned inner finished : List Move) : Prop where
  lengths : plan.args.length = args.length
  emits : EmitsAll symbols args plan.args reserved trees middle
  composed : ComposedAll literal args plan.args reserved trees middle inner
  around : Around sure literal operator request plan stream reserved trees middle finish
      own planned finished

theorem applied_of_emits (ih : ∀ arg ∈ args, Composes symbols typing literal arg)
    (emittable : Emittable literal typing role (apply operator args info))
    (emits : Emits symbols (apply operator args info) request stream tree finish) :
    ∃ plan site trees middle own planned inner finished,
      Yields ((apply operator args info).planApplication request) ⟨stream, {}⟩ plan site ∧
      Yields ((apply operator trees { info with storage := site.own }).finishApplication symbols
        plan.own) ⟨middle, site.own⟩ () ⟨finish, own⟩ ∧
      Applied symbols (role = .target → request.target = true) literal operator
        args request plan stream
        site.stream trees middle finish own planned inner finished ∧ tree.Placed request ∧
          tree = apply operator trees { info with storage := own } := by
  obtain ⟨type, typed⟩ := typed_of_sound emittable.sound.here
  have typed : info.type = some type := typed
  have shape := emittable.shaped operator args info .root
  obtain ⟨plan, site, trees, middle, own, planned, arguments, found, rfl⟩ :=
    emits_apply_iff.mp emits
  rw [show info.storage = {} from emittable.unstored _ .root] at planned
  have lengths : plan.args.length = args.length := length_of_plan planned
  obtain ⟨inner, composed⟩ := composesAll ih (fun index arg here => emittable.arg here) lengths
    (fun index asked there => target_of_plan shape planned there) arguments
  have supplied := supplied_of_composed lengths composed
  have rule := emittable.rule typed
  have sureRule (sure : role = .target → request.target = true) : Rule literal operator args type :=
    emittable.rule_of_finishes typed sure planned supplied found
  have free := emittable.unstored.args_free
  obtain ⟨before, behind, placed, around⟩ := around shape typed rule sureRule free planned
    composed.moved.extended supplied found
  exact ⟨plan, site, trees, middle, own, before, inner, behind, planned, found,
    ⟨lengths, arguments, composed, around⟩, placed, rfl⟩

theorem composes_apply (ih : ∀ arg ∈ args, Composes symbols typing literal arg) :
    Composes symbols typing literal (apply operator args info) := by
  intro role request stream tree finish emittable emits
  obtain ⟨_, _, _, _, _, _, _, _, -, -, applied, placed, rfl⟩ := applied_of_emits ih emittable emits
  exact ⟨_, applied.around.compose applied.composed placed⟩

/-- Every emission is composed of pieces. -/
theorem composes (node : Node) : Composes symbols typing literal node := by
  induction node using induct with
  | leaf node leaf => exact composes_leaf leaf
  | apply operator args info ih => exact composes_apply ih

end Applications

end Node

end TraceProbe
