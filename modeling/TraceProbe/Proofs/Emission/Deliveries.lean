import TraceProbe.Proofs.Emission.Lodging

/-!
# Emission that delivers

A tree is emitted with its value where it was asked, or its emission ends with a
diagnostic that the user can act on.  By induction on the tree.
-/

namespace TraceProbe.Node

open AtSite

/-- A tree behind its emission.  A value that takes room is in its place, unless
one member is read through the node; so are the pointers of dereferences and the
keys of elements that are written to. -/
structure Lodged (symbols : Symbols) (request : Request) (tree : Node) : Prop where
  own : ∀ type, tree.type? = some type → 0 < type.size → tree.isVirtual = false →
    ¬ (tree.applies "u*" = true ∧ request.memberOnly = true) →
      tree.storage.Carries type request.inFrame
  skipped : tree.applies "u*" = true → request.memberOnly = true → tree.storage.isAssigned = false
  pointer : tree.applies "u*" = true →
    ∃ pointer target, tree.args = [pointer] ∧ pointer.storage.Carries (.pointer target) false
  element : tree.applies "[]" = true → request.target = true →
    ∃ map key, tree.args = [map, key] ∧ Addressed symbols map key

/-- A node may be emitted with a request: it has a value that takes room, unless
none is read. -/
def Served (symbols : Symbols) (request : Request) (node : Node) : Prop :=
  node.operator? = none ∧ node.isVirtual = true ∨ node.NamesMap symbols ∨ node.applies "=" = true ∨
    node.applies "delete" = true ∨ (node.applies "u*" = true ∧ request.memberOnly = true) ∨
      (node.applies "[]" = true ∧ request.target = true) ∨ 0 < node.valueSize

/-- A node is emitted as it was asked, or a diagnostic that the user can act on
says why not. -/
structure Delivers (symbols : Symbols) (node : Node) (request : Request)
    (stream : Stream) : Prop where
  faults : Faults Fault.Tolerable (emit symbols node request stream).outcome
  lodged : ∀ tree finish, Emits symbols node request stream tree finish →
      tree.Lodged symbols request

variable {symbols : Symbols} {node : Node} {request : Request} {stream : Stream} {operator : String}
  {args trees : List Node} {info : Info} {type : Ty} {literal : List Ty → Ty → Prop} {role : Role}

section Leaves

/-- A tree that is neither a dereference nor a subscript has a value of its own
only. -/
theorem lodged_of_own {tree : Node} (deref : tree.applies "u*" = false)
    (subscript : tree.applies "[]" = false)
    (own : ∀ type, tree.type? = some type → 0 < type.size → tree.isVirtual = false →
      tree.storage.Carries type request.inFrame) : tree.Lodged symbols request := by
  refine ⟨fun type typed some real _ => own type typed some real, ?_, ?_, ?_⟩
  · intro applied
    rw [deref] at applied
    cases applied
  · intro applied
    rw [deref] at applied
    cases applied
  · intro applied
    rw [subscript] at applied
    cases applied

theorem lodged_leaf {tree : Node} (leaf : tree.operator? = none)
    (own : ∀ type, tree.type? = some type → 0 < type.size → tree.isVirtual = false →
      tree.storage.Carries type request.inFrame) : tree.Lodged symbols request := by
  have bare (operator : String) : tree.applies operator = false := by simp [applies, leaf]
  exact lodged_of_own (bare _) (bare _) own

theorem type_of_number {typing : Symbols} (sound : Sound literal typing role node)
    (number : node.num?.isSome = true) : ∃ unsigned, node.type? = some (numberType unsigned) := by
  cases node with
  | num value unsigned info =>
      rcases sound with obeys | ⟨-, excused⟩
      · exact ⟨unsigned, obeys⟩
      · cases role with
        | value => cases excused
        | target =>
            obtain ⟨collection, key, type, arguments, -⟩ := excused
            cases arguments
        | collection key =>
            cases key with
            | none => cases excused
            | some key =>
                obtain ⟨name, same, -⟩ := excused
                cases same
  | apply _ _ _ | ident _ _ | str _ _ => cases number

theorem numberType_wide (unsigned : Bool) :
    (Width.ofBytes? (numberType unsigned).size).isSome = true := by
  cases unsigned <;> rfl

theorem size_of_isMap (map : type.isMap = true) : type.size = 0 := by
  cases type with
  | map _ _ _ => rw [Ty.size]
  | _ => cases map

theorem leads_leaf {typing : Symbols} (leaf : node.operator? = none) (noted : node.Noted symbols)
    (sound : Sound literal typing role node) (served : node.Served symbols request) :
    Leads (fun _ finish => (node.withStorage finish.own).Lodged symbols request)
      (AtSite.leaf symbols node request) ⟨stream, {}⟩ := by
  obtain ⟨type, typed⟩ := typed_of_sound sound
  have lodged {own : Storage} (carries : 0 < type.size → own.Carries type request.inFrame) :
      (node.withStorage own).Lodged symbols request := by
    refine lodged_leaf (by simpa using leaf) ?_
    intro other same some _
    rw [type?_withStorage, typed] at same
    cases same
    simpa using carries some
  unfold AtSite.leaf
  split
  · rename_i virtual
    refine leads_pure (lodged_leaf (by simpa using leaf) ?_)
    intro _ _ _ real
    cases node <;> exact absurd (virtual.symm.trans real) (by decide)
  · rename_i real
    cases node with
    | apply _ _ _ => cases leaf
    | num value unsigned info =>
        obtain ⟨unsigned, same⟩ := type_of_number sound rfl
        have wide := numberType_wide unsigned
        refine (leads_allocateFor request same rfl).bind ?_
        intro own middle allocated
        obtain ⟨owned, -, carries⟩ := allocated
        have carries := carries (size_pos_of_ofBytes? wide)
        refine ((steady_lift (Emit.tame_constant carries.isAssigned (carries.sized ▸ wide)
          value)).last ⟨owned, rfl⟩ carries).mono ?_
        intro _ finish carries
        cases typed.symm.trans same
        exact lodged fun _ => carries
    | str value info =>
        have same := literal_of_sound sound rfl
        refine (leads_allocateFor request.onFrame same rfl).bind ?_
        intro own middle allocated
        obtain ⟨owned, -, carries⟩ := allocated
        have carries : own.Carries (literalType value) true := carries (size_literalType_pos value)
        obtain ⟨offset, placed⟩ := carries.slot
        refine (steady_slotOf placed _).then ⟨owned, rfl⟩ fun _ _ here =>
          ((steady_fill _ _).last here carries).mono ?_
        intro _ finish carries
        cases typed.symm.trans same
        exact lodged fun _ => carries.relax
    | ident name info =>
        obtain ⟨symbol, known, maps⟩ := noted
        simp only [known]
        cases kind : symbol.kind with
        | map number =>
            refine leads_pure (lodged ?_)
            intro some
            rw [size_of_isMap (maps (by rw [kind]; rfl) type typed)] at some
            cases some
        | context offset =>
            have some : 0 < type.size := by
              have unmapped : ¬ NamesMap symbols (ident name info) := by
                rintro ⟨_, other, same, found, mapped⟩
                cases same
                cases known.symm.trans found
                rw [kind] at mapped
                cases mapped
              rcases served with
                  ⟨-, virtual⟩ | names | other | other | ⟨other, -⟩ | ⟨other, -⟩ | some
              · exact absurd virtual real
              · exact absurd names unmapped
              all_goals first | cases other | exact valueSize_of_type? typed ▸ some
            refine (leads_allocateFor request typed rfl).bind ?_
            intro own middle allocated
            obtain ⟨owned, -, carries⟩ := allocated
            exact ((steady_loadContext (carries some) _ _).last ⟨owned, rfl⟩ (carries some)).mono
              fun _ finish carries => lodged fun _ => carries

end Leaves

section Arguments

/-- What is known about an application that is emitted, and about its arguments. -/
structure Provided (symbols : Symbols) (operator : String) (args : List Node)
    (type : Option Ty) : Prop where
  shape : Shape operator args
  foldings : Foldings operator args
  vetted : Vetted operator args type
  workable : Workable symbols operator args type

theorem Provided.follow {type : Option Ty} (provided : Provided symbols operator args type)
    (alike : AlikeAll args trees) : Provided symbols operator trees type where
  shape := provided.shape.of_bares alike.follows.bares
  foldings := provided.foldings.follow alike.follows alike.virtual
  vetted := provided.vetted.follow alike.follows alike.virtual
  workable := provided.workable.follow alike

theorem Provided.real {type : Option Ty} {index : Nat} {arg : Node}
    (provided : Provided symbols operator args type) (here : args[index]? = some arg)
    (solid : ¬ Folded operator (firstType? args) arg index) : arg.isVirtual = false := by
  rw [← Bool.not_eq_true]
  intro virtual
  exact solid (provided.foldings index arg here virtual)

/-- The value of an argument that is read takes room, unless it is folded into the
operator. -/
theorem Provided.value {type : Option Ty} {index : Nat} {arg : Node}
    (provided : Provided symbols operator args type) (here : args[index]? = some arg)
    (read : ¬ Unread operator args index) (solid : ¬ Folded operator (firstType? args) arg index) :
    arg.isVirtual = false ∧ ∃ type, arg.type? = some type ∧ 0 < type.size := by
  have real := provided.real here solid
  refine ⟨real, ?_⟩
  rcases provided.workable.valued index arg here with unread | virtual | some
  · exact absurd unread read
  · cases virtual.symm.trans real
  · exact exists_type_of_valueSize some

theorem leaf_of_folded {index : Nat} {arg : Node} (shape : Shape operator args)
    (here : args[index]? = some arg) (folded : Folded operator (firstType? args) arg index) :
    arg.operator? = none := by
  have literal (either : arg.str?.isSome = true ∨ arg.num?.isSome = true) :
      arg.operator? = none := by
    cases arg with
    | apply _ _ _ => rcases either with text | number <;> contradiction
    | ident _ _ | str _ _ | num _ _ _ => rfl
  cases folded with
  | member dot =>
      cases shape with
      | dot named =>
          cases here
          exact literal (.inl (by rw [named]; rfl))
      | _ => exact absurd dot (by decide)
  | length _ number | index _ number _ _ => exact literal (.inr number)
  | literal _ text => exact literal (.inl text)

theorem target_of_changed {plan : Plan} {site : Site} {asked : Request}
    (shape : Shape operator args)
    (found : Yields ((apply operator args info).planApplication request) ⟨stream, {}⟩ plan site)
    (there : plan.args[0]? = some asked) (changed : operator = "=" ∨ operator = "delete") :
    asked.target = true := by
  cases shape with
  | assign value element => exact target_of_plan (.assign value element) found there rfl
  | delete element =>
      obtain ⟨rfl, -⟩ := yields_pure_iff.mp (planned_by rfl found)
      cases there
      rfl
  | _ => exact absurd changed (by decide)

theorem memberOnly_of_plan {plan : Plan} {site : Site} {asked : Request} {base member : Node}
    (found : Yields ((apply "." [base, member] info).planApplication request)
      ⟨stream, {}⟩ plan site)
    (there : plan.args[0]? = some asked) (deref : base.applies "u*" = true) :
    asked.memberOnly = true := by
  have found := planned_by rfl found
  have first : (apply "." [base, member] info).argument 0 = .ok base := rfl
  simp only [Operator.plan, planDot, first, yields_bind_iff, yields_liftExcept_iff] at found
  obtain ⟨_, _, ⟨same, rfl⟩, planned⟩ := found
  cases same
  rw [if_pos deref] at planned
  obtain ⟨rfl, -⟩ := yields_pure_iff.mp planned
  cases there
  rfl

/-- Arguments are emitted as they are asked: no value is asked of those that are
not read. -/
theorem Provided.served {type : Option Ty} {index : Nat} {arg : Node} {plan : Plan} {site : Site}
    {asked : Request} (provided : Provided symbols operator args type)
    (found : Yields ((apply operator args info).planApplication request) ⟨stream, {}⟩ plan site)
    (here : args[index]? = some arg) (there : plan.args[index]? = some asked) :
    arg.Served symbols asked := by
  rcases provided.workable.valued index arg here with ⟨rfl, unread⟩ | virtual | some
  · have element (either : operator = "=" ∨ operator = "delete") : arg.applies "[]" = true := by
      cases provided.shape with
      | assign _ element | delete element =>
          cases here
          exact element
      | _ => exact absurd either (by decide)
    have target (either : operator = "=" ∨ operator = "delete") : arg.Served symbols asked :=
      .inr (.inr (.inr (.inr (.inr (.inl
        ⟨element either, target_of_changed provided.shape found there either⟩)))))
    rcases unread with assign | delete | ⟨dot, base, first, deref⟩ | ⟨subscript, map, known, isMap⟩
    · exact target (.inl assign)
    · exact target (.inr delete)
    · cases here.symm.trans first
      cases provided.shape with
      | dot _ =>
          cases here
          exact .inr (.inr (.inr (.inr (.inl ⟨deref, memberOnly_of_plan found there deref⟩))))
      | _ => exact absurd dot (by decide)
    · obtain ⟨collection, key, rfl⟩ := provided.shape.subscript_args subscript
      cases here
      have found := provided.workable.subscripted subscript arg key rfl
      unfold Subscriptable at found
      rw [show arg.type? = some map from known] at found
      cases map with
      | map _ _ _ => exact .inr (.inl found.1)
      | _ => cases isMap
  · exact .inl ⟨leaf_of_folded provided.shape here (provided.foldings index arg here virtual),
      virtual⟩
  · exact .inr (.inr (.inr (.inr (.inr (.inr some)))))

/-- Every tree is lodged as it was asked. -/
def LodgedAll (symbols : Symbols) (requests : List Request) (trees : List Node) : Prop :=
  ∀ (index : Nat) (tree : Node) (asked : Request), trees[index]? = some tree →
    requests[index]? = some asked → tree.Lodged symbols asked

/-- The value of an argument that is read is in its place. -/
theorem Provided.carried {type : Option Ty} {index : Nat} {tree : Node} {asked : Request}
    (provided : Provided symbols operator trees type) (lodged : tree.Lodged symbols asked)
    (here : trees[index]? = some tree) (whole : asked.memberOnly = false)
    (read : ¬ Unread operator trees index)
    (solid : ¬ Folded operator (firstType? trees) tree index) :
    ∃ type, tree.type? = some type ∧ 0 < type.size ∧ tree.storage.Carries type asked.inFrame := by
  obtain ⟨real, type, typed, some⟩ := provided.value here read solid
  refine ⟨type, typed, some, lodged.own type typed some real ?_⟩
  intro member
  rw [whole] at member
  cases member.2

end Arguments

section Trees

variable {typing : Symbols} {requests : List Request}

/-- A tree that inference has typed and marked, and that emission can work with. -/
structure Fitted (symbols typing : Symbols) (role : Role) (node : Node) : Prop where
  emittable : Emittable Registry.Literal typing role node
  noted : node.AllNoted symbols
  workable : ∀ operator args info, PartOf (apply operator args info) node →
    Workable symbols operator args info.type

theorem Fitted.arg {index : Nat} {arg : Node}
    (fitted : Fitted symbols typing role (apply operator args info))
    (here : args[index]? = some arg) : Fitted symbols typing (Role.of operator args index) arg where
  emittable := fitted.emittable.arg here
  noted := fitted.noted.inner (List.mem_of_getElem? here)
  workable operator args info inside :=
    fitted.workable operator args info (.inner (List.mem_of_getElem? here) inside)

theorem Fitted.provided (fitted : Fitted symbols typing role (apply operator args info)) :
    Provided symbols operator args info.type := by
  have noted := fitted.noted _ .root
  exact {
    shape := fitted.emittable.shaped operator args info .root
    foldings := noted.1
    vetted := noted.2
    workable := fitted.workable operator args info .root }

/-- A tree is emitted as it was asked, wherever its value is asked. -/
def Deliverable (symbols typing : Symbols) (node : Node) : Prop :=
  ∀ (role : Role) (request : Request) (stream : Stream), Fitted symbols typing role node →
    (role = .target → request.target = true) → node.Served symbols request →
      Delivers symbols node request stream

theorem delivers_all {roles : Nat → Role} (each : ∀ arg ∈ args, Deliverable symbols typing arg)
    (fitted : ∀ (index : Nat) (arg : Node), args[index]? = some arg →
      Fitted symbols typing (roles index) arg)
    (targets : ∀ (index : Nat) (asked : Request), requests[index]? = some asked →
      roles index = .target → asked.target = true)
    (served : ∀ (index : Nat) (arg : Node) (asked : Request), args[index]? = some arg →
      requests[index]? = some asked → arg.Served symbols asked) :
    Faults Fault.Tolerable (emitAll symbols args requests stream).outcome ∧
      ∀ trees finish, EmitsAll symbols args requests stream trees finish →
        LodgedAll symbols requests trees := by
  induction args generalizing roles requests stream with
  | nil =>
      refine ⟨by cases requests <;> exact faults_ok _,
        fun trees finish emits index tree asked here => ?_⟩
      obtain ⟨rfl, -⟩ := emitsAll_nil_iff.mp emits
      cases here
  | cons arg args ih =>
      cases requests with
      | nil => exact ⟨faults_ok _, fun trees finish _ index tree asked _ there => by cases there⟩
      | cons asked requests =>
          have first := each arg List.mem_cons_self (roles 0) asked stream (fitted 0 arg rfl)
            (targets 0 asked rfl) (served 0 arg asked rfl rfl)
          have rest (middle : Stream) :
              Faults Fault.Tolerable (emitAll symbols args requests middle).outcome ∧
                ∀ trees finish, EmitsAll symbols args requests middle trees finish →
                  LodgedAll symbols requests trees := ih
            (fun other member => each other (List.mem_cons_of_mem _ member))
            (fun index other found => fitted (index + 1) other found)
            (fun index other found => targets (index + 1) other found)
            (fun index other asked here there => served (index + 1) other asked here there)
          constructor
          · have faults := first.faults
            rw [emitAll]
            rcases head : emit symbols arg asked stream with ⟨tree, middle, outcome⟩
            rw [head] at faults
            cases outcome with
            | error fault => exact faults
            | ok value => exact (rest middle).1
          · intro trees finish emits
            obtain ⟨tree, middle, others, here, behind, rfl⟩ := emitsAll_cons_iff.mp emits
            intro index other request found there
            cases index with
            | zero =>
                cases found
                cases there
                exact first.lodged _ middle here
            | succ index =>
                exact (rest middle).2 others finish behind index other request found there

/-- What the code of an application finds: arguments that are lodged as they were
asked, and that obey its rule unless it is a target. -/
structure Furnished (symbols : Symbols) (operator : String) (args trees : List Node) (type : Ty)
    (requests : List Request) (target : Bool) : Prop where
  alike : AlikeAll args trees
  provided : Provided symbols operator trees (some type)
  rule : operator ≠ "[]" ∨ target = false → Rule Registry.Literal operator trees type
  lodged : LodgedAll symbols requests trees

/-- An application is emitted as it was asked if its plan and its own code lead
there, given arguments that are in their places. -/
theorem delivers_apply {post : Plan → Site → Prop}
    (ih : ∀ arg ∈ args, Deliverable symbols typing arg)
    (fitted : Fitted symbols typing role (apply operator args info)) (typed : info.type = some type)
    (target : role = .target → request.target = true)
    (planned : Leads post ((apply operator args info).planApplication request) ⟨stream, {}⟩)
    (finished : ∀ plan site trees middle, post plan site →
      Furnished symbols operator args trees type plan.args request.target →
        Leads (fun _ finish =>
          (apply operator trees { info with storage := finish.own }).Lodged symbols request)
          ((apply operator trees { info with storage := site.own }).finishApplication symbols
            plan.own)
            ⟨middle, site.own⟩) :
    Delivers symbols (apply operator args info) request stream := by
  have fresh : info.storage = {} := fitted.emittable.unstored _ .root
  have shape := fitted.provided.shape
  have inner (plan : Plan) (site : Site)
      (found : Yields ((apply operator args info).planApplication request) ⟨stream, {}⟩ plan site) :
      Faults Fault.Tolerable (emitAll symbols args plan.args site.stream).outcome ∧
        ∀ trees finish, EmitsAll symbols args plan.args site.stream trees finish →
          LodgedAll symbols plan.args trees :=
    delivers_all ih (fun index arg here => fitted.arg here)
      (fun index asked there => target_of_plan shape found there)
      fun index arg asked here there => fitted.provided.served found here there
  have rule (asked : operator ≠ "[]" ∨ request.target = false) :
      Rule Registry.Literal operator args type := by
    rcases fitted.emittable.ruled typed with rule | ⟨rfl, same, -⟩
    · exact rule
    · rcases asked with other | read
      · exact absurd same other
      · rw [target rfl] at read
        cases read
  have behind (plan : Plan) (site : Site) (trees : List Node) (middle : Stream)
      (found : Yields ((apply operator args info).planApplication request) ⟨stream, {}⟩ plan site)
      (emits : EmitsAll symbols args plan.args site.stream trees middle) :
      Leads (fun _ finish =>
        (apply operator trees { info with storage := finish.own }).Lodged symbols request)
        ((apply operator trees { info with storage := site.own }).finishApplication symbols
            plan.own)
          ⟨middle, site.own⟩ := by
    obtain ⟨_, composed⟩ := composesAll (fun arg _ => composes arg)
      (fun index arg here => fitted.emittable.arg here) (length_of_plan found)
      (fun index asked there => target_of_plan shape found there) emits
    have alike := alikeAll_of_unstoreds composed.same
    exact finished plan site trees middle (planned.reaches plan site found)
      ⟨alike, typed ▸ fitted.provided.follow alike, fun asked => (rule asked).follows alike.follows,
        (inner plan site found).2 trees middle emits⟩
  refine ⟨faults_emit_apply ?_ ?_ ?_, ?_⟩
  · rw [fresh]
    exact planned.faults
  · rw [fresh]
    intro plan site found
    exact (inner plan site found).1
  · rw [fresh]
    intro plan site trees middle found emits
    exact (behind plan site trees middle found emits).faults
  · intro tree finish emits
    obtain ⟨plan, site, trees, middle, own, found, arguments, last, rfl⟩ := emits_apply_iff.mp emits
    rw [fresh] at found
    exact (behind plan site trees middle found arguments).reaches () _ last

end Trees

section Steps

variable {description : Description} {site : Site}

theorem leads_planned {post : Plan → Site → Prop}
    (known : OperatorTable.language.lookup node = .ok description)
    (leads : Leads post (description.operator.plan node request) site)
    (lengths : ∀ plan finish, post plan finish → plan.args.length = node.args.length) :
    Leads post (node.planApplication request) site := by
  unfold planApplication
  rw [known]
  refine leads.bind ?_
  intro plan finish holds
  rw [if_pos (lengths plan finish holds)]
  exact leads_pure holds

/-- Most operators leave everything as it is until their arguments are emitted. -/
theorem leads_plannedAs {plan : Plan} (known : OperatorTable.language.lookup node = .ok description)
    (same : description.operator.plan node request = pure plan)
    (lengths : plan.args.length = node.args.length) :
    Leads (fun planned finish => finish = site ∧ planned = plan)
      (node.planApplication request) site := by
  refine leads_planned known (same ▸ leads_pure ⟨rfl, rfl⟩) ?_
  rintro _ _ ⟨-, rfl⟩
  exact lengths

theorem leads_finished {post : Unit → Site → Prop}
    (known : OperatorTable.language.lookup node = .ok description)
    (leads : Leads post (description.operator.emit symbols node request) site) :
    Leads post (node.finishApplication symbols request) site := by
  unfold finishApplication
  rw [known]
  exact leads

end Steps

end TraceProbe.Node
