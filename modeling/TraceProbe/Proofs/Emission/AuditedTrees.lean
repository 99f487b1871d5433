import TraceProbe.Proofs.Emission.AuditedElements
import TraceProbe.Proofs.Emission.AuditedOperators
import TraceProbe.Proofs.Emission.Literals

/-!
# Trees under audit

Whatever is emitted for a tree writes the storage of its value, and every call
of a map helper in it is made with what is asked of it.  By induction on the
tree.
-/

namespace TraceProbe

open Insn

variable {good : Helper → Facts → Prop} {written : Int → Prop} {symbols : Symbols}
  {slots : Int16 → Nat → Prop} {targets : Node → Prop} {request : Request} {role : Role}
  {stream middle finish : Stream} {node tree : Node}

theorem Stream.Cleared.audits {region : Int → Prop} (cleared : stream.Cleared finish region) :
    stream.Audits good written finish region := by
  obtain ⟨slots, code, below, covered⟩ := cleared
  refine ⟨_, code, ?_⟩
  suffices Audit good written (slots.flatMap fun slot => Block.clear slot.1 slot.2) fun position =>
      ∃ slot ∈ slots, Slot slot.1 slot.2 position from this.weaken (fun _ => id) covered
  clear code covered
  induction slots generalizing written with
  | nil => exact Audit.nil.weaken (fun _ none => none) fun _ ⟨_, member, _⟩ => by cases member
  | cons slot slots ih =>
      have high := below slot List.mem_cons_self
      have first : Audit good written (Block.clear slot.1 slot.2) (Slot slot.1 slot.2) :=
        Block.audit_clear fun position ⟨_, inside⟩ => by omega
      refine (first.append (ih fun other member =>
        below other (List.mem_cons_of_mem _ member))).weaken
        (fun _ => id) ?_
      rintro position ⟨other, member, inside⟩
      rcases List.mem_cons.mp member with rfl | later
      · exact .inl inside
      · exact .inr ⟨other, later, inside⟩

namespace Node

open AtSite

/-- What is written behind a tree: its value, unless it is a target, and the values
of its arguments if it is an element. -/
def Wrote (request : Request) (tree : Node) (position : Int) : Prop :=
  request.target = false ∧ tree.storage.Covers position ∨
    tree.applies "[]" = true ∧ ∃ arg ∈ tree.args, arg.storage.Covers position

theorem Composed.fillable {sure : Prop} {literal : List Ty → Ty → Prop} {moves : List Move}
    (composed : Composed sure literal node request stream tree finish moves)
    (fit : Fit literal request stream tree.storage) : tree.storage.Fillable := by
  constructor
  · intro placed
    obtain ⟨move, member, fills⟩ := composed.filled tree .root _ placed
    obtain ⟨_, same, -⟩ := composed.fresh move member _ fills
    cases same
  · intro position covers
    rcases composed.own fit position covers with ⟨-, high⟩ | claims
    · omega
    · exact (fit.inside position claims).2

/-- A tree in the middle of an emission: it is typed and marked, there is room for
its value, and what it hands out and assigns to is known. -/
structure Tracked (symbols : Symbols) (slots : Int16 → Nat → Prop)
    (targets : Node → Prop) (role : Role)
    (request : Request) (stream : Stream) (node tree : Node) (finish : Stream) : Prop where
  emittable : Emittable Registry.Literal symbols role node
  noted : node.AllNoted symbols
  fit : Fit Registry.Literal request stream tree.storage
  handed : ∀ offset size, stream.HandsOut finish offset size → slots offset size
  among : ∀ target value info, PartOf (apply "=" [target, value] info) tree → targets target
  asked : role = .target → request.target = true
  element : request.target = true → node.applies "[]" = true

/-- The key of an element that is emitted was put in a slot that was handed out. -/
theorem Tracked.subscript
    (tracked : Tracked symbols slots targets role request stream node tree finish)
    (emits : Emits symbols node request stream tree finish) (element : node.applies "[]" = true)
    (ready : ∀ key ∈ tree.args, ∀ position, key.storage.Covers position → written position) :
    Element symbols slots written tree := by
  obtain ⟨args, info, rfl⟩ : ∃ args info, node = apply "[]" args info := by
    cases node with
    | apply operator args info =>
        obtain rfl : operator = "[]" := by simpa [applies, operator?] using element
        exact ⟨args, info, rfl⟩
    | ident _ _ | str _ _ | num _ _ _ => simp [applies, operator?] at element
  obtain ⟨plan, site, trees, reached, stored, before, inner, behind, planned, found,
    applied, placed, rfl⟩ :=
    applied_of_emits (fun arg _ => composes arg) tracked.emittable emits
  refine ⟨rfl, fun key second => ready key (List.mem_of_getElem? second), ?_,
    fun keyed refers => named_of_emits tracked.emittable tracked.noted emits keyed refers⟩
  intro key second offset there
  obtain ⟨_, asked, first, last, _, _, argument⟩ :=
    applied.argument (fun index arg found => tracked.emittable.arg found) second
  have shape := tracked.emittable.shaped "[]" args info .root
  have free :=
    (passive_of_plan shape rfl planned).1.free asked (List.mem_of_getElem? argument.requested)
  obtain ⟨_, composed⟩ := argument.composed
  obtain ⟨_, started⟩ := argument.starts
  exact tracked.handed offset _ ((composed.reserved free offset there).mono
    (applied.around.plans.extended.trans started)
    (argument.rest.moved.extended.trans applied.around.finishes.extended))

/-- Several trees in the middle of an emission. -/
structure TrackedAll (symbols : Symbols) (slots : Int16 → Nat → Prop) (targets : Node → Prop)
    (roles : Nat → Role)
    (requests : List Request) (room : Int → Prop) (stream : Stream) (nodes trees : List Node)
    (finish : Stream) : Prop where
  emittable : ∀ (index : Nat) (node : Node), nodes[index]? = some node →
    Emittable Registry.Literal symbols (roles index) node
  noted : ∀ node ∈ nodes, node.AllNoted symbols
  lengths : requests.length = nodes.length
  fit : FitAll Registry.Literal requests stream trees room
  handed : ∀ offset size, stream.HandsOut finish offset size → slots offset size
  among : ∀ tree ∈ trees, ∀ target value info, PartOf (apply "=" [target, value] info) tree →
      targets target
  asked : ∀ (index : Nat) (asked : Request), requests[index]? = some asked → roles index = .target →
    asked.target = true
  element : ∀ (index : Nat) (asked : Request) (node : Node), requests[index]? = some asked →
    nodes[index]? = some node → asked.target = true → node.applies "[]" = true

/-- What is written behind several trees. -/
def WroteAll (requests : List Request) (trees : List Node) (position : Int) : Prop :=
  ∃ (index : Nat) (asked : Request) (tree : Node), requests[index]? = some asked ∧
    trees[index]? = some tree ∧ Wrote asked tree position

/-- Every emission of a tree passes an audit. -/
def Audited (symbols : Symbols) (slots : Int16 → Nat → Prop) (targets : Node → Prop)
    (node : Node) : Prop :=
  ∀ (role : Role) (request : Request) (stream : Stream) (tree : Node) (finish : Stream),
    Tracked symbols slots targets role request stream node tree finish →
      Emits symbols node request stream tree finish → ∀ written : Int → Prop,
        stream.Audits (Facts.Agrees symbols slots targets) written finish (Wrote request tree)

theorem auditsAll {roles : Nat → Role} {requests : List Request} {room : Int → Prop}
    {nodes trees : List Node} (each : ∀ node ∈ nodes, Audited symbols slots targets node)
    (tracked : TrackedAll symbols slots targets roles requests room stream nodes trees finish)
    (emits : EmitsAll symbols nodes requests stream trees finish) (written : Int → Prop) :
    stream.Audits (Facts.Agrees symbols slots targets) written finish
      (WroteAll requests trees) := by
  induction nodes generalizing roles requests stream trees written with
  | nil =>
      obtain ⟨rfl, rfl⟩ := emitsAll_nil_iff.mp emits
      refine (Stream.Audits.same rfl).weaken (fun _ none => none) ?_
      rintro position ⟨_, _, _, _, here, _⟩
      simp at here
  | cons node nodes ih =>
      cases requests with
      | nil => cases tracked.lengths
      | cons asked requests =>
          obtain ⟨tree, middle, others, first, rest, rfl⟩ := emitsAll_cons_iff.mp emits
          obtain ⟨moves, composed⟩ := composes node _ _ _ _ _ (tracked.emittable 0 node rfl) first
          obtain ⟨more, composedAll⟩ := composesAll (fun arg _ => composes arg)
            (fun index node found => tracked.emittable (index + 1) node found)
            (Nat.succ.inj tracked.lengths)
            (fun index asked found => tracked.asked (index + 1) asked found) rest
          have before := composed.moved.extended
          have after := composedAll.moved.extended
          have here : Tracked symbols slots targets (roles 0) asked stream node tree middle :=
            ⟨tracked.emittable 0 node rfl, tracked.noted node List.mem_cons_self, tracked.fit.first,
              fun offset size hands => tracked.handed offset size (hands.mono (.refl stream) after),
              tracked.among tree List.mem_cons_self, tracked.asked 0 asked rfl,
              tracked.element 0 asked node rfl rfl⟩
          have later : TrackedAll symbols slots targets (fun index => roles (index + 1))
              requests room middle
              nodes others finish :=
            ⟨fun index => tracked.emittable (index + 1),
              fun other member => tracked.noted other (List.mem_cons_of_mem _ member),
              Nat.succ.inj tracked.lengths, tracked.fit.rest before,
              fun offset size hands =>
                tracked.handed offset size (hands.mono before (.refl finish)),
              fun other member => tracked.among other (List.mem_cons_of_mem _ member),
              fun index => tracked.asked (index + 1), fun index => tracked.element (index + 1)⟩
          refine ((each node List.mem_cons_self _ _ _ _ _ here first written).append
            (ih (fun other member => each other (List.mem_cons_of_mem _ member))
              later rest _)).weaken
              (fun _ => id) ?_
          rintro position ⟨index, request, part, there, found, wrote⟩
          cases index with
          | zero =>
              cases there
              cases found
              exact .inl wrote
          | succ index => exact .inr ⟨index, request, part, there, found, wrote⟩

theorem audited_leaf (leaf : node.operator? = none) : Audited symbols slots targets node := by
  intro role request stream tree finish tracked emits written
  obtain ⟨own, found, rfl⟩ := (emits_leaf_iff leaf).mp emits
  obtain ⟨moves, composed⟩ := composes node _ _ _ _ _ tracked.emittable emits
  rw [tracked.emittable.unstored node .root] at found
  have fillable := composed.fillable tracked.fit
  rw [storage_withStorage] at fillable
  refine (audits_leaf leaf fillable found).weaken (fun _ => id) ?_
  rintro position (⟨-, covers⟩ | ⟨element, -⟩)
  · rwa [storage_withStorage] at covers
  · simp [applies, leaf] at element

section Applications

variable {operator : String} {args trees : List Node} {info : Info} {plan : Plan} {site : Site}
  {type : Ty} {own chosen : Storage} {reserved : Stream} {sure : Prop}
  {before inner behind : List Move}

/-- Only elements are targets. -/
theorem element_of_request (shape : Shape operator args) (typed : info.type = some type)
    (free : ∀ arg ∈ args, arg.storage.isAssigned = false)
    (found : Yields ((apply operator args info).planApplication request) ⟨stream, {}⟩ plan site)
    {index : Nat}
    {asked : Request} {arg : Node} (there : plan.args[index]? = some asked)
    (here : args[index]? = some arg) (target : asked.target = true) : arg.applies "[]" = true := by
  by_cases special : operator ≠ "=" ∧ operator ≠ "delete"
  · have read := untargeted_of_plan shape special.1 special.2 typed free found asked
        (List.mem_of_getElem? there)
    rw [read] at target
    cases target
  · cases shape with
    | assign value element =>
        obtain ⟨_, _, slot, -, -, -, -, -, asks⟩ := reserved_assign found
        rw [asks] at there
        obtain _ | _ | index := index
        · cases here
          exact element
        · cases there
          split at target <;> cases target
        · cases there
    | delete element =>
        obtain rfl := List.mem_singleton.mp (List.mem_of_getElem? here)
        exact element
    | _ => exact absurd ⟨by decide, by decide⟩ special

section Tracked

variable (tracked : Tracked symbols slots targets role request stream (apply operator args info)
    (apply operator trees { info with storage := own }) finish)
  (planned : Yields ((apply operator args info).planApplication request) ⟨stream, {}⟩
      plan ⟨reserved, chosen⟩)
  (applied : Applied symbols sure Registry.Literal operator args request plan stream reserved trees
    middle finish own before inner behind)

include tracked

include applied

theorem Tracked.small : middle.limit ≤ 32767 := by
  have extended := applied.around.plans.extended.trans applied.composed.moved.extended
  rw [extended.limit]
  exact tracked.fit.small

theorem Tracked.handed_behind (offset : Int16) (size : Nat)
    (hands : middle.HandsOut finish offset size) :
    slots offset size := by
  have extended := applied.around.plans.extended.trans applied.composed.moved.extended
  exact tracked.handed offset size (hands.mono extended (.refl finish))

include planned

theorem Tracked.arguments : ∃ room,
    TrackedAll symbols slots targets (Role.of operator args) plan.args room
    reserved args trees middle := by
  obtain ⟨type, typed⟩ := typed_of_sound tracked.emittable.sound.here
  have shape := tracked.emittable.shaped operator args info .root
  have around := applied.around
  exact ⟨_,
    { emittable := fun index arg found => tracked.emittable.arg found
      noted := fun arg => tracked.noted.inner
      lengths := applied.lengths
      fit := around.fitAll tracked.fit around.plans.extended
      handed := by
        intro offset size hands
        exact tracked.handed offset size (hands.mono around.plans.extended around.finishes.extended)
      among := by
        intro tree member target value other inside
        exact tracked.among target value other (.inner member inside)
      asked := by
        intro index asked found target
        have assigns := Role.of_eq_target_iff.mp target
        exact around.targets index asked found (Role.of_eq_target_iff.mpr assigns)
      element := by
        intro index asked arg there here
        exact element_of_request shape typed tracked.emittable.unstored.args_free planned there
          here }⟩

theorem Tracked.argument {index : Nat} (here : trees[index]? = some tree) :
    ∃ node asked first last, plan.args[index]? = some asked ∧
      Emits symbols node asked first tree last ∧
      tree.Placed asked ∧ tree.storage.Fillable ∧ tree.bare = node.bare ∧
      Tracked symbols slots targets (Role.of operator args index) asked first node tree last := by
  obtain ⟨node, asked, first, last, _, _, argument⟩ :=
    applied.argument (fun index arg found => tracked.emittable.arg found) here
  obtain ⟨_, composed⟩ := argument.composed
  obtain ⟨_, started⟩ := argument.starts
  have fit := argument.roomy applied.around tracked.fit here
  obtain ⟨_, all⟩ := tracked.arguments planned applied
  have same : tree.bare = node.bare := by
    have unstored := congrArg bare composed.same
    rwa [bare_unstored, bare_unstored] at unstored
  refine ⟨node, asked, first, last, argument.requested, argument.emits, composed.placed,
    composed.fillable fit, same, ?_⟩
  exact
    { emittable := all.emittable index node argument.given
      noted := all.noted node (List.mem_of_getElem? argument.given)
      fit := fit
      handed := by
        intro offset size hands
        exact all.handed offset size (hands.mono started argument.rest.moved.extended)
      among := all.among tree (List.mem_of_getElem? here)
      asked := all.asked index asked argument.requested
      element := all.element index asked node argument.requested argument.given }

theorem Tracked.written_of_arg {index : Nat} {arg : Node} {position : Int}
    (here : trees[index]? = some arg)
    (value : ∀ asked, plan.args[index]? = some asked → asked.target = false)
    (covers : arg.storage.Covers position) :
    WroteAll plan.args trees position := by
  obtain ⟨_, asked, _, _, there, -⟩ := tracked.argument planned applied here
  exact ⟨index, asked, arg, there, here, .inl ⟨value asked there, covers⟩⟩

/-- Operators that ask for no targets have the values of all arguments written. -/
theorem Tracked.values (noAssign : operator ≠ "=") (noDelete : operator ≠ "delete") {arg : Node}
    {position : Int} (member : arg ∈ trees) (covers : arg.storage.Covers position) :
    WroteAll plan.args trees position := by
  obtain ⟨type, typed⟩ := typed_of_sound tracked.emittable.sound.here
  obtain ⟨index, here⟩ := List.mem_iff_getElem?.mp member
  refine tracked.written_of_arg planned applied here ?_ covers
  intro asked there
  exact untargeted_of_plan (tracked.emittable.shaped operator args info .root)
    noAssign noDelete typed
    tracked.emittable.unstored.args_free planned asked (List.mem_of_getElem? there)

theorem Tracked.target {index : Nat} {target : Node} (here : trees[index]? = some target)
    (element : target.applies "[]" = true) :
    Element symbols slots (fun position => written position ∨ WroteAll plan.args trees position)
      target := by
  obtain ⟨_, asked, _, _, there, emits, -, -, bare, tracked'⟩ :=
    tracked.argument planned applied here
  refine tracked'.subscript emits (applies_of_bare bare "[]" ▸ element)
    fun key member position covers => .inr ?_
  exact ⟨index, asked, target, there, here, .inr ⟨element, key, member, covers⟩⟩

end Tracked

theorem audited_structLiteral (each : ∀ arg ∈ args, Audited symbols slots targets arg) :
    Audited symbols slots targets (apply ":struct" args info) := by
  intro role request stream tree finish tracked emits written
  obtain ⟨shape, base, plan, reserved, trees, planned, inner, finished, typed, rfl,
    plans, assembled⟩ :=
    assembled_of_emits tracked.emittable emits tracked.fit
  have applied := assembled.applied
  obtain ⟨room, all⟩ := tracked.arguments plans applied
  have arguments := auditsAll each all applied.emits
  refine (assembled.cleared.audits.append (arguments _)).weaken (fun _ => id) ?_
  rintro position (⟨-, covers⟩ | ⟨element, -⟩)
  · obtain ⟨low, high⟩ := Storage.covers_slot.mp covers
    obtain ⟨distance, rfl⟩ : ∃ distance : Nat, position = base.toInt + distance :=
      ⟨(position - base.toInt).toNat, by omega⟩
    rcases assembled.covered typed (by omega : distance < (Ty.record shape).size) with
      gap | ⟨arg, offset, type, ⟨_, _, _, field, index, same, typed', found, here⟩,
          valued, first, last⟩
    · exact .inl ⟨distance, rfl, gap⟩
    · cases same
      cases typed.symm.trans typed'
      obtain ⟨_, _, place, found', valued', stored, reached⟩ := assembled.members index arg here
      cases found.symm.trans found'
      cases valued.symm.trans valued'
      refine .inr
        (tracked.values plans applied (by decide) (by decide) (List.mem_of_getElem? here) ?_)
      rw [stored]
      exact Storage.covers_slot.mpr ⟨by omega, by omega⟩
  · cases element

/-- An assignment converts its value into the slot of its target, whose key is
written. -/
theorem Tracked.assigned {target value : Node}
    (tracked : Tracked symbols slots targets role request stream (apply "=" args info)
      (apply "=" [target, value] { info with storage := own }) finish)
    (planned : Yields ((apply "=" args info).planApplication request) ⟨stream, {}⟩
      plan ⟨reserved, chosen⟩)
    (found : Yields
      ((apply "=" [target, value] { info with storage := chosen }).finishApplication symbols
        plan.own)
      ⟨middle, chosen⟩ () ⟨finish, own⟩)
    (applied : Applied symbols sure Registry.Literal "=" args request plan stream reserved
      [target, value] middle finish own before inner behind)
    (fillable : own.Fillable) (rule : Rule Registry.Literal "=" [target, value] type)
    (element : target.applies "[]" = true) :
    stream.Extends reserved [] ∧ middle.Audits (Facts.Agrees symbols slots targets)
      (fun position => written position ∨ WroteAll plan.args [target, value] position)
        finish own.Covers := by
  have supplied := supplied_of_composed applied.lengths applied.composed
  obtain ⟨target', value', rfl, -, -⟩ := two_of_bares supplied.bares.symm
  obtain ⟨targetType, valueType, slot, knownTarget, known, whole, extended, owns, asks⟩ :=
    reserved_assign planned
  have knownTarget := (supplied.types 0 target' target rfl rfl).trans knownTarget
  obtain ⟨_, _, same, -, real, -⟩ := rule.assigned rfl rfl
  rw [knownTarget] at same
  cases same
  obtain rfl : chosen = ⟨.slot slot, targetType.size⟩ := whole
  have first : plan.args[0]? = some (Request.inSlot slot).asTarget := by
    rw [asks]
    rfl
  have placed := supplied.placed 0 target _ rfl first
  have element' : Element symbols slots
      (fun position => written position ∨ WroteAll plan.args [target, value] position) target :=
    tracked.target planned applied (show [target, value][0]? = some target from rfl) element
  have plain : ∀ asked, plan.args[1]? = some asked → asked.target = false := by
    intro asked there
    rw [asks] at there
    cases there
    split <;> rfl
  have valued : ∀ position, value.storage.Covers position →
      written position ∨ WroteAll plan.args [target, value] position := by
    intro position covers
    have second : [target, value][1]? = some value := rfl
    exact .inr (tracked.written_of_arg planned applied second plain covers)
  have whole := placed.whole rfl knownTarget real
  exact ⟨extended, audits_assign element' (tracked.small applied) (tracked.handed_behind applied)
    (tracked.among _ _ _ .root) knownTarget fillable rfl whole valued found⟩

/-- A subscript reads an element with its key, unless it is a target. -/
theorem Tracked.subscripted {collection key : Node}
    (tracked : Tracked symbols slots targets role request stream (apply "[]" args info)
      (apply "[]" [collection, key] { info with storage := own }) finish)
    (emits : Emits symbols (apply "[]" args info) request stream
      (apply "[]" [collection, key] { info with storage := own }) finish)
    (planned : Yields ((apply "[]" args info).planApplication request)
      ⟨stream, {}⟩ plan ⟨stream, {}⟩)
    (found : Yields
      ((apply "[]" [collection, key] { info with storage := {} }).finishApplication symbols
        plan.own)
      ⟨middle, {}⟩ () ⟨finish, own⟩)
    (applied : Applied symbols sure Registry.Literal "[]" args request plan stream stream
      [collection, key] middle finish own before inner behind)
    (fillable : own.Fillable) (typed : info.type = some type)
    (rule : Rule Registry.Literal "[]" [collection, key] type)
    (asked : plan.own.target = request.target) :
    middle.Audits (Facts.Agrees symbols slots targets)
      (fun position => written position ∨ WroteAll plan.args [collection, key] position) finish
      fun position => request.target = false ∧ own.Covers position := by
  have values (arg : Node) (member : arg ∈ [collection, key]) (position : Int)
      (covers : arg.storage.Covers position) :
      written position ∨ WroteAll plan.args [collection, key] position :=
    .inr (tracked.values planned applied (by decide) (by decide) member covers)
  obtain ⟨_, _, _, _, -, -, placed, held, -, -⟩ :=
    tracked.argument planned applied (show [collection, key][0]? = some collection from rfl)
  have element := tracked.subscript emits rfl values
  rw [← asked]
  exact audits_subscript typed rule ⟨rfl, element.ready, element.slotted, element.named⟩
    (tracked.small applied) (tracked.handed_behind applied) placed.toStored held fillable
    (values collection List.mem_cons_self) found

/-- Operators other than struct literals write their values behind their
arguments. -/
theorem Tracked.finished
    (tracked : Tracked symbols slots targets role request stream (apply operator args info)
      (apply operator trees { info with storage := own }) finish)
    (emits : Emits symbols (apply operator args info) request stream
      (apply operator trees { info with storage := own }) finish)
    (planned : Yields ((apply operator args info).planApplication request) ⟨stream, {}⟩
      plan ⟨reserved, chosen⟩)
    (found : Yields
      ((apply operator trees { info with storage := chosen }).finishApplication symbols plan.own)
      ⟨middle, chosen⟩ () ⟨finish, own⟩)
    (applied : Applied symbols sure Registry.Literal operator args request plan stream reserved
      trees middle finish own before inner behind)
    (fillable : own.Fillable) (struct : operator ≠ ":struct") :
    stream.Extends reserved [] ∧ middle.Audits (Facts.Agrees symbols slots targets)
      (fun position => written position ∨ WroteAll plan.args trees position) finish
      fun position => request.target = false ∧ own.Covers position := by
  obtain ⟨type, typed⟩ := typed_of_sound tracked.emittable.sound.here
  have typed : info.type = some type := typed
  have typed' : (apply operator trees { info with storage := chosen }).type? = some type := typed
  have shape := tracked.emittable.shaped operator args info .root
  have supplied := supplied_of_composed applied.lengths applied.composed
  have rule :=
    (tracked.emittable.rule_of_finishes typed tracked.asked planned supplied found).follows
    supplied.follows
  have small := tracked.small applied
  have handed := tracked.handed_behind applied
  -- Only elements are targets.
  have valued (audits : middle.Audits (Facts.Agrees symbols slots targets)
      (fun position => written position ∨ WroteAll plan.args trees position) finish own.Covers) :
      middle.Audits (Facts.Agrees symbols slots targets)
        (fun position => written position ∨ WroteAll plan.args trees position) finish
        fun position => request.target = false ∧ own.Covers position :=
    audits.weaken (fun _ => id) fun _ => And.right
  cases shape.of_bares supplied.bares with
  | structLiteral _ => exact absurd rfl struct
  | @assign target value element =>
      obtain ⟨extended, audits⟩ := tracked.assigned planned found applied fillable rule element
      exact ⟨extended, valued audits⟩
  | @delete target element =>
      obtain ⟨passive, same⟩ := passive_of_plan shape rfl planned
      cases same
      have element' : Element symbols slots
          (fun position => written position ∨ WroteAll plan.args [target] position)
          target :=
            tracked.target planned applied (show [target][0]? = some target from rfl) element
      exact ⟨.refl stream, valued (audits_delete element' small handed found)⟩
  | subscript collection key =>
      obtain ⟨passive, same⟩ := passive_of_plan shape rfl planned
      cases same
      exact ⟨.refl stream,
        tracked.subscripted emits planned found applied fillable typed rule passive.target⟩
  | dot named =>
      obtain ⟨passive, same⟩ := passive_of_plan shape rfl planned
      cases same
      exact ⟨.refl stream, valued (audits_dot typed' rule fillable found)⟩
  | deref pointer =>
      obtain ⟨passive, same⟩ := passive_of_plan shape rfl planned
      cases same
      have read : request.target = false := by
        by_contra target
        cases tracked.element (by simpa using target)
      exact ⟨.refl stream, valued
        (audits_deref typed' fillable (passive.target.trans read) found)⟩
  | strcmp left right =>
      obtain ⟨passive, same⟩ := passive_of_plan shape rfl planned
      cases same
      exact ⟨.refl stream, valued (audits_strcmp typed' fillable found)⟩
  | mem source _ =>
      obtain ⟨passive, same⟩ := passive_of_plan shape rfl planned
      cases same
      exact ⟨.refl stream, valued (audits_mem typed' fillable found)⟩
  | str source _ =>
      obtain ⟨passive, same⟩ := passive_of_plan shape rfl planned
      cases same
      exact ⟨.refl stream, valued (audits_str typed' fillable found)⟩

theorem audited_apply (each : ∀ arg ∈ args, Audited symbols slots targets arg) :
    Audited symbols slots targets (apply operator args info) := by
  by_cases struct : operator = ":struct"
  · subst struct
    exact audited_structLiteral each
  intro role request stream tree finish tracked emits written
  obtain ⟨plan, ⟨reserved, chosen⟩, trees, middle, own, before, inner, behind, planned, found,
    applied, placed, rfl⟩ :=
    applied_of_emits (fun arg _ => composes arg) tracked.emittable emits
  have fillable := (applied.around.compose applied.composed placed).fillable tracked.fit
  obtain ⟨room, all⟩ := tracked.arguments planned applied
  have arguments := auditsAll each all applied.emits written
  obtain ⟨start, finished⟩ := tracked.finished emits planned found applied fillable struct
  refine ((arguments.append finished).later start).weaken (fun _ => id) ?_
  rintro position (⟨read, covers⟩ | ⟨element, arg, member, covers⟩)
  · exact .inr ⟨read, covers⟩
  · obtain rfl : operator = "[]" := by simpa [applies, operator?] using element
    exact .inl (tracked.values planned applied (by decide) (by decide) member covers)

/-- Every tree passes its audit. -/
theorem audited (node : Node) : Audited symbols slots targets node := by
  induction node using induct with
  | leaf node leaf => exact audited_leaf leaf
  | apply operator args info ih => exact audited_apply ih

end Applications

end Node

end TraceProbe
