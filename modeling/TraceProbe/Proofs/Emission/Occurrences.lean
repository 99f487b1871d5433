import TraceProbe.Proofs.Emission.Faultless
import TraceProbe.Proofs.Emission.Workable

/-!
# Emissions inside emissions

The emission of statements is made of the emissions of their nodes.  Wherever a
node is emitted it is typed, and its code stands in that of its statement.  If
the frame is small and the registry gives struct literals the structs of their
arguments, then there is room for what is asked of the node, and its value and
those of its arguments lie in the frame.
-/

namespace TraceProbe

/-- The emission of a node: what was asked of it, and what it left behind. -/
structure Emission where
  node : Node
  request : Request
  stream : Stream
  tree : Node
  finish : Stream

/-- Struct literals have the structs of their arguments, if something holds. -/
def Registry.LiteralIf (sure : Prop) (members : List Ty) (type : Ty) : Prop :=
  sure → Literal members type

theorem Registry.gives_literalIf (sure : Prop) :
    Gives (fun registry => sure → registry.Honest) (LiteralIf sure) := by
  intro registry members honest
  constructor
  · intro holds
    exact ((honest holds).anonymousStruct members).1
  · intro holds
    exact ((honest holds).anonymousStruct members).2

namespace Node

variable {sure : Prop} {symbols typing : Symbols} {roles : Nat → Role} {node : Node}
  {nodes trees : List Node} {request : Request} {requests : List Request} {stream finish : Stream}
  {role : Role}

theorem Emittable.literal (emittable : Emittable (Registry.LiteralIf sure) typing role node)
    (holds : sure) :
    Emittable Registry.Literal typing role node := by
  refine emittable.literals ?_
  intro args info inside members type known typed
  obtain ⟨_, given⟩ := emittable.part inside
  obtain ⟨_, typed', rule⟩ := given.rule_structLiteral
  obtain ⟨_, known', literal⟩ := rule.members rfl
  cases typed.symm.trans typed'
  cases known.symm.trans known'
  exact literal holds

/-- Typed nodes are emitted, with room for what is asked of them. -/
structure Ongoing (sure : Prop) (symbols typing : Symbols) (roles : Nat → Role) (nodes : List Node)
    (requests : List Request) (stream : Stream) (trees : List Node) (finish : Stream) : Prop where
  emits : EmitsAll symbols nodes requests stream trees finish
  emittable : ∀ (index : Nat) (node : Node), nodes[index]? = some node →
    Emittable (Registry.LiteralIf sure) typing (roles index) node
  targets : ∀ (index : Nat) (asked : Request), requests[index]? = some asked →
    roles index = .target → asked.target = true
  suits : sure → ∀ (index : Nat) (node : Node) (asked : Request), nodes[index]? = some node →
    requests[index]? = some asked → asked.Suits node stream

end Node

namespace Emission

open Node

/-- An emission is one of those of several nodes, or one inside them. -/
inductive Occurs (symbols : Symbols) (emission : Emission) :
    List Node → List Request → Stream → Prop
  | here (nodes : List Node) (requests : List Request) :
      Emits symbols emission.node emission.request emission.stream emission.tree emission.finish →
        Occurs symbols emission (emission.node :: nodes)
        (emission.request :: requests) emission.stream
  | later {node tree : Node} {nodes : List Node} {request : Request} {requests : List Request}
      {stream middle : Stream} :
      Emits symbols node request stream tree middle →
        Occurs symbols emission nodes requests middle →
        Occurs symbols emission (node :: nodes) (request :: requests) stream
  | inner {operator : String} {args : List Node} {info : Info} {request : Request} {plan : Plan}
      {stream : Stream} {site : Site} (nodes : List Node) (requests : List Request) :
      Yields ((apply operator args info).planApplication request) ⟨stream, info.storage⟩ plan site →
        Occurs symbols emission args plan.args site.stream →
          Occurs symbols emission (apply operator args info :: nodes) (request :: requests) stream

/-- One of typed nodes is emitted, with room for what is asked of it. -/
structure Situated (sure : Prop) (symbols typing : Symbols) (emission : Emission) : Prop where
  emits : Emits symbols emission.node emission.request emission.stream emission.tree emission.finish
  emittable : ∃ role, Emittable (Registry.LiteralIf sure) typing role emission.node ∧
    (role = .target → emission.request.target = true)
  suits : sure → emission.request.Suits emission.node emission.stream

variable {sure : Prop} {symbols typing : Symbols} {roles : Nat → Role} {node tree : Node}
  {nodes trees args : List Node} {request : Request} {requests : List Request}
  {stream middle finish : Stream} {emission : Emission} {operator : String} {info : Info}
  {plan : Plan} {site : Site} {type : Ty}

theorem Situated.composed (situated : emission.Situated sure symbols typing) :
    ∃ sure' moves, Composed sure' (Registry.LiteralIf sure) emission.node
      emission.request emission.stream
      emission.tree emission.finish moves := by
  obtain ⟨role, emittable, -⟩ := situated.emittable
  exact ⟨_, composes _ role _ _ _ _ emittable situated.emits⟩

theorem Situated.unstored (situated : emission.Situated sure symbols typing) :
    emission.node.storage = {} := by
  obtain ⟨role, emittable, -⟩ := situated.emittable
  exact emittable.unstored _ .root

theorem Situated.extended (situated : emission.Situated sure symbols typing) :
    ∃ added, emission.stream.Extends emission.finish added := by
  obtain ⟨_, _, composed⟩ := situated.composed
  exact ⟨_, composed.moved.extended⟩

theorem Situated.fit (situated : emission.Situated sure symbols typing) (holds : sure) :
    Fit (Registry.LiteralIf sure) emission.request emission.stream emission.tree.storage := by
  obtain ⟨_, _, composed⟩ := situated.composed
  obtain ⟨role, emittable, -⟩ := situated.emittable
  obtain ⟨type, typed⟩ := typed_of_sound emittable.sound.here
  have suits := situated.suits holds
  obtain ⟨-, same⟩ := alike_of_emits situated.emits
  have fit := suits.fit typed (fun chosen assigned => ?_) composed.placed.obeyed
  · exact ⟨fit.small, fit.fits, fit.inside, fun _ _ literal => literal holds⟩
  · obtain ⟨slot, asked⟩ := Option.ne_none_iff_exists'.mp chosen
    exact composed.placed.sized type (same.trans typed)
      (suits.inside slot type asked typed).1 assigned

theorem Situated.near (situated : emission.Situated sure symbols typing) (holds : sure) :
    emission.tree.storage.Near := by
  obtain ⟨_, _, composed⟩ := situated.composed
  have fit := situated.fit holds
  have extended := composed.moved.extended
  have small := fit.small
  have fits := extended.fits fit.fits
  have limit := extended.limit
  intro position covers
  rcases composed.own fit position covers with ⟨low, high⟩ | claims
  · exact ⟨by omega, by omega⟩
  · obtain ⟨low, high⟩ := fit.inside position claims
    have used := fit.fits
    exact ⟨by omega, high⟩

end Emission

namespace Node

variable {sure : Prop} {symbols typing : Symbols} {roles : Nat → Role} {node tree : Node}
  {operator : String} {nodes trees args : List Node} {request : Request} {requests : List Request}
  {info : Info} {type : Ty} {stream middle finish : Stream} {plan : Plan} {site : Site}
  {own : Storage} {emission : Emission}

/-- The first of several emissions, and those behind it. -/
theorem Ongoing.cons
    (ongoing : Ongoing sure symbols typing roles (node :: nodes) (request :: requests)
      stream trees finish) :
    ∃ tree middle others, trees = tree :: others ∧
      Emission.Situated sure symbols typing ⟨node, request, stream, tree, middle⟩ ∧
      Ongoing sure symbols typing (fun index => roles (index + 1)) nodes requests
        middle others finish := by
  obtain ⟨tree, middle, others, first, rest, rfl⟩ := emitsAll_cons_iff.mp ongoing.emits
  have situated : Emission.Situated sure symbols typing ⟨node, request, stream, tree, middle⟩ :=
    ⟨first, ⟨_, ongoing.emittable 0 node rfl, ongoing.targets 0 request rfl⟩,
      fun holds => ongoing.suits holds 0 node request rfl rfl⟩
  obtain ⟨added, extended⟩ := situated.extended
  refine ⟨tree, middle, others, rfl, situated, ?_⟩
  exact
    { emits := rest
      emittable := fun index other found => ongoing.emittable (index + 1) other found
      targets := fun index asked found => ongoing.targets (index + 1) asked found
      suits := by
        intro holds index other asked here there
        exact (ongoing.suits holds (index + 1) other asked here there).later extended }

theorem Ongoing.code_prefix
    (ongoing : Ongoing sure symbols typing roles nodes requests stream trees finish) :
    stream.code <+: finish.code := by
  induction nodes generalizing roles requests stream trees with
  | nil =>
      obtain ⟨-, rfl⟩ := emitsAll_nil_iff.mp ongoing.emits
      exact List.prefix_rfl
  | cons node nodes ih =>
      cases requests with
      | nil =>
          cases ongoing.emits
          exact List.prefix_rfl
      | cons request requests =>
          obtain ⟨tree, middle, others, rfl, situated, rest⟩ := ongoing.cons
          obtain ⟨added, extended⟩ := situated.extended
          exact List.IsPrefix.trans ⟨added, extended.code.symm⟩ (ih rest)

/-- What the emission of an application goes through. -/
structure Opened (sure : Prop) (symbols typing : Symbols) (operator : String) (args : List Node)
    (info : Info) (request : Request) (stream : Stream) (type : Ty) (plan : Plan) (site : Site)
    (trees : List Node) (middle : Stream) (own : Storage) (finish : Stream) : Prop where
  typed : info.type = some type
  shape : Shape operator args
  unstored : ∀ arg ∈ args, arg.storage.isAssigned = false
  rule : Rule (Registry.LiteralIf sure) operator args type
  plans : Yields ((apply operator args info).planApplication request) ⟨stream, {}⟩ plan site
  arguments : Ongoing sure symbols typing (Role.of operator args) args plan.args
      site.stream trees middle
  supplied : Supplied plan args trees
  held : sure → ∀ tree ∈ trees, tree.Held
  near : sure → own.Near
  finishes :
      Yields ((apply operator trees { info with storage := site.own }).finishApplication symbols
    plan.own) ⟨middle, site.own⟩ () ⟨finish, own⟩
  before : ∃ added, stream.Extends site.stream added
  within : ∃ added, site.stream.Extends middle added
  behind : ∃ added, middle.Extends finish added

theorem opened_of_situated
    (situated : Emission.Situated sure symbols typing
      ⟨apply operator args info, request, stream, tree, finish⟩) :
    ∃ type plan site trees middle own, tree = apply operator trees { info with storage := own } ∧
      Opened sure symbols typing operator args info request stream type plan site trees
        middle own finish := by
  obtain ⟨role, emittable, target⟩ := situated.emittable
  obtain ⟨type, typed⟩ := typed_of_sound emittable.sound.here
  have typed : info.type = some type := typed
  have shape := emittable.shaped operator args info .root
  obtain ⟨plan, site, trees, middle, own, planned, inner, finished, plans,
    finishes, applied, -, rfl⟩ :=
    applied_of_emits (fun arg _ => composes arg) emittable situated.emits
  have unstored := emittable.unstored.args_free
  have around := applied.around
  have supplied := supplied_of_composed applied.lengths applied.composed
  have suits (holds : sure) :
      ∀ (index : Nat) (arg : Node) (asked : Request), args[index]? = some arg →
        plan.args[index]? = some asked → asked.Suits arg site.stream :=
    (planned_of_yields shape typed ((emittable.literal holds).rule typed) unstored
      (situated.suits holds) plans).suits
  have held (holds : sure) : ∀ tree ∈ trees, tree.Held := by
    have literal := emittable.literal holds
    obtain ⟨moves, composed⟩ := composesAll (fun arg _ => composes arg)
      (fun index arg here => literal.arg here) applied.lengths
      (fun index asked there => target_of_plan shape plans there) applied.emits
    have fit := situated.fit holds
    have extended := around.plans.extended
    have small : site.stream.limit ≤ 32767 := extended.limit ▸ fit.small
    have known : ∀ arg ∈ args, ∃ type, arg.type? = some type := by
      intro arg member
      obtain ⟨index, here⟩ := List.mem_iff_getElem?.mp member
      exact typed_of_sound (emittable.arg here).sound.here
    exact held_of_near supplied
      (near_of_composed composed supplied known small (extended.fits fit.fits) (suits holds))
  refine ⟨type, plan, site, trees, middle, own, rfl, ?_⟩
  exact
    { typed := typed
      shape := shape
      unstored := unstored
      rule := emittable.rule_of_finishes typed target plans supplied finishes
      plans := plans
      arguments :=
        { emits := applied.emits
          emittable := fun index arg found => emittable.arg found
          targets := fun index asked found => target_of_plan shape plans found
          suits := suits }
      supplied := supplied
      held := held
      near := situated.near
      finishes := finishes
      before := ⟨_, around.plans.extended⟩
      within := ⟨_, applied.composed.moved.extended⟩
      behind := ⟨_, around.finishes.extended⟩ }

end Node

namespace Emission

open Node

variable {sure : Prop} {symbols typing : Symbols} {roles : Nat → Role} {emission : Emission}
  {nodes trees : List Node} {requests : List Request} {stream finish : Stream}

/-- What one step leads to: the emission of an application goes on with its
arguments, and ends behind them. -/
theorem Situated.arguments {operator : String} {args : List Node} {info : Info} {request : Request}
    {tree : Node} {plan : Plan} {site : Site}
    (situated : Situated sure symbols typing
      ⟨apply operator args info, request, stream, tree, finish⟩)
    (planned : Yields ((apply operator args info).planApplication request)
      ⟨stream, info.storage⟩ plan site) :
    ∃ trees middle,
      Ongoing sure symbols typing (Role.of operator args) args plan.args site.stream trees middle ∧
      site.stream.limit = stream.limit ∧ middle.code <+: finish.code := by
  obtain ⟨type, plan', site', trees, middle, own, -, opened⟩ := opened_of_situated situated
  rw [show info.storage = {} from situated.unstored] at planned
  cases planned.symm.trans opened.plans
  obtain ⟨_, before⟩ := opened.before
  obtain ⟨added, behind⟩ := opened.behind
  exact ⟨trees, middle, opened.arguments, before.limit, ⟨added, behind.code.symm⟩⟩

/-- Every emission inside that of typed nodes is that of a typed node, and its code
stands in theirs. -/
theorem Occurs.situated (occurs : emission.Occurs symbols nodes requests stream)
    (ongoing : Ongoing sure symbols typing roles nodes requests stream trees finish) :
    emission.Situated sure symbols typing ∧ emission.stream.limit = stream.limit ∧
      emission.finish.code <+: finish.code := by
  -- Induction on where the emission occurs.
  induction occurs generalizing roles trees finish with
  | here nodes requests emits =>
      obtain ⟨tree, middle, others, rfl, situated, rest⟩ := ongoing.cons
      cases emits.symm.trans situated.emits
      exact ⟨situated, rfl, rest.code_prefix⟩
  | later emits _ ih =>
      obtain ⟨tree, middle, others, rfl, situated, rest⟩ := ongoing.cons
      cases emits.symm.trans situated.emits
      obtain ⟨_, extended⟩ := situated.extended
      obtain ⟨inside, limit, code⟩ := ih rest
      exact ⟨inside, limit.trans extended.limit, code⟩
  | inner nodes requests planned _ ih =>
      obtain ⟨tree, middle, others, rfl, situated, rest⟩ := ongoing.cons
      obtain ⟨trees, last, arguments, limit, code⟩ := situated.arguments planned
      obtain ⟨inside, limit', code'⟩ := ih arguments
      exact ⟨inside, limit'.trans limit, code'.trans (code.trans rest.code_prefix)⟩

/-- What occurs in the emission of one of several nodes occurs in theirs. -/
theorem occurs_of_mem {root : Node} {holds : Emission → Prop}
    (ongoing : Ongoing sure symbols typing roles nodes requests stream trees finish)
    (lengths : requests.length = nodes.length) (member : root ∈ nodes)
    (each : ∀ request stream tree finish,
      Situated sure symbols typing ⟨root, request, stream, tree, finish⟩ →
      ∀ nodes requests, ∃ emission, holds emission ∧
        emission.Occurs symbols (root :: nodes) (request :: requests) stream) :
    ∃ emission, holds emission ∧ emission.Occurs symbols nodes requests stream := by
  induction nodes generalizing roles requests stream trees with
  | nil => cases member
  | cons node nodes ih =>
      cases requests with
      | nil => cases lengths
      | cons request requests =>
          obtain ⟨tree, middle, others, rfl, situated, rest⟩ := ongoing.cons
          rcases List.mem_cons.mp member with rfl | behind
          · exact each _ _ _ _ situated nodes requests
          · obtain ⟨emission, found, occurs⟩ := ih rest (Nat.succ.inj lengths) behind
            exact ⟨emission, found, .later situated.emits occurs⟩

theorem exists_occurs {root part : Node}
    (ongoing : Ongoing sure symbols typing roles nodes requests stream trees finish)
    (lengths : requests.length = nodes.length) (member : root ∈ nodes) (inside : PartOf part root) :
    ∃ emission : Emission, emission.node = part ∧
      emission.Occurs symbols nodes requests stream := by
  -- Induction on where the part is.
  induction inside generalizing roles nodes requests stream trees finish with
  | root =>
      refine occurs_of_mem ongoing lengths member ?_
      intro request stream tree finish situated nodes requests
      exact ⟨⟨_, request, stream, tree, finish⟩, rfl, .here nodes requests situated.emits⟩
  | inner among _ ih =>
      refine occurs_of_mem ongoing lengths member ?_
      intro request stream tree finish situated nodes requests
      obtain ⟨_, plan, site, trees, middle, _, -, opened⟩ := opened_of_situated situated
      obtain ⟨emission, same, occurs⟩ := ih opened.arguments opened.supplied.lengths among
      have plans := opened.plans
      rw [← situated.unstored] at plans
      exact ⟨emission, same, .inner nodes requests plans occurs⟩

end Emission

end TraceProbe
