import TraceProbe.Node.Basic

/-!
# Parts of trees

The nodes of a tree, and trees with other records on their nodes.  The passes
after expansion change nothing but the records.
-/

namespace TraceProbe.Node

/-- The nodes of a tree, the root included. -/
inductive PartOf (part : Node) : Node → Prop
  | root : PartOf part part
  | inner {operator : String} {args : List Node} {info : Info} {arg : Node} :
      arg ∈ args → PartOf part arg → PartOf part (apply operator args info)

/-- A tree as it is built: nothing is recorded but source positions. -/
def Fresh (node : Node) : Prop :=
  ∀ part, PartOf part node →
    part.info.type = none ∧ part.info.storage = {} ∧ part.info.isVirtual = false

/-- A tree with a type on every node. -/
def Complete (node : Node) : Prop :=
  ∀ part, PartOf part node → part.type?.isSome = true

mutual

/-- The tree with other records. -/
def mapInfo (change : Info → Info) : Node → Node
  | apply operator args info => apply operator (mapInfos change args) (change info)
  | ident name info => ident name (change info)
  | str value info => str value (change info)
  | num value unsigned info => num value unsigned (change info)
termination_by structural node => node

/-- Several trees with other records. -/
def mapInfos (change : Info → Info) : List Node → List Node
  | [] => []
  | node :: nodes => mapInfo change node :: mapInfos change nodes
termination_by structural nodes => nodes

end

/-- The tree without its records. -/
def bare (node : Node) : Node :=
  node.mapInfo fun _ => {}

/-- The tree without what inference finds out about it. -/
def untyped (node : Node) : Node :=
  node.mapInfo fun info => { info with type := none, isVirtual := false }

/-- The tree without its storages. -/
def unstored (node : Node) : Node :=
  node.mapInfo fun info => { info with storage := {} }

/-- A tree without storage on any node. -/
def Unstored (node : Node) : Prop :=
  ∀ part, PartOf part node → part.storage = {}

@[elab_as_elim]
theorem induct {motive : Node → Prop} (leaf : ∀ node : Node, node.operator? = none → motive node)
    (apply : ∀ operator args info, (∀ arg ∈ args, motive arg) → motive (apply operator args info))
    (node : Node) : motive node := by
  refine @Node.rec motive (fun nodes => ∀ node ∈ nodes, motive node) ?apply ?ident ?str ?num
    ?nil ?cons node
  case apply => exact fun operator args info inner => apply operator args info inner
  case ident => exact fun name info => leaf (ident name info) rfl
  case str => exact fun value info => leaf (str value info) rfl
  case num => exact fun value unsigned info => leaf (num value unsigned info) rfl
  case nil =>
    intro _ member
    cases member
  case cons =>
    intro _ _ first others other member
    rcases List.mem_cons.mp member with rfl | later
    · exact first
    · exact others other later

mutual

/-- The nodes of a tree in a list, the root first. -/
def parts : Node → List Node
  | apply operator args info => apply operator args info :: partsOf args
  | ident name info => [ident name info]
  | str value info => [str value info]
  | num value unsigned info => [num value unsigned info]
termination_by structural node => node

/-- The nodes of several trees. -/
def partsOf : List Node → List Node
  | [] => []
  | node :: nodes => parts node ++ partsOf nodes
termination_by structural nodes => nodes

end

section PartOf

variable {part operand : Node} {operator : String} {args : List Node} {info : Info}

theorem partOf_apply_iff :
    PartOf part (apply operator args info) ↔
      part = apply operator args info ∨ ∃ arg ∈ args, PartOf part arg := by
  constructor
  · intro among
    cases among with
    | root => exact .inl rfl
    | inner member inside => exact .inr ⟨_, member, inside⟩
  · rintro (rfl | ⟨arg, member, inside⟩)
    · exact .root
    · exact .inner member inside

theorem mem_partsOf_iff {nodes : List Node} :
    part ∈ partsOf nodes ↔ ∃ node ∈ nodes, part ∈ node.parts := by
  induction nodes with
  | nil => simp [partsOf]
  | cons node nodes ih => simp [partsOf, ih]

theorem mem_parts_iff {node : Node} : part ∈ node.parts ↔ PartOf part node := by
  induction node using induct with
  | leaf node leaf =>
      cases node with
      | apply _ _ _ => cases leaf
      | ident _ _ | str _ _ | num _ _ _ =>
          rw [parts, List.mem_singleton]
          constructor
          · rintro rfl
            exact .root
          · intro inside
            cases inside
            rfl
  | apply operator args info ih =>
      rw [parts, List.mem_cons, mem_partsOf_iff, partOf_apply_iff]
      apply or_congr_right
      constructor
      · rintro ⟨arg, member, inside⟩
        exact ⟨arg, member, (ih arg member).mp inside⟩
      · rintro ⟨arg, member, inside⟩
        exact ⟨arg, member, (ih arg member).mpr inside⟩

theorem PartOf.of_arg {arg : Node} (member : arg ∈ node.args) : PartOf arg node := by
  cases node with
  | apply operator args info => exact .inner member .root
  | ident _ _ | str _ _ | num _ _ _ => cases member

theorem PartOf.trans {whole : Node} (inner : PartOf part operand) (outer : PartOf operand whole) :
    PartOf part whole := by
  induction outer with
  | root => exact inner
  | inner member _ ih => exact .inner member ih

theorem Fresh.arg (fresh : (apply operator args info).Fresh) (member : operand ∈ args) :
    operand.Fresh := by
  intro part inside
  exact fresh part (.inner member inside)

theorem fresh_apply_iff : (apply operator args info).Fresh ↔
    (info.type = none ∧ info.storage = {} ∧ info.isVirtual = false) ∧ ∀ arg ∈ args, arg.Fresh := by
  refine ⟨fun fresh => ⟨fresh _ .root, fun arg member => fresh.arg member⟩, ?_⟩
  rintro ⟨here, inner⟩ part among
  rcases partOf_apply_iff.mp among with rfl | ⟨arg, member, inside⟩
  · exact here
  · exact inner arg member part inside

theorem fresh_leaf_iff {node : Node} (leaf : node.operator? = none) : node.Fresh ↔
    node.info.type = none ∧ node.info.storage = {} ∧ node.info.isVirtual = false := by
  refine ⟨fun fresh => fresh _ .root, ?_⟩
  intro here part among
  cases among with
  | root => exact here
  | inner _ _ => cases leaf

theorem fresh_ident_iff {name : String} : (ident name info).Fresh ↔
    info.type = none ∧ info.storage = {} ∧ info.isVirtual = false :=
  fresh_leaf_iff rfl

theorem fresh_str_iff {value : String} : (str value info).Fresh ↔
    info.type = none ∧ info.storage = {} ∧ info.isVirtual = false :=
  fresh_leaf_iff rfl

theorem fresh_num_iff {value : UInt64} {unsigned : Bool} : (num value unsigned info).Fresh ↔
    info.type = none ∧ info.storage = {} ∧ info.isVirtual = false :=
  fresh_leaf_iff rfl

theorem Complete.arg (complete : (apply operator args info).Complete) (member : operand ∈ args) :
    operand.Complete := by
  intro part inside
  exact complete part (.inner member inside)

end PartOf

section MapInfo

variable {change : Info → Info}

@[simp] theorem mapInfos_eq_map (nodes : List Node) :
    mapInfos change nodes = nodes.map (mapInfo change) := by
  induction nodes with
  | nil => rfl
  | cons node nodes ih => rw [mapInfos, ih, List.map_cons]

@[simp] theorem info_mapInfo (node : Node) : (node.mapInfo change).info = change node.info := by
  cases node <;> rfl

@[simp] theorem operator?_mapInfo (node : Node) :
    (node.mapInfo change).operator? = node.operator? := by
  cases node <;> rfl

@[simp] theorem num?_mapInfo (node : Node) : (node.mapInfo change).num? = node.num? := by
  cases node <;> rfl

@[simp] theorem str?_mapInfo (node : Node) : (node.mapInfo change).str? = node.str? := by
  cases node <;> rfl

@[simp] theorem ident?_mapInfo (node : Node) : (node.mapInfo change).ident? = node.ident? := by
  cases node <;> rfl

theorem args_mapInfo (node : Node) :
    (node.mapInfo change).args = node.args.map (mapInfo change) := by
  cases node with
  | apply operator args info => exact mapInfos_eq_map args
  | ident _ _ | str _ _ | num _ _ _ => rfl

theorem mapInfo_mapInfo (later : Info → Info) (node : Node) :
    (node.mapInfo change).mapInfo later = node.mapInfo (later ∘ change) := by
  induction node using induct with
  | leaf node leaf => cases node <;> first | rfl | cases leaf
  | apply operator args info ih =>
      simp only [mapInfo, mapInfos_eq_map, List.map_map, Function.comp_apply, apply.injEq, true_and,
        and_true]
      exact List.map_congr_left ih

end MapInfo

section Bare

variable {left right : Node}

theorem operator?_of_bare (same : left.bare = right.bare) : left.operator? = right.operator? := by
  have found := congrArg operator? same
  simpa [bare] using found

theorem applies_of_bare (same : left.bare = right.bare) (operator : String) :
    left.applies operator = right.applies operator := by
  rw [applies, applies, operator?_of_bare same]

theorem num?_of_bare (same : left.bare = right.bare) : left.num? = right.num? := by
  have found := congrArg num? same
  simpa [bare] using found

theorem str?_of_bare (same : left.bare = right.bare) : left.str? = right.str? := by
  have found := congrArg str? same
  simpa [bare] using found

theorem ident?_of_bare (same : left.bare = right.bare) : left.ident? = right.ident? := by
  have found := congrArg ident? same
  simpa [bare] using found

theorem bare_apply (operator : String) (args : List Node) (info : Info) :
    (apply operator args info).bare = apply operator (args.map bare) {} := by
  rw [bare, mapInfo, mapInfos_eq_map]
  rfl

theorem bare_bare (node : Node) : node.bare.bare = node.bare := by
  simp only [bare, mapInfo_mapInfo, Function.comp_def]

theorem bare_untyped (node : Node) : node.untyped.bare = node.bare := by
  simp only [untyped, bare, mapInfo_mapInfo, Function.comp_def]

theorem bare_unstored (node : Node) : node.unstored.bare = node.bare := by
  simp only [unstored, bare, mapInfo_mapInfo, Function.comp_def]

theorem bare_of_untyped (same : left.untyped = right.untyped) : left.bare = right.bare := by
  rw [← bare_untyped left, same, bare_untyped]

theorem bare_of_unstored (same : left.unstored = right.unstored) : left.bare = right.bare := by
  rw [← bare_unstored left, same, bare_unstored]

theorem PartOf.mapInfo {change : Info → Info} {part node : Node} (among : PartOf part node) :
    PartOf (part.mapInfo change) (node.mapInfo change) := by
  induction among with
  | root => exact .root
  | inner member _ ih =>
      rw [Node.mapInfo, mapInfos_eq_map]
      exact .inner (List.mem_map_of_mem member) ih

theorem exists_of_partOf_mapInfo {change : Info → Info} {part node : Node}
    (among : PartOf part (node.mapInfo change)) :
    ∃ original, PartOf original node ∧ part = original.mapInfo change := by
  induction node using induct with
  | leaf node leaf =>
      cases node with
      | apply _ _ _ => cases leaf
      | ident name info =>
          cases among
          exact ⟨_, .root, rfl⟩
      | str value info =>
          cases among
          exact ⟨_, .root, rfl⟩
      | num value unsigned info =>
          cases among
          exact ⟨_, .root, rfl⟩
  | apply operator args info ih =>
      have whole : (apply operator args info).mapInfo change =
          apply operator (args.map (Node.mapInfo change)) (change info) := by
        rw [Node.mapInfo, mapInfos_eq_map]
      rw [whole] at among
      rcases partOf_apply_iff.mp among with rfl | ⟨arg, member, inside⟩
      · exact ⟨_, .root, whole.symm⟩
      · obtain ⟨argument, place, rfl⟩ := List.mem_map.mp member
        obtain ⟨original, found, same⟩ := ih argument place inside
        exact ⟨original, .inner place found, same⟩

end Bare

end TraceProbe.Node
