import TraceProbe.Proofs.Node.Parts

/-!
# Growth of trees

Trees that are alike but for more types and fewer values of their own, and how
many of their nodes are typed.  A tree that grows without another typed node
has the types that it had.
-/

namespace TraceProbe

/-- Nothing that is recorded gets lost. -/
structure Info.Kept (info later : Info) : Prop where
  storage : later.storage = info.storage
  loc : later.loc = info.loc
  typed : ∀ type, info.type = some type → later.type = some type
  marked : info.isVirtual = true → later.isVirtual = true

theorem Info.Kept.refl (info : Info) : info.Kept info :=
  ⟨rfl, rfl, fun _ => id, id⟩

theorem Info.Kept.trans {info later last : Info} (first : info.Kept later)
    (second : later.Kept last) : info.Kept last where
  storage := second.storage.trans first.storage
  loc := second.loc.trans first.loc
  typed type known := second.typed type (first.typed type known)
  marked marked := second.marked (first.marked marked)

namespace Node

/-- The later tree has the nodes of the first, of which none loses a type or
the mark that it has no value of its own. -/
inductive Kept : Node → Node → Prop
  | ident {name : String} {info later : Info} :
      info.Kept later → Kept (ident name info) (ident name later)
  | str {value : String} {info later : Info} :
      info.Kept later → Kept (str value info) (str value later)
  | num {value : UInt64} {unsigned : Bool} {info later : Info} :
      info.Kept later → Kept (num value unsigned info) (num value unsigned later)
  | apply {operator : String} {args trees : List Node} {info later : Info} :
      info.Kept later → trees.length = args.length →
        (∀ (index : Nat) (arg tree : Node), args[index]? = some arg →
          trees[index]? = some tree → Kept arg tree) →
        Kept (apply operator args info) (apply operator trees later)

/-- The same for several trees. -/
structure KeptAll (nodes trees : List Node) : Prop where
  length : trees.length = nodes.length
  each : ∀ (index : Nat) (node tree : Node), nodes[index]? = some node →
    trees[index]? = some tree → Kept node tree

mutual

/-- Number of nodes in a tree. -/
def nodeCount : Node → Nat
  | apply _ args _ => 1 + nodeCounts args
  | ident _ _ | str _ _ | num _ _ _ => 1
termination_by structural node => node

/-- Number of nodes in several trees. -/
def nodeCounts : List Node → Nat
  | [] => 0
  | node :: nodes => nodeCount node + nodeCounts nodes
termination_by structural nodes => nodes

end

variable {node tree last : Node} {nodes trees rest : List Node} {operator : String}
  {args : List Node} {info later : Info} {type : Ty}

section Kept

theorem KeptAll.cons (first : Kept node tree) (others : KeptAll nodes trees) :
    KeptAll (node :: nodes) (tree :: trees) := by
  refine ⟨congrArg (· + 1) others.length, ?_⟩
  intro index arg tree found same
  cases index with
  | zero =>
      cases found
      cases same
      exact first
  | succ index => exact others.each index arg tree found same

theorem KeptAll.cases_cons (kept : KeptAll (node :: nodes) rest) :
    ∃ tree trees, rest = tree :: trees ∧ Kept node tree ∧ KeptAll nodes trees := by
  cases rest with
  | nil => cases kept.length
  | cons tree trees =>
      exact ⟨tree, trees, rfl, kept.each 0 node tree rfl rfl, Nat.succ.inj kept.length,
        fun index arg tree found same => kept.each (index + 1) arg tree found same⟩

theorem Kept.refl (node : Node) : Kept node node := by
  induction node using induct with
  | leaf node leaf =>
      cases node with
      | apply _ _ _ => cases leaf
      | ident name info => exact .ident (.refl info)
      | str value info => exact .str (.refl info)
      | num value unsigned info => exact .num (.refl info)
  | apply operator args info ih =>
      refine .apply (.refl info) rfl ?_
      intro index arg tree found same
      cases found.symm.trans same
      exact ih arg (List.mem_of_getElem? found)

theorem KeptAll.refl (nodes : List Node) : KeptAll nodes nodes := by
  constructor
  · rfl
  · intro _ node tree found same
    cases found.symm.trans same
    exact .refl node

theorem Kept.trans (first : Kept node tree) (second : Kept tree last) : Kept node last := by
  induction first generalizing last with
  | ident kept =>
      cases second with
      | ident kept' => exact .ident (kept.trans kept')
  | str kept =>
      cases second with
      | str kept' => exact .str (kept.trans kept')
  | num kept =>
      cases second with
      | num kept' => exact .num (kept.trans kept')
  | @apply operator args trees info middle kept length inner ih =>
      cases second with
      | apply kept' length' inner' =>
          refine .apply (kept.trans kept') (length'.trans length) ?_
          intro index arg tree found same
          obtain ⟨inside, -⟩ := List.getElem?_eq_some_iff.mp found
          have between := List.getElem?_eq_getElem (length ▸ inside : index < trees.length)
          exact ih index arg _ found between (inner' index _ tree between same)

theorem KeptAll.trans (first : KeptAll nodes trees) (second : KeptAll trees rest) :
    KeptAll nodes rest := by
  refine ⟨second.length.trans first.length, ?_⟩
  intro index arg tree found same
  obtain ⟨inside, -⟩ := List.getElem?_eq_some_iff.mp found
  have between := List.getElem?_eq_getElem (first.length ▸ inside : index < trees.length)
  exact (first.each index arg _ found between).trans (second.each index _ tree between same)

theorem Kept.withInfo (kept : node.info.Kept later) : Kept node (node.withInfo later) := by
  cases node with
  | apply operator args info =>
      exact .apply kept rfl fun index arg tree found same =>
        (KeptAll.refl args).each index _ _ found same
  | ident name info => exact .ident kept
  | str value info => exact .str kept
  | num value unsigned info => exact .num kept

theorem Kept.asVirtual (node : Node) : Kept node node.asVirtual :=
  .withInfo ⟨rfl, rfl, fun _ => id, fun _ => rfl⟩

theorem Kept.withType (free : node.type? = none) (type : Ty) : Kept node (node.withType type) := by
  apply Kept.withInfo
  refine ⟨rfl, rfl, ?_, id⟩
  intro _ typed
  cases free.symm.trans typed

theorem Kept.withArgs (kept : KeptAll args trees) :
    Kept (.apply operator args info) (.apply operator trees info) :=
  .apply (.refl info) kept.length kept.each

theorem KeptAll.modify (args : List Node) (index : Nat) {change : Node → Node}
    (grows : ∀ arg, args[index]? = some arg → Kept arg (change arg)) :
    KeptAll args (args.modify index change) := by
  refine ⟨List.length_modify _ _ _, ?_⟩
  intro other arg tree found same
  rw [List.getElem?_modify, found] at same
  by_cases here : index = other
  · subst here
    simp only [if_true, Option.map_eq_map, Option.map_some, Option.some.injEq] at same
    exact same ▸ grows arg found
  · simp only [here, if_false, Option.map_eq_map, Option.map_some, Option.some.injEq] at same
    exact same ▸ .refl arg

theorem bares_of_each (length : trees.length = nodes.length)
    (each : ∀ (index : Nat) (node tree : Node), nodes[index]? = some node →
      trees[index]? = some tree → tree.bare = node.bare) : trees.map bare = nodes.map bare := by
  refine List.ext_getElem (by rw [List.length_map, List.length_map, length]) ?_
  intro index there here
  rw [List.length_map] at there here
  rw [List.getElem_map, List.getElem_map]
  exact each index _ _ (List.getElem?_eq_getElem here) (List.getElem?_eq_getElem there)

theorem Kept.bare (kept : Kept node tree) : tree.bare = node.bare := by
  induction kept with
  | ident _ | str _ | num _ => rfl
  | apply _ length _ ih => rw [bare_apply, bare_apply, bares_of_each length ih]

theorem Kept.typed (kept : Kept node tree) (known : node.type? = some type) :
    tree.type? = some type := by
  cases kept with
  | ident kept | str kept | num kept | apply kept _ _ => exact kept.typed type known

theorem KeptAll.bares (kept : KeptAll nodes trees) : trees.map Node.bare = nodes.map Node.bare := by
  apply bares_of_each kept.length
  intro index node tree found same
  exact (kept.each index node tree found same).bare

end Kept

section Counts

theorem KeptAll.count_le (kept : KeptAll nodes trees)
    (each : ∀ node ∈ nodes, ∀ tree, Kept node tree → node.typedCount ≤ tree.typedCount) :
    typedCounts nodes ≤ typedCounts trees := by
  induction nodes generalizing trees with
  | nil =>
      exact List.length_eq_zero_iff.mp kept.length ▸ Nat.le_refl _
  | cons node nodes ih =>
      obtain ⟨tree, others, rfl, first, rest⟩ := kept.cases_cons
      exact Nat.add_le_add (each node List.mem_cons_self tree first)
        (ih rest fun other member => each other (List.mem_cons_of_mem _ member))

theorem isSome_le (kept : info.Kept later) :
    (if info.type.isSome then 1 else 0) ≤ if later.type.isSome then 1 else 0 := by
  cases typed : info.type with
  | none => exact Nat.zero_le _
  | some type =>
      exact kept.typed type typed ▸ Nat.le_refl _

theorem Kept.typedCount_le (kept : Kept node tree) : node.typedCount ≤ tree.typedCount := by
  induction node using induct generalizing tree with
  | leaf node leaf =>
      cases kept with
      | ident kept | str kept | num kept => exact isSome_le kept
      | apply _ _ _ => cases leaf
  | apply operator args info ih =>
      cases kept with
      | apply kept length inner =>
          exact Nat.add_le_add (isSome_le kept)
            (KeptAll.count_le ⟨length, inner⟩ fun arg member tree => ih arg member)

theorem KeptAll.typedCounts_le (kept : KeptAll nodes trees) :
    typedCounts nodes ≤ typedCounts trees :=
  kept.count_le fun _ _ _ kept => kept.typedCount_le

theorem nodeCounts_of_each (length : trees.length = nodes.length)
    (each : ∀ (index : Nat) (node tree : Node), nodes[index]? = some node →
      trees[index]? = some tree → tree.nodeCount = node.nodeCount) :
    nodeCounts trees = nodeCounts nodes := by
  induction nodes generalizing trees with
  | nil => rw [List.length_eq_zero_iff.mp length]
  | cons node nodes ih =>
      cases trees with
      | nil => cases length
      | cons tree trees =>
          rw [nodeCounts, nodeCounts, each 0 node tree rfl rfl, ih (Nat.succ.inj length)
            fun index => each (index + 1)]

theorem Kept.nodeCount_eq (kept : Kept node tree) : tree.nodeCount = node.nodeCount := by
  induction kept with
  | ident _ | str _ | num _ => rfl
  | apply _ length _ ih =>
      rw [nodeCount, nodeCount, nodeCounts_of_each length ih]

theorem KeptAll.nodeCounts_eq (kept : KeptAll nodes trees) :
    nodeCounts trees = nodeCounts nodes := by
  apply nodeCounts_of_each kept.length
  intro index node tree found same
  exact (kept.each index node tree found same).nodeCount_eq

theorem typedCounts_le_of_each (each : ∀ node ∈ nodes, node.typedCount ≤ node.nodeCount) :
    typedCounts nodes ≤ nodeCounts nodes := by
  induction nodes with
  | nil => exact Nat.le_refl _
  | cons node nodes ih =>
      exact Nat.add_le_add (each node List.mem_cons_self)
        (ih fun other member => each other (List.mem_cons_of_mem _ member))

theorem isSome_le_one (info : Info) : (if info.type.isSome then 1 else 0) ≤ 1 := by
  split
  · exact Nat.le_refl _
  · exact Nat.zero_le _

theorem typedCount_le_nodeCount (node : Node) : node.typedCount ≤ node.nodeCount := by
  induction node using induct with
  | leaf node leaf =>
      cases node with
      | apply _ _ _ => cases leaf
      | ident _ info | str _ info | num _ _ info => exact isSome_le_one info
  | apply operator args info ih =>
      exact Nat.add_le_add (isSome_le_one info) (typedCounts_le_of_each ih)

theorem typedCounts_le_nodeCounts (nodes : List Node) : typedCounts nodes ≤ nodeCounts nodes := by
  apply typedCounts_le_of_each
  intro node _
  exact node.typedCount_le_nodeCount

end Counts

end Node

end TraceProbe
