import Mathlib.Data.List.Forall2
import TraceProbe.Proofs.Typing.Correspondence
import TraceProbe.Proofs.Typing.Faultless

/-!
# Rewriting to a normal form

Rewriting offers a node to its operator until the operator leaves it as it is, and
then turns to the arguments.  A node that is replaced is offered again, so the tree
may grow under the walk.  It ends nevertheless: the dot that replaces an arrow is
not replaced, and what stands below it is the base of the arrow and a name.  What
is left has no arrow with a name behind it, and therefore no arrow at all once it
has been validated.
-/

namespace TraceProbe.Node

mutual

/-- How a tree is rewritten, and how that ends. -/
inductive Rewrites (table : OperatorTable) : Node → Expanded Node → Prop
  | leaf {node : Node} : node.operator? = none → Rewrites table node ⟨node, .ok ()⟩
  | unknown {operator : String} {args : List Node} {info : Info} {cause : Diagnostic} :
      table.lookup (apply operator args info) = .error cause →
        Rewrites table (apply operator args info) ⟨apply operator args info, .error cause⟩
  | replaced {node new : Node} {description : Description} {result : Expanded Node} :
      table.lookup node = .ok description → description.operator.expand? node = some new →
        Rewrites table new result → Rewrites table node result
  | kept {operator : String} {args : List Node} {info : Info} {description : Description}
      {inner : Expanded (List Node)} :
      table.lookup (apply operator args info) = .ok description →
        description.operator.expand? (apply operator args info) = none →
          RewritesAll table args inner →
            Rewrites table (apply operator args info)
            ⟨apply operator inner.tree info, inner.outcome⟩

/-- How arguments are rewritten in their order, up to the first that fails. -/
inductive RewritesAll (table : OperatorTable) : List Node → Expanded (List Node) → Prop
  | nil : RewritesAll table [] ⟨[], .ok ()⟩
  | failed {node tree : Node} {nodes : List Node} {cause : Diagnostic} :
      Rewrites table node ⟨tree, .error cause⟩ →
        RewritesAll table (node :: nodes) ⟨tree :: nodes, .error cause⟩
  | cons {node tree : Node} {nodes : List Node} {others : Expanded (List Node)} :
      Rewrites table node ⟨tree, .ok ()⟩ → RewritesAll table nodes others →
        RewritesAll table (node :: nodes) ⟨tree :: others.tree, others.outcome⟩

end

/-- A tree that has a description for every operator in it. -/
def Registered (node : Node) : Prop :=
  ∀ operator args info, PartOf (apply operator args info) node →
    (OperatorTable.language.get? operator).isSome = true

/-- What becomes of a tree: an arrow with a name behind it is a dot behind a
dereference, and every other node is as it was. -/
inductive Expands : Node → Node → Prop
  | leaf {node : Node} : node.operator? = none → Expands node node
  | arrow {base base' : Node} {member : String} {memberInfo info : Info} :
      Expands base base' →
        Expands (apply "->" [base, str member memberInfo] info)
          (apply "." [apply "u*" [base'] { loc := base.loc }, str member {}] { loc := info.loc })
  | apply {operator : String} {args args' : List Node} {info : Info} :
      ¬ IsArrow operator args → List.Forall₂ Expands args args' →
        Expands (apply operator args info) (apply operator args' info)

section Ending

variable {table : OperatorTable} {node new : Node} {operator : String} {args : List Node}
  {info : Info}

theorem lookup_eq_ok_iff {description : Description} :
    table.lookup (apply operator args info) = .ok description ↔
      table.get? operator = some description := by
  unfold OperatorTable.lookup
  simp only [operator?]
  cases table.get? operator <;> simp

theorem rewritesAll_ends (each : ∀ arg ∈ args, ∃ result, Rewrites table arg result) :
    ∃ result, RewritesAll table args result := by
  induction args with
  | nil => exact ⟨_, .nil⟩
  | cons arg args ih =>
      obtain ⟨⟨tree, outcome⟩, first⟩ := each arg List.mem_cons_self
      obtain ⟨others, rest⟩ := ih fun other member => each other (List.mem_cons_of_mem _ member)
      cases outcome with
      | error cause => exact ⟨_, .failed first⟩
      | ok _ => exact ⟨_, .cons first rest⟩

/-- A node that its operator leaves as it is ends with its arguments. -/
theorem rewrites_ends_of_kept
    (stays : ∀ description, table.lookup (apply operator args info) = .ok description →
      description.operator.expand? (apply operator args info) = none)
    (each : ∀ arg ∈ args, ∃ result, Rewrites table arg result) :
    ∃ result, Rewrites table (apply operator args info) result := by
  cases found : table.lookup (apply operator args info) with
  | error cause => exact ⟨_, .unknown found⟩
  | ok description =>
      obtain ⟨result, inner⟩ := rewritesAll_ends each
      exact ⟨_, .kept found (stays description found) inner⟩

theorem exists_str_of_str? {value : String} (named : node.str? = some value) :
    ∃ info, node = str value info := by
  cases node with
  | str other info =>
      cases named
      exact ⟨info, rfl⟩
  | apply _ _ _ | ident _ _ | num _ _ _ => cases named

theorem expand?_eq_some_iff {kind : Operator} :
    kind.expand? node = some new ↔ kind = .arrow ∧ ∃ base member memberInfo,
      node.args = [base, str member memberInfo] ∧
        new = Operator.expandArrow base member node.loc := by
  constructor
  · intro replaced
    unfold Operator.expand? at replaced
    split at replaced
    · rename_i base member two
      obtain ⟨name, named, same⟩ := Option.map_eq_some_iff.mp replaced
      obtain ⟨memberInfo, rfl⟩ := exists_str_of_str? named
      exact ⟨rfl, base, name, memberInfo, two, same.symm⟩
    · cases replaced
  · rintro ⟨rfl, base, member, memberInfo, two, rfl⟩
    unfold Operator.expand?
    rw [two]
    rfl

/-- The dot that replaces an arrow ends if the base of the arrow does. -/
theorem expandArrow_ends (dot : ∀ description, table.get? "." = some description →
    description.operator ≠ .arrow) {base : Node} (ends : ∃ result, Rewrites table base result)
    (member : String) (loc : Loc) :
    ∃ result, Rewrites table (Operator.expandArrow base member loc) result := by
  -- A dereference has one argument, so it stays even where its name stands for the arrow.
  have pointed : ∃ result, Rewrites table (apply "u*" [base] { loc := base.loc }) result := by
    refine rewrites_ends_of_kept ?_ ?_
    · intro other _
      unfold Operator.expand?
      cases other.operator <;> rfl
    · intro arg among
      obtain rfl := List.mem_singleton.mp among
      exact ends
  refine rewrites_ends_of_kept ?_ ?_
  · intro other looked
    refine Option.eq_none_iff_forall_ne_some.mpr ?_
    intro tree replaced
    exact dot other (lookup_eq_ok_iff.mp looked) (expand?_eq_some_iff.mp replaced).1
  · intro arg among
    simp only [List.mem_cons, List.not_mem_nil, or_false] at among
    rcases among with rfl | rfl
    · exact pointed
    · exact ⟨_, .leaf rfl⟩

theorem rewrites_ends (dot : ∀ description, table.get? "." = some description →
    description.operator ≠ .arrow) (node : Node) : ∃ result, Rewrites table node result := by
  induction node using induct with
  | leaf node leaf => exact ⟨_, .leaf leaf⟩
  | apply operator args info ih =>
      cases looked : table.lookup (apply operator args info) with
      | error cause => exact ⟨_, .unknown looked⟩
      | ok description =>
          cases replaced : description.operator.expand? (apply operator args info) with
          | none =>
              obtain ⟨result, inner⟩ := rewritesAll_ends ih
              exact ⟨_, .kept looked replaced inner⟩
          | some new =>
              obtain ⟨-, base, member, memberInfo, two, rfl⟩ := expand?_eq_some_iff.mp replaced
              obtain rfl : args = [base, str member memberInfo] := two
              obtain ⟨result, later⟩ := expandArrow_ends dot (ih base List.mem_cons_self) member
                (apply operator [base, str member memberInfo] info).loc
              exact ⟨result, .replaced looked replaced later⟩

end Ending

section Language

variable {node tree : Node} {operator : String} {args : List Node} {info : Info}
  {description : Description}

/-- Rewriting keeps the source position of the root, however it ends. -/
theorem loc_expand (node : Node) : node.expand.tree.loc = node.loc := by
  cases node with
  | apply operator args info =>
      rw [expand]
      split
      · rfl
      · split <;> rfl
  | ident _ _ | str _ _ | num _ _ _ => simp [expand]

/-- The dot that replaces an arrow is expanded by expanding its base. -/
theorem expand_expandArrow (base : Node) (member : String) (loc : Loc) :
    (Operator.expandArrow base member loc).expand =
      ⟨Operator.expandArrow base.expand.tree member loc, base.expand.outcome⟩ := by
  have pointed : (apply "u*" [base] { loc := base.loc }).expand =
      ⟨apply "u*" [base.expand.tree] { loc := base.loc }, base.expand.outcome⟩ := by
    show Expanded.mk (apply "u*" (expandAll [base]).tree { loc := base.loc })
        (expandAll [base]).outcome = _
    rw [expandAll]
    cases base.expand with
    | mk tree outcome => cases outcome <;> simp [expandAll]
  show Expanded.mk
      (apply "." (expandAll [apply "u*" [base] { loc := base.loc }, str member {}]).tree
    { loc := loc }) (expandAll [apply "u*" [base] { loc := base.loc }, str member {}]).outcome = _
  rw [expandAll, pointed]
  unfold Operator.expandArrow
  rw [loc_expand]
  cases base.expand with
  | mk tree outcome => cases outcome <;> simp [expandAll, expand]

/-- An application that stays is expanded in its arguments. -/
theorem expand_of_kept
    (looked : OperatorTable.language.lookup (apply operator args info) = .ok description)
    (stays : description.operator.expand? (apply operator args info) = none) :
    (apply operator args info).expand =
      ⟨apply operator (expandAll args).tree info, (expandAll args).outcome⟩ := by
  rw [expand]
  simp only [looked]
  split
  · rename_i base member memberInfo arrow
    cases stays.symm.trans (expand?_eq_some_iff.mpr ⟨arrow, base, member, memberInfo, rfl, rfl⟩)
  · rfl

/-- An application that is replaced is expanded as its replacement is. -/
theorem expand_of_replaced {new : Node}
    (looked : OperatorTable.language.lookup node = .ok description)
    (replaced : description.operator.expand? node = some new) : node.expand = new.expand := by
  obtain ⟨arrow, base, member, memberInfo, two, rfl⟩ := expand?_eq_some_iff.mp replaced
  rw [expand_expandArrow]
  cases node with
  | apply operator args info =>
      obtain rfl : args = [base, str member memberInfo] := two
      rw [expand]
      simp only [looked, arrow]
      rfl
  | ident _ _ | str _ _ | num _ _ _ => cases two

mutual

theorem Rewrites.eq_expand : ∀ {node : Node} {result : Expanded Node},
    Rewrites OperatorTable.language node result → result = node.expand
  | node, _, .leaf free => by cases node <;> first | rfl | cases free
  | _, _, .unknown looked => by
      rw [expand]
      simp only [looked]
  | _, _, .replaced looked replaced later => by
      exact later.eq_expand.trans (expand_of_replaced looked replaced).symm
  | _, _, .kept looked stays inner => by
      rw [expand_of_kept looked stays, inner.eq_expandAll]

theorem RewritesAll.eq_expandAll : ∀ {nodes : List Node} {result : Expanded (List Node)},
    RewritesAll OperatorTable.language nodes result → result = expandAll nodes
  | _, _, .nil => rfl
  | _, _, .failed first => by rw [expandAll, ← first.eq_expand]
  | _, _, .cons first others => by
      rw [expandAll, ← first.eq_expand, ← others.eq_expandAll]

end

/-- Rewriting of a tree of the language ends, and as expansion computes it. -/
theorem rewrites_iff {result : Expanded Node} :
    Rewrites OperatorTable.language node result ↔ result = node.expand := by
  refine ⟨Rewrites.eq_expand, ?_⟩
  rintro rfl
  have dot : ∀ description, OperatorTable.language.get? "." = some description →
      description.operator ≠ .arrow := by
    intro description found
    cases found
    decide
  obtain ⟨result, rewrites⟩ := rewrites_ends dot node
  exact rewrites.eq_expand ▸ rewrites

end Language

section NormalForm

variable {node tree part : Node} {operator : String} {args : List Node} {info : Info}

theorem Registered.arg {arg : Node} (registered : (apply operator args info).Registered)
    (member : arg ∈ args) : arg.Registered := by
  intro _ _ _ inside
  exact registered _ _ _ (.inner member inside)

theorem registered_apply_iff : (apply operator args info).Registered ↔
    (OperatorTable.language.get? operator).isSome = true ∧ ∀ arg ∈ args, arg.Registered := by
  refine ⟨fun registered => ⟨registered _ _ _ .root, fun arg member => registered.arg member⟩, ?_⟩
  rintro ⟨here, inner⟩ operator' args' info' among
  rcases partOf_apply_iff.mp among with same | ⟨arg, member, inside⟩
  · cases same
    exact here
  · exact inner arg member _ _ _ inside

theorem registered_leaf (leaf : node.operator? = none) : node.Registered := by
  intro operator args info among
  cases among with
  | root => cases leaf
  | inner _ _ => cases leaf

theorem expandAll_of_outcomes {nodes : List Node}
    (each : ∀ node ∈ nodes, node.expand.outcome = .ok ()) :
    expandAll nodes = ⟨nodes.map (·.expand.tree), .ok ()⟩ := by
  induction nodes with
  | nil => rfl
  | cons node nodes ih =>
      rw [expandAll, ih fun other member => each other (List.mem_cons_of_mem _ member)]
      simp only [each node List.mem_cons_self]
      rfl

/-- A tree is rewritten without a diagnostic if all its operators have descriptions.
-/
theorem expand_of_registered (registered : node.Registered) :
    node.expand.outcome = .ok () ∧ Expands node node.expand.tree := by
  induction node using induct with
  | leaf node leaf =>
      cases node with
      | apply _ _ _ => cases leaf
      | ident _ _ | str _ _ | num _ _ _ => exact ⟨rfl, .leaf leaf⟩
  | apply operator args info ih =>
      obtain ⟨description, known⟩ := Option.isSome_iff_exists.mp (registered _ _ _ .root)
      have looked : OperatorTable.language.lookup (apply operator args info) = .ok description :=
        lookup_eq_ok_iff.mpr known
      have each (arg : Node) (member : arg ∈ args) := ih arg member (registered.arg member)
      cases replaced : description.operator.expand? (apply operator args info) with
      | none =>
          have other : ¬ IsArrow operator args := by
            rintro ⟨arrow, base, member, memberInfo, two⟩
            have kind := (operator_eq_arrow_iff looked).mpr arrow
            cases replaced.symm.trans
              (expand?_eq_some_iff.mpr ⟨kind, base, member, memberInfo, two, rfl⟩)
          rw [expand_of_kept looked replaced,
            expandAll_of_outcomes fun arg member => (each arg member).1]
          refine ⟨rfl, .apply other ?_⟩
          rw [List.forall₂_map_right_iff]
          exact List.forall₂_same.mpr fun arg member => (each arg member).2
      | some new =>
          rw [expand_of_replaced looked replaced]
          obtain ⟨arrow, base, member, memberInfo, two, rfl⟩ := expand?_eq_some_iff.mp replaced
          obtain rfl : args = [base, str member memberInfo] := two
          obtain rfl := (operator_eq_arrow_iff looked).mp arrow
          obtain ⟨ended, inner⟩ := each base List.mem_cons_self
          rw [expand_expandArrow]
          refine ⟨ended, ?_⟩
          unfold Operator.expandArrow
          rw [loc_expand]
          exact .arrow inner

/-- A tree whose rewriting ends without a diagnostic is made of known operators. -/
theorem registered_of_expand (ended : node.expand.outcome = .ok ()) : node.Registered := by
  induction node using induct with
  | leaf node leaf => exact registered_leaf leaf
  | apply operator args info ih =>
      rw [registered_apply_iff]
      cases looked : OperatorTable.language.lookup (apply operator args info) with
      | error cause =>
          rw [expand] at ended
          simp only [looked] at ended
          cases ended
      | ok description =>
          refine ⟨by rw [lookup_eq_ok_iff.mp looked]; rfl, fun arg member => ih arg member ?_⟩
          have whole : (apply operator args info).expand =
              ⟨(apply operator args info).expand.tree, .ok ()⟩ := by rw [← ended]
          rcases expand_apply_ok whole with ⟨base, name, nameInfo, rfl, inner, -⟩ | ⟨-, each, -⟩
          · simp only [List.mem_cons, List.not_mem_nil, or_false] at member
            rcases member with rfl | rfl
            · exact inner
            · rfl
          · exact each arg member

/-- What is left holds no more operators than the dot, the dereference and those
that were there. -/
theorem Expands.registered (expands : Expands node tree) (registered : node.Registered) :
    tree.Registered := by
  induction node using induct generalizing tree with
  | leaf node leaf =>
      cases expands with
      | leaf _ => exact registered
      | arrow _ | apply _ _ => cases leaf
  | apply operator args info ih =>
      generalize same : Node.apply operator args info = whole at expands
      cases expands with
      | leaf free =>
          subst same
          cases free
      | arrow inner =>
          cases same
          have base := ih _ List.mem_cons_self inner (registered.arg List.mem_cons_self)
          simp only [registered_apply_iff, List.forall_mem_cons]
          exact ⟨rfl, ⟨rfl, base, fun _ member => (by cases member)⟩, registered_leaf rfl,
            fun _ member => (by cases member)⟩
      | apply _ inner =>
          cases same
          refine registered_apply_iff.mpr ⟨registered _ _ _ .root, ?_⟩
          intro tree member
          obtain ⟨index, place⟩ := List.mem_iff_getElem?.mp member
          rcases getElem?_of_forall₂ inner index with ⟨-, none⟩ | ⟨arg, _, there, here, expanded⟩
          · rw [place] at none
            cases none
          · cases here.symm.trans place
            have among := List.mem_of_getElem? there
            exact ih arg among expanded (registered.arg among)

theorem expand_of_arrowless (registered : node.Registered) (free : node.Arrowless) :
    node.expand = ⟨node, .ok ()⟩ := by
  induction node using induct with
  | leaf node leaf =>
      cases node with
      | apply _ _ _ => cases leaf
      | ident _ _ | str _ _ | num _ _ _ => rfl
  | apply operator args info ih =>
      have each (arg : Node) (member : arg ∈ args) := ih arg member (registered.arg member)
        fun _ _ _ inside => free _ _ _ (.inner member inside)
      obtain ⟨description, known⟩ := Option.isSome_iff_exists.mp (registered _ _ _ .root)
      have looked : OperatorTable.language.lookup (apply operator args info) = .ok description :=
        lookup_eq_ok_iff.mpr known
      have stays : description.operator.expand? (apply operator args info) = none := by
        refine Option.eq_none_iff_forall_ne_some.mpr fun new replaced => free _ _ _ .root ?_
        obtain ⟨arrow, base, member, memberInfo, two, -⟩ := expand?_eq_some_iff.mp replaced
        exact ⟨(operator_eq_arrow_iff looked).mp arrow, base, member, memberInfo, two⟩
      rw [expand_of_kept looked stays,
        expandAll_of_outcomes fun arg member => by rw [each arg member]]
      rw [List.map_congr_left (g := id) fun arg member => by rw [each arg member]; rfl, List.map_id]

theorem Shaped.no_arrow (shaped : node.Shaped) (among : PartOf part node) :
    part.operator? ≠ some "->" := by
  intro arrow
  cases part with
  | apply operator args info =>
      cases arrow
      exact (shaped _ _ _ among).ne_arrow rfl
  | ident _ _ | str _ _ | num _ _ _ => cases arrow

/-- Statements that are prepared have the shapes that emission expects, and keep them
through inference. -/
theorem shaped_of_prepared {options : Options} {statements prepared : List Node} {scope : Scope}
    (prepares : statements.mapM prepare = .ok prepared) :
    ∀ tree ∈ (inferTypes options prepared scope).tree, tree.Shaped := by
  refine (kept_inferPasses options options.maxPasses prepared scope).shaped ?_
  intro node member
  obtain ⟨statement, -, same⟩ := exists_of_mem_mapM prepares member
  unfold prepare at same
  obtain ⟨_, expanded, same⟩ := ok_of_bind same
  obtain ⟨_, valid, same⟩ := ok_of_bind same
  cases same
  have whole : statement.expand = ⟨statement.expand.tree, .ok ()⟩ := by rw [← ok_of_lift expanded]
  exact shaped_of_validate valid (expand_spec whole).1

end NormalForm

/-- Rewriting ends in a normal form: it ends for every tree, without a diagnostic exactly
if every operator in the tree has a description; then the arrows with a name behind them
have become dots, all other nodes are as they were, and rewriting again changes nothing.
What also passes validation has no arrow, nor has what emission gets to see, and so it
does not matter that an arrow would emit nothing. -/
theorem rewriting_normal_form :
    (∀ table : OperatorTable, (∀ description, table.get? "." = some description →
        description.operator ≠ .arrow) → ∀ node, ∃ result, Rewrites table node result) ∧
      (∀ node result, Rewrites OperatorTable.language node result ↔ result = node.expand) ∧
      (∀ node : Node, node.expand.outcome = .ok () ↔ node.Registered) ∧
      (∀ node : Node, node.expand.outcome = .ok () → Expands node node.expand.tree ∧
        node.expand.tree.expand = ⟨node.expand.tree, .ok ()⟩ ∧
          (node.expand.tree.validate = .ok () →
            ∀ part, PartOf part node.expand.tree → part.operator? ≠ some "->")) ∧
      (∀ (options : Options) (statements prepared : List Node) (scope : Scope),
        statements.mapM prepare = .ok prepared →
          ∀ tree ∈ (inferTypes options prepared scope).tree, ∀ part, PartOf part tree →
            part.operator? ≠ some "->") ∧
      ∀ (symbols : Symbols) (args : List Node) (info : Info) (request : Request),
        (apply "->" args info).finishApplication symbols request = return () := by
  refine ⟨?_, ?_, ?_, ?_, ?_, ?_⟩
  · intro table dot node
    exact rewrites_ends dot node
  · intro node result
    exact rewrites_iff
  · intro node
    constructor
    · exact registered_of_expand
    · intro registered
      exact (expand_of_registered registered).1
  · intro node ended
    have registered := registered_of_expand ended
    have expands := (expand_of_registered registered).2
    have whole : node.expand = ⟨node.expand.tree, .ok ()⟩ := by rw [← ended]
    have free := (expand_spec whole).1
    refine ⟨expands, expand_of_arrowless (expands.registered registered) free, ?_⟩
    intro valid part among
    exact (shaped_of_validate valid free).no_arrow among
  · intro options statements prepared scope prepares tree member part among
    exact (shaped_of_prepared prepares tree member).no_arrow among
  · intro symbols args info request
    rfl

end TraceProbe.Node
