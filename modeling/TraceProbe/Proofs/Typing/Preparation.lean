import Mathlib.Data.List.Basic
import TraceProbe.Compilation
import TraceProbe.Proofs.Node.Shapes
import TraceProbe.Proofs.Stream.Steps

/-!
# Prepared statements

Expansion and validation leave a tree without arrows, in which every operator
has arguments that it can work with and nothing is recorded yet.
-/

namespace TraceProbe.Node

/-- An arrow that expansion replaces. -/
def IsArrow (operator : String) (args : List Node) : Prop :=
  operator = "->" ∧ ∃ base member info, args = [base, str member info]

/-- A tree without such arrows. -/
def Arrowless (node : Node) : Prop :=
  ∀ operator args info, PartOf (apply operator args info) node → ¬ IsArrow operator args

section Lookup

variable {operator : String} {args : List Node} {info : Info} {description : Description}

theorem name_of_lookup
    (found : OperatorTable.language.lookup (apply operator args info) = .ok description) :
    description ∈ OperatorTable.language.descriptions ∧ description.name = operator := by
  unfold OperatorTable.lookup at found
  simp only [operator?] at found
  cases known : OperatorTable.language.get? operator with
  | none =>
      rw [known] at found
      cases found
  | some other =>
      rw [known] at found
      cases found
      unfold OperatorTable.get? at known
      exact ⟨List.mem_of_find?_eq_some known, by simpa using List.find?_some known⟩

theorem operator_eq_arrow_iff
    (found : OperatorTable.language.lookup (apply operator args info) = .ok description) :
    description.operator = .arrow ↔ operator = "->" := by
  obtain ⟨member, rfl⟩ := name_of_lookup found
  simp only [OperatorTable.language, List.mem_cons, List.not_mem_nil, or_false] at member
  rcases member with rfl | rfl | rfl | rfl | rfl | rfl | rfl | rfl | rfl | rfl <;> decide

end Lookup

section Expand

theorem str?_expand (node : Node) : node.expand.tree.str? = node.str? := by
  cases node with
  | apply operator args info =>
      rw [expand]
      split
      · rfl
      · split <;> rfl
  | ident _ _ | str _ _ | num _ _ _ => simp [expand]

theorem expandAll_cons_ok {node : Node} {nodes trees : List Node}
    (found : expandAll (node :: nodes) = ⟨trees, .ok ()⟩) :
    ∃ others, node.expand = ⟨node.expand.tree, .ok ()⟩ ∧ expandAll nodes = ⟨others, .ok ()⟩ ∧
      trees = node.expand.tree :: others := by
  rw [expandAll] at found
  rcases head : node.expand with ⟨first, outcome⟩
  simp only [head] at found
  cases outcome with
  | error cause => cases found
  | ok _ =>
      rcases tail : expandAll nodes with ⟨others, outcome⟩
      simp only [tail] at found
      cases found
      exact ⟨others, rfl, rfl, rfl⟩

theorem expandAll_ok {nodes trees : List Node} (found : expandAll nodes = ⟨trees, .ok ()⟩) :
    trees = nodes.map (·.expand.tree) ∧ ∀ node ∈ nodes, node.expand.outcome = .ok () := by
  induction nodes generalizing trees with
  | nil =>
      cases found
      exact ⟨rfl, fun _ member => (by cases member)⟩
  | cons node nodes ih =>
      obtain ⟨others, here, rest, rfl⟩ := expandAll_cons_ok found
      obtain ⟨rfl, all⟩ := ih rest
      refine ⟨rfl, ?_⟩
      intro other member
      rcases List.mem_cons.mp member with rfl | later
      · rw [here]
      · exact all other later

/-- An expanded application is an expanded arrow, or the same operator with
expanded arguments. -/
theorem expand_apply_ok {operator : String} {args : List Node} {info : Info} {tree : Node}
    (found : (apply operator args info).expand = ⟨tree, .ok ()⟩) :
    (∃ base member memberInfo, args = [base, str member memberInfo] ∧
      base.expand.outcome = .ok () ∧
      tree = Operator.expandArrow base.expand.tree member info.loc) ∨
    ¬ IsArrow operator args ∧ (∀ arg ∈ args, arg.expand.outcome = .ok ()) ∧
      tree = apply operator (args.map (·.expand.tree)) info := by
  rw [expand] at found
  split at found
  · cases found
  · rename_i description looked
    split at found
    · rename_i base member memberInfo _
      obtain ⟨rfl, expanded⟩ := Expanded.mk.inj found
      exact .inl ⟨base, member, memberInfo, rfl, expanded, rfl⟩
    · rename_i args _ _ other
      have others : ¬ IsArrow operator args := by
        rintro ⟨same, base, member, memberInfo, rfl⟩
        exact other base member memberInfo ((operator_eq_arrow_iff looked).mpr same) rfl
      obtain ⟨rfl, expanded⟩ := Expanded.mk.inj found
      have all : expandAll args = ⟨(expandAll args).tree, .ok ()⟩ := by rw [← expanded]
      obtain ⟨trees, each⟩ := expandAll_ok all
      exact .inr ⟨others, each, by rw [trees]⟩

theorem partOf_expandArrow_iff {base part : Node} {member : String} {loc : Loc} :
    PartOf part (Operator.expandArrow base member loc) ↔
      part = Operator.expandArrow base member loc ∨
        part = apply "u*" [base] { loc := base.loc } ∨ PartOf part base ∨
        part = str member {} := by
  unfold Operator.expandArrow
  have leaf : PartOf part (str member {}) ↔ part = str member {} := by
    constructor
    · intro among
      cases among
      rfl
    · rintro rfl
      exact .root
  rw [partOf_apply_iff]
  simp only [List.mem_cons, List.not_mem_nil, or_false, exists_eq_or_imp, exists_eq_left,
    partOf_apply_iff, leaf, or_assoc]

theorem expand_spec {node tree : Node} (found : node.expand = ⟨tree, .ok ()⟩) :
    tree.Arrowless ∧ (node.Fresh → tree.Fresh) := by
  induction node using induct generalizing tree with
  | leaf node leaf =>
      cases node with
      | apply _ _ _ => cases leaf
      | ident name info | str name info | num value unsigned info =>
          simp only [expand] at found
          cases found
          refine ⟨?_, id⟩
          intro operator args info among
          cases among
  | apply operator args info ih =>
      rcases expand_apply_ok found with ⟨base, member, memberInfo, rfl, expanded, rfl⟩ |
        ⟨other, each, rfl⟩
      · obtain ⟨none, fresh⟩ := ih base List.mem_cons_self
          (show base.expand = ⟨base.expand.tree, .ok ()⟩ by rw [← expanded])
        constructor
        · intro operator args info among
          rcases partOf_expandArrow_iff.mp among with same | same | inside | same
          · intro arrow
            exact absurd ((apply.inj same).1.symm.trans arrow.1) (by decide)
          · intro arrow
            exact absurd ((apply.inj same).1.symm.trans arrow.1) (by decide)
          · exact none _ _ _ inside
          · cases same
        · intro whole part among
          rcases partOf_expandArrow_iff.mp among with rfl | rfl | inside | rfl
          · exact ⟨rfl, rfl, rfl⟩
          · exact ⟨rfl, rfl, rfl⟩
          · exact fresh (whole.arg List.mem_cons_self) part inside
          · exact ⟨rfl, rfl, rfl⟩
      · have inner (arg : Node) (member : arg ∈ args) :=
          ih arg member (show arg.expand = ⟨arg.expand.tree, .ok ()⟩ by rw [← each arg member])
        constructor
        · intro operator' args' info' among
          rcases partOf_apply_iff.mp among with same | ⟨arg, member, inside⟩
          · cases same
            rintro ⟨rfl, base, member, memberInfo, two⟩
            cases args with
            | nil => cases two
            | cons first rest =>
                cases rest with
                | nil => cases two
                | cons second rest =>
                    obtain ⟨-, two⟩ := List.cons.inj two
                    obtain ⟨named, two⟩ := List.cons.inj two
                    obtain rfl := List.map_eq_nil_iff.mp two
                    have literal := str?_expand second
                    rw [show second.expand.tree = _ from named] at literal
                    cases second with
                    | str name info => exact other ⟨rfl, first, name, info, rfl⟩
                    | apply _ _ _ | ident _ _ | num _ _ _ => cases literal
          · obtain ⟨original, place, rfl⟩ := List.mem_map.mp member
            exact (inner original place).1 _ _ _ inside
        · intro whole part among
          rcases partOf_apply_iff.mp among with rfl | ⟨arg, member, inside⟩
          · exact whole (apply operator args info) .root
          · obtain ⟨original, place, rfl⟩ := List.mem_map.mp member
            exact (inner original place).2 (whole.arg place) part inside

end Expand

section Validate

theorem exists_cons_of_length {args : List Node} (least : 1 ≤ args.length)
    (most : args.length ≤ 2) : ∃ source rest, args = source :: rest ∧ rest.length ≤ 1 := by
  cases args with
  | nil => cases least
  | cons source rest => exact ⟨source, rest, rfl, Nat.le_of_succ_le_succ most⟩

theorem length_of_checkCount {node : Node} {least most : Nat}
    (checked : Operator.checkCount node least most = .ok ()) :
    least ≤ node.args.length ∧ node.args.length ≤ most := by
  unfold Operator.checkCount at checked
  simp only at checked
  split at checked
  · assumption
  · cases checked

theorem applies_of_checked {target : Node} {description : String} {loc : Loc}
    (checked : (if !target.applies "[]" then throw (Fault.shapeError loc description)
      else pure () : Outcome) = .ok ()) : target.applies "[]" = true := by
  by_cases applied : target.applies "[]" = true
  · exact applied
  · simp [applied, throw, throwThe, MonadExceptOf.throw] at checked

theorem memberName_eq_ok_iff {node : Node} {name : String} :
    node.memberName = .ok name ↔ node.args[1]?.bind str? = some name := by
  unfold memberName
  cases node.args[1]?.bind str? <;> simp

/-- What validation asks of one application, operator by operator. -/
theorem shape_of_validateApplication {operator : String} {args : List Node} {info : Info}
    (valid : validateApplication (apply operator args info) = .ok ())
    (other : ¬ IsArrow operator args) : Shape operator args := by
  unfold validateApplication at valid
  obtain ⟨description, looked, valid⟩ := ok_of_bind valid
  obtain ⟨_, arity, checked⟩ := ok_of_bind valid
  replace looked := ok_of_lift looked
  replace arity := ok_of_lift arity
  obtain ⟨member, rfl⟩ := name_of_lookup looked
  clear looked valid
  unfold Description.checkArity at arity
  simp only at arity
  split at arity
  · rename_i accepted
    simp only [OperatorTable.language, List.mem_cons, List.not_mem_nil, or_false] at member
    have two (fixed : 2 = args.length) : ∃ first second, args = [first, second] :=
      List.length_eq_two.mp fixed.symm
    have one (fixed : 1 = args.length) : ∃ first, args = [first] :=
      List.length_eq_one_iff.mp fixed.symm
    rcases member with rfl | rfl | rfl | rfl | rfl | rfl | rfl | rfl | rfl | rfl
    · obtain ⟨base, member, rfl⟩ := two (of_decide_eq_true accepted)
      obtain ⟨name, named, -⟩ := ok_of_bind checked
      exact .dot (memberName_eq_ok_iff.mp named)
    · obtain ⟨base, member, rfl⟩ := two (of_decide_eq_true accepted)
      obtain ⟨name, named, -⟩ := ok_of_bind checked
      have literal : member.str? = some name := memberName_eq_ok_iff.mp named
      cases member with
      | str name info => exact absurd ⟨rfl, base, name, info, rfl⟩ other
      | apply _ _ _ | ident _ _ | num _ _ _ => cases literal
    · obtain ⟨pointer, rfl⟩ := one (of_decide_eq_true accepted)
      exact .deref pointer
    · refine .structLiteral ?_
      rintro rfl
      cases checked
    · obtain ⟨collection, key, rfl⟩ := two (of_decide_eq_true accepted)
      exact .subscript collection key
    · obtain ⟨target, value, rfl⟩ := two (of_decide_eq_true accepted)
      exact .assign value (applies_of_checked checked)
    · obtain ⟨target, rfl⟩ := one (of_decide_eq_true accepted)
      exact .delete (applies_of_checked checked)
    · obtain ⟨least, most⟩ := length_of_checkCount checked
      obtain ⟨left, right, rfl⟩ := two (Nat.le_antisymm least most)
      exact .strcmp left right
    · obtain ⟨least, most⟩ := length_of_checkCount checked
      obtain ⟨source, rest, rfl, short⟩ := exists_cons_of_length least most
      exact .mem source short
    · obtain ⟨least, most⟩ := length_of_checkCount checked
      obtain ⟨source, rest, rfl, short⟩ := exists_cons_of_length least most
      exact .str source short
  · cases arity

theorem validate_of_mem {nodes : List Node} (valid : validateAll nodes = .ok ()) {node : Node}
    (member : node ∈ nodes) : node.validate = .ok () := by
  induction nodes with
  | nil => cases member
  | cons head nodes ih =>
      rw [validateAll] at valid
      obtain ⟨_, first, rest⟩ := ok_of_bind valid
      rcases List.mem_cons.mp member with rfl | later
      · exact first
      · exact ih rest later

theorem shaped_of_validate {node : Node} (valid : node.validate = .ok ()) (free : node.Arrowless) :
    node.Shaped := by
  induction node using induct with
  | leaf node leaf =>
      intro operator args info among
      cases among <;> cases leaf
  | apply operator args info ih =>
      rw [validate] at valid
      obtain ⟨_, here, inner⟩ := ok_of_bind valid
      intro operator' args' info' among
      rcases partOf_apply_iff.mp among with same | ⟨arg, member, inside⟩
      · cases same
        exact shape_of_validateApplication here (free _ _ _ .root)
      · exact ih arg member (validate_of_mem inner member)
          (fun _ _ _ within => free _ _ _ (.inner member within)) _ _ _ inside

end Validate

theorem prepare_ok {statement tree : Node} (prepared : statement.prepare = .ok tree)
    (fresh : statement.Fresh) : tree.Fresh ∧ tree.Shaped := by
  unfold prepare at prepared
  obtain ⟨_, expanded, prepared⟩ := ok_of_bind prepared
  obtain ⟨_, valid, same⟩ := ok_of_bind prepared
  cases same
  have whole : statement.expand = ⟨statement.expand.tree, .ok ()⟩ := by
    rw [← ok_of_lift expanded]
  obtain ⟨free, keeps⟩ := expand_spec whole
  exact ⟨keeps fresh, shaped_of_validate valid free⟩

theorem prepare_all_ok {statements trees : List Node}
    (prepared : statements.mapM prepare = .ok trees) (fresh : ∀ node ∈ statements, node.Fresh) :
    ∀ tree ∈ trees, tree.Fresh ∧ tree.Shaped := by
  intro tree member
  obtain ⟨statement, among, same⟩ := exists_of_mem_mapM prepared member
  exact prepare_ok same (fresh statement among)

end TraceProbe.Node
