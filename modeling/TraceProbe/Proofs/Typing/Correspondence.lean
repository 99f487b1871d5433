import Mathlib.Data.List.Forall2
import TraceProbe.Proofs.Node.Growth
import TraceProbe.Proofs.Typing.Preparation

/-!
# Trees and their expansions

A tree corresponds to an expansion of it if every arrow stands where the other has
a dot behind a dereference, all other nodes stand where they are, and the nodes
that stand at one place have the same type and the same mark.  The dereference has
the type that the base of the arrow points to.
-/

namespace TraceProbe

/-- The type behind a pointer. -/
def Ty.pointed? : Ty → Option Ty
  | pointer target => some target
  | _ => none

/-- The same findings of inference. -/
structure Info.Alike (info other : Info) : Prop where
  type : other.type = info.type
  isVirtual : other.isVirtual = info.isVirtual

theorem Info.Alike.refl (info : Info) : info.Alike info :=
  ⟨rfl, rfl⟩

namespace Node

/-- A tree and an expansion of it, with the same findings on their nodes. -/
inductive Corresponds : Node → Node → Prop
  | ident {name : String} {info info' : Info} :
      info.Alike info' → Corresponds (ident name info) (ident name info')
  | str {value : String} {info info' : Info} :
      info.Alike info' → Corresponds (str value info) (str value info')
  | num {value : UInt64} {unsigned : Bool} {info info' : Info} :
      info.Alike info' → Corresponds (num value unsigned info) (num value unsigned info')
  | apply {operator : String} {args args' : List Node} {info info' : Info} :
      Shape operator args → List.Forall₂ Corresponds args args' → info.Alike info' →
        Corresponds (apply operator args info) (apply operator args' info')
  | arrow {base base' : Node} {member : String} {memberInfo memberInfo' object info info' : Info} :
      Corresponds base base' → object.type = base.type?.bind Ty.pointed? →
        (info.type.isSome → object.type.isSome) → memberInfo.Alike memberInfo' → info.Alike info' →
          Corresponds (apply "->" [base, str member memberInfo] info)
            (apply "." [apply "u*" [base'] object, str member memberInfo'] info')

namespace Corresponds

variable {node other : Node}

theorem info (same : Corresponds node other) : node.info.Alike other.info := by
  cases same with
  | ident alike | str alike | num alike | apply _ _ alike | arrow _ _ _ _ alike => exact alike

theorem type?_eq (same : Corresponds node other) : other.type? = node.type? :=
  same.info.type

theorem ident?_eq (same : Corresponds node other) : other.ident? = node.ident? := by
  cases same <;> rfl

theorem str?_eq (same : Corresponds node other) : other.str? = node.str? := by
  cases same <;> rfl

theorem num?_eq (same : Corresponds node other) : other.num? = node.num? := by
  cases same <;> rfl

theorem asVirtual (same : Corresponds node other) : Corresponds node.asVirtual other.asVirtual := by
  have marked {info info' : Info} (alike : info.Alike info') :
      Info.Alike { info with isVirtual := true } { info' with isVirtual := true } :=
    ⟨alike.type, rfl⟩
  cases same with
  | ident alike => exact .ident (marked alike)
  | str alike => exact .str (marked alike)
  | num alike => exact .num (marked alike)
  | apply shape inner alike => exact .apply shape inner (marked alike)
  | arrow inner points typed member alike => exact .arrow inner points typed member (marked alike)

/-- Only an arrow has to wait with its type for the node below it. -/
theorem fillType (same : Corresponds node other) (plain : node.operator? ≠ some "->") (type : Ty) :
    Corresponds (node.fillType type) (other.fillType type) := by
  unfold Node.fillType
  rw [same.type?_eq]
  cases node.type? with
  | some known => exact same
  | none =>
      have typed {info info' : Info} (alike : info.Alike info') :
          Info.Alike { info with type := some type } { info' with type := some type } :=
        ⟨rfl, alike.isVirtual⟩
      cases same with
      | ident alike => exact .ident (typed alike)
      | str alike => exact .str (typed alike)
      | num alike => exact .num (typed alike)
      | apply shape inner alike => exact .apply shape inner (typed alike)
      | arrow _ _ _ _ _ => exact absurd rfl plain

end Corresponds

section Arguments

variable {operator : String} {args args' : List Node} {info info' : Info} {change : Node → Node}

theorem Shape.ne_arrow (shape : Shape operator args) : operator ≠ "->" := by
  cases shape <;> decide

section Related

variable {α β : Type} {related : α → β → Prop} {items : List α} {others : List β}

theorem getElem?_of_forall₂ (inner : List.Forall₂ related items others) (index : Nat) :
    (items[index]? = none ∧ others[index]? = none) ∨
      ∃ item other, items[index]? = some item ∧ others[index]? = some other ∧
        related item other := by
  induction inner generalizing index with
  | nil => exact .inl ⟨rfl, rfl⟩
  | @cons item other _ _ first rest ih =>
      cases index with
      | zero => exact .inr ⟨item, other, rfl, rfl, first⟩
      | succ index => exact ih index

theorem forall₂_modify (inner : List.Forall₂ related items others) (index : Nat) {change : α → α}
    {change' : β → β} (each : ∀ item other, items[index]? = some item → related item other →
      related (change item) (change' other)) :
    List.Forall₂ related (items.modify index change) (others.modify index change') := by
  induction inner generalizing index with
  | nil => cases index <;> exact .nil
  | cons first rest ih =>
      cases index with
      | zero => exact .cons (each _ _ rfl first) rest
      | succ index => exact .cons first (ih index each)

end Related

/-- An argument grows on both sides. -/
theorem corresponds_modifyArgument (shape : Shape operator args)
    (inner : List.Forall₂ Corresponds args args') (alike : info.Alike info') (index : Nat)
    (grows : ∀ arg, Kept arg (change arg))
    (each : ∀ arg arg', args[index]? = some arg → Corresponds arg arg' →
      Corresponds (change arg) (change arg')) :
    Corresponds ((apply operator args info).modifyArgument index change)
      ((apply operator args' info').modifyArgument index change) := by
  have kept : KeptAll args (args.modify index change) := .modify args index fun arg _ => grows arg
  exact .apply (shape.of_bares kept.bares.symm) (forall₂_modify inner index each) alike

theorem corresponds_folded (shape : Shape operator args)
    (inner : List.Forall₂ Corresponds args args')
    (alike : info.Alike info') (index : Nat) (type : Ty) :
    Corresponds (((apply operator args info).modifyArgument index Node.asVirtual).fillType type)
      (((apply operator args' info').modifyArgument index Node.asVirtual).fillType type) := by
  have marked := corresponds_modifyArgument shape inner alike index .asVirtual
    fun _ _ _ same => same.asVirtual
  exact marked.fillType (fun arrow => shape.ne_arrow (Option.some.inj arrow)) type

end Arguments

section Expansion

variable {node : Node} {nodes args : List Node} {operator : String} {info : Info}

theorem expandAll_of_each (each : ∀ node ∈ nodes, node.expand.outcome = .ok ()) :
    expandAll nodes = ⟨nodes.map (·.expand.tree), .ok ()⟩ := by
  induction nodes with
  | nil => rfl
  | cons node nodes ih =>
      have rest := ih fun other later => each other (List.mem_cons_of_mem _ later)
      simp only [expandAll, each node List.mem_cons_self, rest, List.map_cons]

/-- A valid application is a whole arrow, or has a shape that stays as it is. -/
theorem expand_of_validateApplication
    (valid : validateApplication (apply operator args info) = .ok ())
    (each : ∀ arg ∈ args, arg.expand.outcome = .ok ()) :
    (∃ base member memberInfo, operator = "->" ∧ args = [base, str member memberInfo]) ∨
      Shape operator args ∧
        (apply operator args info).expand =
          ⟨apply operator (args.map (·.expand.tree)) info, .ok ()⟩ := by
  by_cases arrow : IsArrow operator args
  · obtain ⟨named, base, member, memberInfo, two⟩ := arrow
    exact .inl ⟨base, member, memberInfo, named, two⟩
  · refine .inr ⟨shape_of_validateApplication valid arrow, ?_⟩
    obtain ⟨description, looked, -⟩ := ok_of_bind valid
    replace looked := ok_of_lift looked
    rw [expand, looked]
    dsimp only
    split
    · rename_i base member memberInfo whole
      exact absurd ⟨(operator_eq_arrow_iff looked).mp whole, base, member, memberInfo, rfl⟩ arrow
    · rw [expandAll_of_each each]

theorem corresponds_expand (fresh : node.Fresh) (valid : node.validate = .ok ()) :
    node.expand.outcome = .ok () ∧ Corresponds node node.expand.tree := by
  induction node using induct with
  | leaf node leaf =>
      cases node with
      | apply _ _ _ => cases leaf
      | ident name info => exact ⟨rfl, .ident (.refl info)⟩
      | str value info => exact ⟨rfl, .str (.refl info)⟩
      | num value unsigned info => exact ⟨rfl, .num (.refl info)⟩
  | apply operator args info ih =>
      obtain ⟨untyped, -, plain⟩ := fresh _ .root
      rw [validate] at valid
      obtain ⟨_, here, inner⟩ := ok_of_bind valid
      have each (arg : Node) (member : arg ∈ args) :=
        ih arg member (fresh.arg member) (validate_of_mem inner member)
      rcases expand_of_validateApplication here fun arg member => (each arg member).1 with
        ⟨base, member, memberInfo, rfl, rfl⟩ | ⟨shape, expanded⟩
      · obtain ⟨ended, same⟩ := each base List.mem_cons_self
        refine ⟨ended, ?_⟩
        obtain ⟨baseFree, -, -⟩ := fresh.arg List.mem_cons_self base .root
        obtain ⟨memberFree, -, memberPlain⟩ :=
          fresh.arg (List.mem_cons_of_mem _ List.mem_cons_self) _ .root
        refine .arrow same ?_ ?_ ⟨memberFree.symm, memberPlain.symm⟩ ⟨untyped.symm, plain.symm⟩
        · rw [show base.type? = none from baseFree]
          rfl
        · intro typed
          rw [show info.type = none from untyped] at typed
          cases typed
      · rw [expanded]
        refine ⟨rfl, .apply shape ?_ (.refl info)⟩
        rw [List.forall₂_map_right_iff]
        exact List.forall₂_same.mpr fun arg member => (each arg member).2

end Expansion

end Node

end TraceProbe
