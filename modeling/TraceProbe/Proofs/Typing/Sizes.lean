import TraceProbe.Proofs.Ty.Words
import TraceProbe.Proofs.Typing.FixedPoint
import TraceProbe.Proofs.Typing.Visits

/-!
# Sizes of inferred types

Inference makes large types in two places only: a string is as long as it is
written, and a struct literal holds all of its arguments.  Every other rule
takes a type that is known, or a part of one, or a map between known types.  So
all types stay below a bound for as long as those of literals do.
-/

namespace TraceProbe

/-- Every type that is recorded for a symbol is as it should be. -/
def Symbols.TypedBy (good : Ty → Prop) (symbols : Symbols) : Prop :=
  ∀ name type, symbols.typeOf? name = some type → good type

theorem Symbols.typedBy_of_entries {good : Ty → Prop} {symbols : Symbols}
    (each : ∀ symbol ∈ symbols.entries, ∀ type ∈ symbol.type, good type) :
    symbols.TypedBy good := by
  intro name type known
  obtain ⟨symbol, found, typed⟩ := Option.bind_eq_some_iff.mp known
  exact each symbol (List.mem_of_find?_eq_some found) type typed

/-- What inference works with besides the tree: small types, and a registry that
gives a struct literal the record of its members. -/
structure Scope.Bounded (bound : Nat) (scope : Scope) : Prop where
  symbols : scope.symbols.TypedBy (Ty.Below bound)
  honest : scope.types.Honest

/-- The sizes that the options ask for, and those of scalars. -/
structure Options.Bounded (bound : Nat) (options : Options) : Prop where
  scalars : 8 < bound
  strings : options.stringSize < bound
  frame : options.maxStack < bound

namespace Node

/-- Every type on a tree is as it should be. -/
def TypedBy (good : Ty → Prop) (node : Node) : Prop :=
  ∀ part, PartOf part node → ∀ type, part.type? = some type → good type

/-- String literals and struct literals. -/
def isLiteral : Node → Bool
  | str _ _ => true
  | apply operator _ _ => operator = ":struct"
  | ident _ _ | num _ _ _ => false

/-- Every literal of a tree that has a type is smaller than a bound. -/
def LiteralsBelow (bound : Nat) (node : Node) : Prop :=
  ∀ part, PartOf part node → part.isLiteral = true →
    ∀ type, part.type? = some type → type.size < bound

variable {good : Ty → Prop} {bound : Nat} {options : Options} {node tree : Node} {nodes : List Node}
  {operator : String} {args : List Node} {info : Info} {type : Ty} {scope finish : Scope}
  {symbols : Symbols}

section Types

theorem TypedBy.here (typed : node.TypedBy good) (known : node.type? = some type) : good type :=
  typed node .root type known

theorem TypedBy.part {part : Node} (typed : node.TypedBy good) (inside : PartOf part node) :
    part.TypedBy good := by
  intro smaller within
  exact typed smaller (within.trans inside)

theorem TypedBy.arg {arg : Node} (typed : node.TypedBy good) (member : arg ∈ node.args) :
    arg.TypedBy good :=
  typed.part (.of_arg member)

theorem TypedBy.argument {arg : Node} {index : Nat} (typed : node.TypedBy good)
    (found : node.argument index = .ok arg) (known : arg.type? = some type) : good type := by
  unfold Node.argument at found
  split at found
  · rename_i same
    cases found
    exact (typed.arg (List.mem_of_getElem? same)).here known
  · cases found

theorem typedBy_apply (here : ∀ type, info.type = some type → good type)
    (inner : ∀ arg ∈ args, arg.TypedBy good) : (apply operator args info).TypedBy good := by
  intro part inside
  cases inside with
  | root => exact here
  | inner member within => exact inner _ member part within

theorem TypedBy.withInfo {other : Info} (typed : node.TypedBy good)
    (here : ∀ type, other.type = some type → good type) : (node.withInfo other).TypedBy good := by
  cases node with
  | apply operator args info => exact typedBy_apply here fun arg member => typed.arg member
  | ident _ _ | str _ _ | num _ _ _ =>
      intro part inside
      cases inside
      exact here

theorem TypedBy.asVirtual (typed : node.TypedBy good) : node.asVirtual.TypedBy good :=
  typed.withInfo fun _ known => typed.here known

theorem TypedBy.fillType (typed : node.TypedBy good)
    (here : node.type? = none → good type) : (node.fillType type).TypedBy good := by
  cases known : node.type? with
  | some other =>
      rw [fillType_of_type? known]
      exact typed
  | none =>
      rw [fillType_of_free known]
      refine typed.withInfo ?_
      intro given same
      cases same
      exact here known

theorem TypedBy.modifyArgument {index : Nat} {change : Node → Node} (typed : node.TypedBy good)
    (changed : ∀ arg ∈ node.args, arg.TypedBy good → (change arg).TypedBy good) :
    (node.modifyArgument index change).TypedBy good := by
  cases node with
  | apply operator args info =>
      refine typedBy_apply (fun _ known => typed.here known) ?_
      intro arg member
      obtain ⟨place, inside, same⟩ := List.mem_iff_getElem.mp member
      rw [List.length_modify] at inside
      have there := List.getElem_mem inside
      rw [List.getElem_modify] at same
      split at same
      · exact same ▸ changed _ there (typed.arg there)
      · exact same ▸ typed.arg there
  | ident _ _ | str _ _ | num _ _ _ => exact typed

theorem TypedBy.withArguments {others : List Node} (typed : node.TypedBy good)
    (inner : ∀ other ∈ others, other.TypedBy good) : (node.withArguments others).TypedBy good := by
  cases node with
  | apply operator args info => exact typedBy_apply (fun _ known => typed.here known) inner
  | ident _ _ | str _ _ | num _ _ _ => exact typed

theorem TypedBy.folded (typed : node.TypedBy good) (index : Nat) (here : good type) :
    ((node.modifyArgument index Node.asVirtual).fillType type).TypedBy good := by
  have marked : (node.modifyArgument index Node.asVirtual).TypedBy good :=
    typed.modifyArgument fun _ _ inner => inner.asVirtual
  apply marked.fillType
  intro _
  exact here

end Types

section Literals

theorem literalsBelow_iff : node.LiteralsBelow bound ↔
    ∀ part ∈ node.parts, part.isLiteral = true → ∀ type ∈ part.type?, type.size < bound := by
  constructor
  · intro literals part member
    exact literals part (mem_parts_iff.mp member)
  · intro each part inside
    exact each part (mem_parts_iff.mpr inside)

instance : Decidable (node.LiteralsBelow bound) :=
  decidable_of_iff' _ literalsBelow_iff

theorem LiteralsBelow.part {part : Node} (literals : node.LiteralsBelow bound)
    (inside : PartOf part node) : part.LiteralsBelow bound := by
  intro smaller within
  exact literals smaller (within.trans inside)

theorem Kept.isLiteral (kept : Kept node tree) : tree.isLiteral = node.isLiteral := by
  cases kept <;> rfl

theorem Kept.exists_part {part : Node} (kept : Kept node tree) (inside : PartOf part node) :
    ∃ later, PartOf later tree ∧ Kept part later := by
  induction inside generalizing tree with
  | root => exact ⟨tree, .root, kept⟩
  | inner member _ ih =>
      cases kept with
      | apply kept length each =>
          obtain ⟨index, found⟩ := List.mem_iff_getElem?.mp member
          obtain ⟨here, -⟩ := List.getElem?_eq_some_iff.mp found
          have there := List.getElem?_eq_getElem (length ▸ here)
          obtain ⟨later, within, kept⟩ := ih (each index _ _ found there)
          exact ⟨later, .inner (List.mem_of_getElem? there) within, kept⟩

theorem LiteralsBelow.of_kept (literals : tree.LiteralsBelow bound) (kept : Kept node tree) :
    node.LiteralsBelow bound := by
  intro part inside literal type known
  obtain ⟨later, within, kept⟩ := kept.exists_part inside
  exact literals later within (kept.isLiteral.trans literal) type (kept.typed known)

theorem KeptAll.literalsBelow {trees : List Node} (kept : KeptAll nodes trees)
    (literals : ∀ tree ∈ trees, tree.LiteralsBelow bound) :
    ∀ node ∈ nodes, node.LiteralsBelow bound := by
  intro node member
  obtain ⟨index, found⟩ := List.mem_iff_getElem?.mp member
  obtain ⟨here, -⟩ := List.getElem?_eq_some_iff.mp found
  have there := List.getElem?_eq_getElem (kept.length ▸ here : index < trees.length)
  exact (literals _ (List.mem_of_getElem? there)).of_kept (kept.each index _ _ found there)

end Literals

section Rules

/-- What is known of a tree and its scope behind a step. -/
structure Bounded (bound : Nat) (result : Typed Node) : Prop where
  tree : result.tree.TypedBy (Ty.Below bound)
  scope : result.scope.Bounded bound

variable (typed : node.TypedBy (Ty.Below bound)) (around : scope.Bounded bound)

include typed around

theorem bounded_ofRule {rule : Except Fault Node}
    (each : ∀ changed, rule = .ok changed → changed.TypedBy (Ty.Below bound)) :
    Bounded bound (Typed.ofRule node scope rule) := by
  cases rule with
  | error fault => exact ⟨typed, around⟩
  | ok changed => exact ⟨each changed rfl, around⟩

omit typed in
theorem bounded_record (below : type.Below bound) :
    ({ scope with symbols := node.recordType type scope.symbols } : Scope).Bounded bound := by
  refine ⟨?_, around.honest⟩
  unfold recordType
  split
  · intro name other known
    obtain ⟨symbol, found, same⟩ := Option.bind_eq_some_iff.mp known
    rw [Symbols.get?_setType] at found
    obtain ⟨before, there, rfl⟩ := Option.map_eq_some_iff.mp found
    split at same
    · cases same
      exact below
    · exact around.symbols name other (Option.bind_eq_some_iff.mpr ⟨before, there, same⟩)
  · exact around.symbols

omit around in
theorem typedBy_typeMember {base : Node} {record : Ty} (below : record.Below bound)
    (found : node.typeMember base record = .ok tree) : tree.TypedBy (Ty.Below bound) := by
  obtain ⟨name, fieldType, -, fielded, rfl⟩ := typeMember_ok found
  refine typed.folded 1 ?_
  unfold memberType at fielded
  split at fielded
  · cases fielded
  · rename_i shape known
    obtain rfl := Ty.eq_of_record? known
    split at fielded
    · rename_i field there
      cases fielded
      exact below.members (List.mem_of_find?_eq_some there)
    · cases fielded

theorem bounded_dot : Bounded bound (.ofRule node scope node.typeDot) := by
  refine bounded_ofRule typed around ?_
  intro changed found
  obtain rfl | ⟨-, base, type, first, known, found⟩ := typeDot_ok found
  · exact typed
  · exact typedBy_typeMember typed (typed.argument first known) found

theorem bounded_arrow : Bounded bound (.ofRule node scope node.typeArrow) := by
  refine bounded_ofRule typed around ?_
  intro changed found
  obtain rfl | ⟨-, base, target, first, known, found⟩ := typeArrow_ok found
  · exact typed
  · have below : (Ty.pointer target).Below bound := typed.argument first known
    exact typedBy_typeMember typed (below.component (.target .whole)) found

theorem bounded_deref : Bounded bound (.ofRule node scope node.typeDeref) := by
  refine bounded_ofRule typed around ?_
  intro changed found
  obtain rfl | ⟨-, pointer, target, first, known, rfl⟩ := typeDeref_ok found
  · exact typed
  · have below : (Ty.pointer target).Below bound := typed.argument first known
    exact typed.fillType fun _ => below.component (.target .whole)

omit typed around in
theorem le_of_readLength {length : Node} {limit count : Nat}
    (found : node.readLength length limit = .ok count) : count ≤ limit := by
  unfold readLength at found
  split at found
  · obtain ⟨_, -, same⟩ := ok_of_bind found
    cases same
  · split at found
    · cases found
    · rename_i inside
      split at found
      · cases found
      · cases found
        exact Nat.le_of_not_lt inside

theorem bounded_read (within : options.Bounded bound) :
    Bounded bound (.ofRule node scope (node.typeRead options)) := by
  have text {length : Nat} (fits : length < bound) : (Ty.array .char length).Below bound :=
    Ty.below_array (Ty.below_scalar within.scalars .char) ((Nat.one_mul length).symm ▸ fits)
  refine bounded_ofRule typed around ?_
  intro changed found
  obtain rfl | ⟨-, source, -, -, ⟨-, rfl⟩ | ⟨length, count, -, read, rfl⟩⟩ := typeRead_ok found
  · exact typed
  · exact typed.fillType fun _ => text within.strings
  · exact typed.folded 1 (text (Nat.lt_of_le_of_lt (le_of_readLength read) within.frame))

omit typed around in
theorem typedBy_foldLiterals {operands : List Node}
    (each : ∀ operand ∈ operands, operand.TypedBy good) :
    ∀ operand ∈ (foldLiterals operands).1, operand.TypedBy good := by
  induction operands with
  | nil => exact each
  | cons operand rest ih =>
      have first := each operand List.mem_cons_self
      have others := ih fun other member => each other (List.mem_cons_of_mem _ member)
      unfold foldLiterals
      split
      · exact List.forall_mem_cons.mpr ⟨first.asVirtual, others⟩
      · split
        · exact List.forall_mem_cons.mpr ⟨first, others⟩
        · exact each
      · exact each

theorem bounded_strcmp (within : options.Bounded bound) :
    Bounded bound (node.typeStrcmp scope) := by
  unfold typeStrcmp
  split
  · exact ⟨typed, around⟩
  · have folded := typed.withArguments (typedBy_foldLiterals fun arg member => typed.arg member)
    have small : Ty.int.Below bound := Ty.below_scalar within.scalars .int
    rcases operands : foldLiterals node.args with ⟨others, outcome⟩
    rw [operands] at folded
    cases outcome with
    | error fault => exact ⟨folded, around⟩
    | ok _ =>
        dsimp only
        split
        · exact ⟨folded, around⟩
        · exact ⟨folded.fillType fun _ => small, bounded_record around small⟩

omit typed around in
theorem below_elementType {collection key : Node} {collectionType keyType : Ty}
    (below : collectionType.Below bound)
    (found : node.elementType collection key collectionType keyType = .ok type) :
    type.Below bound := by
  unfold elementType at found
  split at found
  · obtain ⟨rfl, -⟩ := indexedType_ok found
    exact below.component (.element .whole)
  · obtain ⟨rfl, -⟩ := indexedType_ok found
    exact below.component (.target .whole)
  · split at found
    · exact Except.ok.inj found ▸ below.component (.value .whole)
    · cases found
  · cases found

theorem bounded_subscript : Bounded bound (node.typeSubscript scope) := by
  unfold typeSubscript
  split
  · rename_i collection key two
    have first : collection ∈ node.args := two ▸ List.mem_cons_self
    have second : key ∈ node.args := two ▸ List.mem_cons_of_mem _ List.mem_cons_self
    split
    · rename_i keyType collectionType keyed free collected
      refine bounded_ofRule typed around ?_
      intro changed found
      obtain ⟨type, known, same⟩ := ok_of_bind found
      have below := below_elementType ((typed.arg first).here collected) known
      cases same
      split
      · exact typed.folded 1 below
      · exact typed.fillType fun _ => below
    · rename_i keyType type keyed known free
      unfold typeCollection
      split
      · exact ⟨typed, around⟩
      · have below : (Ty.map keyType type .hash).Below bound :=
          Ty.below_map ((typed.arg second).here keyed) (typed.here known)
        exact ⟨typed.modifyArgument fun _ _ inner => inner.fillType fun _ => below,
          bounded_record around below⟩
    · exact ⟨typed, around⟩
    · exact ⟨typed, around⟩
  · exact ⟨typed, around⟩

theorem bounded_assign (within : options.Bounded bound) :
    Bounded bound (node.typeAssign scope) := by
  have empty : Ty.void.Below bound := Ty.below_void (Nat.lt_trans (by decide) within.scalars)
  unfold typeAssign
  split
  · exact ⟨typed, around⟩
  · split
    · rename_i target value rest parts
      split
      · exact ⟨typed, around⟩
      · rename_i valueType known
        have member : value ∈ node.args := parts ▸ List.mem_cons_of_mem _ List.mem_cons_self
        have below := (typed.arg member).here known
        split
        · exact ⟨typed, around⟩
        · unfold typeTarget
          split
          · have inner : (node.modifyArgument 0 (fillType · valueType)).TypedBy (Ty.Below bound) :=
              typed.modifyArgument fun _ _ inner => inner.fillType fun _ => below
            exact ⟨inner.fillType fun _ => empty, bounded_record around below⟩
          · refine bounded_ofRule typed around ?_
            intro changed found
            obtain ⟨_, -, same⟩ := ok_of_bind found
            cases same
            exact typed.fillType fun _ => empty
    · exact ⟨typed, around⟩

omit typed around in
theorem forall_of_valueTypes {members : List Ty} {others : List Node}
    (each : ∀ other ∈ others, other.TypedBy good) (known : valueTypes? others = some members) :
    ∀ member ∈ members, good member := by
  induction others generalizing members with
  | nil =>
      cases known
      intro _ absent
      cases absent
  | cons other others ih =>
      rw [valueTypes?] at known
      split at known
      · cases known
      · rename_i type here
        split at known
        · obtain ⟨rest, later, rfl⟩ := Option.map_eq_some_iff.mp known
          have inner := ih (fun other member => each other (List.mem_cons_of_mem _ member)) later
          exact List.forall_mem_cons.mpr ⟨(each other List.mem_cons_self).here here, inner⟩
        · cases known

theorem bounded_structLiteral (literal : node.isLiteral = true)
    (literals : (node.typeStructLiteral scope).tree.LiteralsBelow bound) :
    Bounded bound (node.typeStructLiteral scope) := by
  unfold typeStructLiteral at literals ⊢
  split
  · rename_i members free known
    rw [free, known] at literals
    obtain ⟨honest, name, record⟩ := around.honest.anonymousStruct members
    dsimp only at literals
    rcases made : scope.types.anonymousStruct members with ⟨type, types⟩
    rw [made] at literals honest record
    obtain rfl : type = _ := record
    have filled : node.fillType (.record ⟨name, _, false, false⟩) =
        node.withType (.record ⟨name, Registry.positionalFields members, false, false⟩) :=
      fillType_of_free free _
    have small := literals _ .root
      ((Kept.fillType node _).isLiteral.trans literal) _ (filled ▸ type?_withType node _)
    have each := forall_of_valueTypes (fun arg member => typed.arg member) known
    have below :
        (Ty.record ⟨name, Registry.positionalFields members, false, false⟩).Below bound := by
      refine Ty.below_record small ?_
      intro field among
      obtain ⟨index, inside, rfl⟩ := List.mem_mapIdx.mp among
      exact each _ (List.getElem_mem inside)
    have registered : ({ scope with types := types } : Scope).Bounded bound :=
      ⟨around.symbols, honest⟩
    exact ⟨typed.fillType fun _ => below, bounded_record registered below⟩
  · exact ⟨typed, around⟩

end Rules

section Passes

theorem isLiteral_of_lookup {description : Description}
    (known : OperatorTable.language.lookup node = .ok description)
    (rule : description.operator = .structLiteral) : node.isLiteral = true := by
  unfold OperatorTable.lookup at known
  split at known
  · cases known
  · rename_i name applies
    split at known
    · rename_i found
      cases known
      have named : description.name = name := by
        simpa using List.find?_some found
      have listed := List.mem_of_find?_eq_some found
      have struct : description.name = ":struct" := by
        have each : ∀ description ∈ OperatorTable.language.descriptions,
            description.operator = .structLiteral → description.name = ":struct" := by
          simp [OperatorTable.language]
        exact each description listed rule
      cases node with
      | apply operator args info =>
          cases applies
          simp [isLiteral, ← named, struct]
      | ident _ _ | str _ _ | num _ _ _ => cases applies
    · cases known

theorem result_eq_void {description : Description}
    (known : OperatorTable.language.lookup node = .ok description) :
    description.result = .void := by
  unfold OperatorTable.lookup at known
  split at known
  · cases known
  · split at known
    · rename_i found
      cases known
      have each : ∀ description ∈ OperatorTable.language.descriptions,
          description.result = .void := by
        simp [OperatorTable.language, Description.result, OperatorTable.untyped]
      exact each description (List.mem_of_find?_eq_some found)
    · cases known

variable (within : options.Bounded bound)

include within

theorem bounded_application (typed : node.TypedBy (Ty.Below bound)) (around : scope.Bounded bound)
    (literals : (inferApplication options node scope).tree.LiteralsBelow bound) :
    Bounded bound (inferApplication options node scope) := by
  unfold inferApplication at literals ⊢
  split
  · exact ⟨typed, around⟩
  · rename_i description known
    rw [known] at literals
    dsimp only at literals ⊢
    have empty : description.result.Below bound := by
      rw [result_eq_void known]
      exact Ty.below_void (Nat.lt_trans (by decide) within.scalars)
    generalize begun :
        (if description.fixedResult then node.fillType description.result else node) =
      started at literals ⊢
    have kept : Kept node started := by
      subst begun
      split
      · exact .fillType node _
      · exact .refl node
    have typed : started.TypedBy (Ty.Below bound) := by
      subst begun
      split
      · exact typed.fillType fun _ => empty
      · exact typed
    cases rule : description.operator with
    | dot => exact bounded_dot typed around
    | arrow => exact bounded_arrow typed around
    | deref => exact bounded_deref typed around
    | structLiteral =>
        rw [rule] at literals
        exact bounded_structLiteral typed around
          (kept.isLiteral.trans (isLiteral_of_lookup known rule)) literals
    | subscript => exact bounded_subscript typed around
    | assign => exact bounded_assign typed around within
    | delete => exact ⟨typed, around⟩
    | strcmp => exact bounded_strcmp typed around within
    | mem | str => exact bounded_read typed around within

/-- A visit of a node keeps types small if those of its literals are. -/
def Bounds (options : Options) (bound : Nat) (node : Node) : Prop :=
  ∀ scope : Scope, node.TypedBy (Ty.Below bound) → scope.Bounded bound →
    (infer options node scope).tree.LiteralsBelow bound → Bounded bound (infer options node scope)

/-- What is known of several trees and their scope behind a pass. -/
structure BoundedAll (bound : Nat) (result : Typed (List Node)) : Prop where
  trees : ∀ tree ∈ result.tree, tree.TypedBy (Ty.Below bound)
  scope : result.scope.Bounded bound

omit within in
theorem boundedAll (each : ∀ node ∈ nodes, Bounds options bound node)
    (typed : ∀ node ∈ nodes, node.TypedBy (Ty.Below bound)) (around : scope.Bounded bound)
    (literals : ∀ tree ∈ (inferAll options nodes scope).tree, tree.LiteralsBelow bound) :
    BoundedAll bound (inferAll options nodes scope) := by
  induction nodes generalizing scope with
  | nil => exact ⟨typed, around⟩
  | cons node nodes ih =>
      have others : ∀ other ∈ nodes, other.TypedBy (Ty.Below bound) :=
        fun other member => typed other (List.mem_cons_of_mem _ member)
      have first := each node List.mem_cons_self scope (typed node List.mem_cons_self) around
      rw [inferAll] at literals ⊢
      generalize infer options node scope = visit at first literals ⊢
      obtain ⟨tree, middle, outcome⟩ := visit
      cases outcome with
      | error fault =>
          obtain ⟨here, scope⟩ := first (literals tree List.mem_cons_self)
          exact ⟨List.forall_mem_cons.mpr ⟨here, others⟩, scope⟩
      | ok _ =>
          dsimp only at literals ⊢
          obtain ⟨here, there⟩ := List.forall_mem_cons.mp literals
          obtain ⟨here, scope⟩ := first here
          have rest := ih (fun other member => each other (List.mem_cons_of_mem _ member)) others
            scope there
          exact ⟨List.forall_mem_cons.mpr ⟨here, rest.trees⟩, rest.scope⟩

theorem bounds (node : Node) : Bounds options bound node := by
  induction node using induct with
  | leaf node leaf =>
      intro scope typed around literals
      cases node with
      | apply _ _ _ => cases leaf
      | ident name info =>
          cases known : info.type with
          | some type =>
              have same : infer options (ident name info) scope =
                  ⟨ident name info, scope, .ok ()⟩ := by
                rw [infer, if_pos (by rw [known]; rfl)]
              rw [same]
              exact ⟨typed, around⟩
          | none =>
              obtain ⟨-, found, kept⟩ := Symbols.resolve_spec scope.symbols name
              rw [infer_ident known]
              refine ⟨?_, ?_, around.honest⟩
              · refine typed.withInfo ?_
                intro type same
                exact around.symbols name type (found.symm.trans same)
              · intro other type there
                exact around.symbols other type ((kept other).symm.trans there)
      | str value info =>
          refine ⟨typed.fillType ?_, around⟩
          intro free
          have filled := fillType_of_free free (literalType value)
          have known : ((str value info).fillType (literalType value)).type? =
              some (literalType value) :=
            filled ▸ type?_withType _ _
          have small := literals _ .root (Kept.fillType _ _).isLiteral _ known
          exact Ty.below_array (Ty.below_scalar within.scalars .char) small
      | num value unsigned info =>
          refine ⟨typed.fillType ?_, around⟩
          intro _
          unfold numberType
          split <;> exact Ty.below_scalar within.scalars _
  | apply operator args info ih =>
      intro scope typed around literals
      have inner := boundedAll ih (fun arg member => typed.arg member) around
      rw [infer] at literals ⊢
      generalize inferAll options args scope = visits at inner literals ⊢
      obtain ⟨trees, middle, outcome⟩ := visits
      have here : ∀ type, info.type = some type → type.Below bound :=
        fun _ known => typed.here known
      cases outcome with
      | error fault =>
          obtain ⟨trees, scope⟩ := inner fun tree member => literals.part (.of_arg member)
          exact ⟨typedBy_apply here trees, scope⟩
      | ok _ =>
          dsimp only at literals ⊢
          have before : (apply operator trees info).LiteralsBelow bound :=
            literals.of_kept (kept_application options _ middle)
          obtain ⟨trees, scope⟩ := inner fun tree member => before.part (.of_arg member)
          exact bounded_application within (typedBy_apply here trees) scope literals

/-- However inference ends, all types are small if those of literals are. -/
theorem bounded_inferTypes {statements : List Node}
    (typed : ∀ node ∈ statements, node.TypedBy (Ty.Below bound)) (around : scope.Bounded bound)
    (literals : ∀ tree ∈ (inferTypes options statements scope).tree, tree.LiteralsBelow bound) :
    BoundedAll bound (inferTypes options statements scope) := by
  unfold inferTypes at literals ⊢
  generalize options.maxPasses = limit at literals ⊢
  induction limit generalizing statements scope with
  | zero => exact ⟨typed, around⟩
  | succ limit ih =>
      have first := boundedAll (fun node _ => bounds within node) typed around
      rw [inferPasses] at literals ⊢
      generalize inferAll options statements scope = pass at first literals ⊢
      obtain ⟨trees, middle, outcome⟩ := pass
      cases outcome with
      | error fault =>
          obtain ⟨trees, scope⟩ := first literals
          exact ⟨trees, scope⟩
      | ok _ =>
          dsimp only at literals ⊢
          split at literals
          · rename_i complete
            rw [if_pos complete]
            exact first literals
          · rename_i waiting
            rw [if_neg waiting]
            split at literals
            · rename_i stuck
              rw [if_pos stuck]
              obtain ⟨trees, scope⟩ := first literals
              exact ⟨trees, scope⟩
            · rename_i progress
              rw [if_neg progress]
              -- what is small behind the last pass was small behind this one
              obtain ⟨trees, scope⟩ :=
                first ((kept_inferPasses options limit _ _).literalsBelow literals)
              exact ih trees scope literals

end Passes

end Node

end TraceProbe
