import Mathlib.Data.List.Forall2
import TraceProbe.Proofs.Typing.Concurrence
import TraceProbe.Proofs.Typing.Visits

/-!
# Alternatives for a type

Where a map got its type from, its key and value types may come out as any of
several compatible types.  Since compatibility is an equivalence, the checks of
assignments, keys and values end alike whichever alternative it was, and a map may
be used in any order.
-/

namespace TraceProbe

/-- Two findings of inference: nothing on both sides, or compatible types. -/
abbrev Ty.Alternative : Option Ty → Option Ty → Prop :=
  Option.Rel fun left right => left.compatible right = true

theorem Ty.alternatives {left right : Option Ty} (related : Ty.Alternative left right) :
    (left = none ∧ right = none) ∨
      ∃ type type', left = some type ∧ right = some type' ∧ type.compatible type' = true := by
  cases related with
  | none => exact .inl ⟨rfl, rfl⟩
  | some types => exact .inr ⟨_, _, rfl, rfl, types⟩

namespace Node

/-- A tree and the same tree with an alternative for the type of every node. -/
inductive Retyped : Node → Node → Prop
  | ident {name : String} {info info' : Info} :
      Ty.Alternative info.type info'.type → Retyped (ident name info) (ident name info')
  | str {value : String} {info info' : Info} :
      Ty.Alternative info.type info'.type → Retyped (str value info) (str value info')
  | num {value : UInt64} {unsigned : Bool} {info info' : Info} :
      Ty.Alternative info.type info'.type →
      Retyped (num value unsigned info) (num value unsigned info')
  | apply {operator : String} {args args' : List Node} {info info' : Info} :
      Ty.Alternative info.type info'.type → List.Forall₂ Retyped args args' →
        Retyped (apply operator args info) (apply operator args' info')

namespace Retyped

variable {node other : Node}

theorem type (same : Retyped node other) : Ty.Alternative node.type? other.type? := by
  cases same with
  | ident types | str types | num types | apply types _ => exact types

theorem num?_eq (same : Retyped node other) : other.num? = node.num? := by
  cases same <;> rfl

theorem ident?_eq (same : Retyped node other) : other.ident? = node.ident? := by
  cases same <;> rfl

theorem args (same : Retyped node other) : List.Forall₂ Retyped node.args other.args := by
  cases same with
  | apply _ inner => exact inner
  | ident _ | str _ | num _ => exact .nil

theorem asVirtual (same : Retyped node other) : Retyped node.asVirtual other.asVirtual := by
  cases same with
  | ident types => exact .ident types
  | str types => exact .str types
  | num types => exact .num types
  | apply types inner => exact .apply types inner

theorem fillType (same : Retyped node other) {type type' : Ty}
    (types : type.compatible type' = true) :
    Retyped (node.fillType type) (other.fillType type') := by
  unfold Node.fillType
  generalize known : node.type? = before, known' : other.type? = before'
  have related : Ty.Alternative before before' := known ▸ known' ▸ same.type
  cases related with
  | some _ => exact same
  | none =>
      cases same with
      | ident _ => exact .ident (.some types)
      | str _ => exact .str (.some types)
      | num _ => exact .num (.some types)
      | apply _ inner => exact .apply (.some types) inner

theorem modifyArgument (same : Retyped node other) (index : Nat) {change change' : Node → Node}
    (each : ∀ arg arg', Retyped arg arg' → Retyped (change arg) (change' arg')) :
    Retyped (node.modifyArgument index change) (other.modifyArgument index change') := by
  cases same with
  | apply types inner =>
      exact .apply types (forall₂_modify inner index fun arg arg' _ => each arg arg')
  | ident types => exact .ident types
  | str types => exact .str types
  | num types => exact .num types

end Retyped

section Checks

variable {node other collection collection' key key' : Node} {collectionType collectionType' keyType
  keyType' type type' : Ty}

theorem checkElement_map_iff {mapKey value : Ty} {kind : MapKind} :
    node.checkElement collection key (.map mapKey value kind) keyType type = .ok () ↔
      mapKey.compatible keyType = true ∧ value.compatible type = true := by
  unfold checkElement
  cases keys : mapKey.compatible keyType <;> cases values : value.compatible type <;>
    simp [keys, values]

namespace Retyped

theorem concurs_checkElement (collections : collectionType.compatible collectionType' = true)
    (keys : keyType.compatible keyType' = true) (types : type.compatible type' = true) :
    Concurs Eq (node.checkElement collection key collectionType keyType type)
      (other.checkElement collection' key' collectionType' keyType' type') := by
  unfold checkElement
  cases collectionType with
  | map mapKey value kind =>
      cases collectionType' with
      | map mapKey' value' kind' =>
          simp only [Ty.compatible, Bool.and_eq_true] at collections
          dsimp only
          rw [Ty.compatible_congr collections.1 keys, Ty.compatible_congr collections.2 types]
          cases mapKey'.compatible keyType' <;> cases value'.compatible type'
          · exact .error rfl
          · exact .error rfl
          · exact .error rfl
          · exact .ok rfl
      | _ => simp [Ty.compatible] at collections
  | _ => cases collectionType' <;> first | exact .ok rfl | simp [Ty.compatible] at collections

theorem isScalar_eq (types : type.compatible type' = true) : type'.isScalar = type.isScalar := by
  cases type <;> cases type' <;> first | rfl | simp [Ty.compatible] at types

theorem isIndexed_eq (types : type.compatible type' = true) : isIndexed type' = isIndexed type := by
  cases type <;> cases type' <;> first | rfl | simp [Ty.compatible] at types

theorem concurs_indexedType {element element' : Ty} {length? : Option Nat}
    (same : key'.num? = key.num?) (keys : keyType.compatible keyType' = true)
    (elements : element.compatible element' = true) :
    Concurs (fun left right : Ty => left.compatible right = true)
      (node.indexedType collection key collectionType keyType element length?)
      (other.indexedType collection' key' collectionType' keyType' element' length?) := by
  unfold indexedType
  rw [same, isScalar_eq keys]
  cases keyType.isScalar with
  | false => exact .error rfl
  | true =>
      cases key.num? with
      | none => exact .ok elements
      | some position =>
          cases length? with
          | none => exact .ok elements
          | some length =>
              by_cases outside : length ≤ position.toNat
              · simp only [outside]
                exact .error rfl
              · simp only [outside]
                exact .ok elements

theorem concurs_elementType (same : key'.num? = key.num?)
    (collections : collectionType.compatible collectionType' = true)
    (keys : keyType.compatible keyType' = true) :
    Concurs (fun left right : Ty => left.compatible right = true)
      (node.elementType collection key collectionType keyType)
      (other.elementType collection' key' collectionType' keyType') := by
  unfold elementType
  cases collectionType with
  | array element length =>
      cases collectionType' with
      | array element' length' =>
          simp only [Ty.compatible, Bool.and_eq_true, decide_eq_true_eq] at collections
          obtain ⟨rfl, elements⟩ := collections
          exact concurs_indexedType same keys elements
      | _ => simp [Ty.compatible] at collections
  | pointer target =>
      cases collectionType' with
      | pointer target' =>
          simp only [Ty.compatible] at collections
          exact concurs_indexedType same keys collections
      | _ => simp [Ty.compatible] at collections
  | map mapKey value kind =>
      cases collectionType' with
      | map mapKey' value' kind' =>
          simp only [Ty.compatible, Bool.and_eq_true] at collections
          dsimp only
          rw [Ty.compatible_congr collections.1 keys]
          cases mapKey'.compatible keyType' with
          | true => exact .ok collections.2
          | false => exact .error rfl
      | _ => simp [Ty.compatible] at collections
  | void | scalar _ | record _ | function _ =>
      cases collectionType' <;> first | exact .error rfl | simp [Ty.compatible] at collections

/-- The element of a collection gets an alternative for its type, or both rules fail. -/
theorem concurs_typeElement (same : Retyped node other) (keys : Retyped key key')
    (collections : collectionType.compatible collectionType' = true)
    (types : keyType.compatible keyType' = true) :
    Concurs Retyped (node.typeElement collection key collectionType keyType)
      (other.typeElement collection' key' collectionType' keyType') := by
  unfold typeElement
  refine (concurs_elementType keys.num?_eq collections types).bind fun type type' elements => ?_
  dsimp only
  rw [keys.num?_eq, isIndexed_eq collections]
  split
  · exact .ok ((same.modifyArgument 1 fun _ _ => asVirtual).fillType elements)
  · exact .ok (same.fillType elements)

/-- A map gets alternatives for its type from alternatives for its key and its value. -/
theorem concurs_typeCollection (same : Retyped node other)
    (collections : Retyped collection collection')
    (keys : keyType.compatible keyType' = true) (types : type.compatible type' = true)
    (scope scope' : Scope) :
    Retyped (node.typeCollection collection keyType type scope).tree
        (other.typeCollection collection' keyType' type' scope').tree ∧
      Concurs Eq (node.typeCollection collection keyType type scope).outcome
        (other.typeCollection collection' keyType' type' scope').outcome := by
  unfold typeCollection
  rw [collections.ident?_eq]
  cases collection.ident? with
  | none => exact ⟨same, .error rfl⟩
  | some name =>
      have maps : (Ty.map keyType type .hash).compatible (.map keyType' type' .hash) = true := by
        simp only [Ty.compatible, keys, types, Bool.and_self]
      exact ⟨same.modifyArgument 0 fun _ _ arg => arg.fillType maps, .ok rfl⟩

theorem concurs_ofRule (same : Retyped node other) {rule rule' : Except Fault Node}
    (rules : Concurs Retyped rule rule') (scope scope' : Scope) :
    Retyped (Typed.ofRule node scope rule).tree (Typed.ofRule other scope' rule').tree ∧
      Concurs Eq (Typed.ofRule node scope rule).outcome
        (Typed.ofRule other scope' rule').outcome := by
  cases rules with
  | ok trees => exact ⟨trees, .ok rfl⟩
  | error kinds => exact ⟨same, .error kinds⟩

/-- The rule of the subscript ends alike, with alternatives for the types it finds. -/
theorem concurs_typeSubscript (same : Retyped node other) (scope scope' : Scope) :
    Retyped (node.typeSubscript scope).tree (other.typeSubscript scope').tree ∧
      Concurs Eq (node.typeSubscript scope).outcome (other.typeSubscript scope').outcome := by
  have unchanged : Retyped node other ∧ Concurs Eq (.ok () : Outcome) (.ok ()) := ⟨same, .ok rfl⟩
  unfold Node.typeSubscript
  generalize given : node.args = args, given' : other.args = args'
  have inner : List.Forall₂ Retyped args args' := given ▸ given' ▸ same.args
  match args, args', inner with
  | [], _, .nil => exact unchanged
  | [_], _, .cons _ .nil => exact unchanged
  | _ :: _ :: _ :: _, _, .cons _ (.cons _ (.cons _ _)) => exact unchanged
  | [collection, key], [collection', key'], .cons first (.cons second .nil) =>
      dsimp only
      rcases Ty.alternatives second.type with ⟨none, none'⟩ | ⟨_, _, known, known', keys⟩
      · rw [none, none']
        exact unchanged
      rw [known, known']
      rcases Ty.alternatives same.type with ⟨none, none'⟩ | ⟨_, _, own, own', types⟩ <;>
        rcases Ty.alternatives first.type with ⟨free, free'⟩ | ⟨_, _, whole, whole', collections⟩
      · rw [none, none', free, free']
        exact unchanged
      · rw [none, none', whole, whole']
        exact concurs_ofRule same (concurs_typeElement same second collections keys) scope scope'
      · rw [own, own', free, free']
        exact concurs_typeCollection same first keys types scope scope'
      · rw [own, own', whole, whole']
        exact ⟨same, concurs_checkElement collections keys types⟩

theorem concurs_checkAssignable (types : type.compatible type' = true)
    (values : keyType.compatible keyType' = true) (two : node.args.length = 2)
    (two' : other.args.length = 2) :
    Concurs Eq (node.checkAssignable type keyType) (other.checkAssignable type' keyType') := by
  unfold checkAssignable
  rw [Ty.compatible_congr types values]
  obtain ⟨target, value, args⟩ := List.length_eq_two.mp two
  obtain ⟨target', value', args'⟩ := List.length_eq_two.mp two'
  rw [args, args']
  cases type'.compatible keyType' with
  | true => exact .ok rfl
  | false => exact .error rfl

/-- The rule of the assignment ends alike, unless only one of two values has no bytes. -/
theorem concurs_typeAssign (same : Retyped node other) (two : node.args.length = 2)
    (sizes : ∀ {value value' : Node} {type type' : Ty}, value ∈ node.args[1]? →
      value' ∈ other.args[1]? → value.type? = some type → value'.type? = some type' →
        (type.size = 0 ↔ type'.size = 0)) (scope scope' : Scope) :
    Retyped (node.typeAssign scope).tree (other.typeAssign scope').tree ∧
      Concurs Eq (node.typeAssign scope).outcome (other.typeAssign scope').outcome := by
  have unchanged : Retyped node other ∧ Concurs Eq (.ok () : Outcome) (.ok ()) := ⟨same, .ok rfl⟩
  obtain ⟨target, value, args⟩ := List.length_eq_two.mp two
  have inner : List.Forall₂ Retyped [target, value] other.args := args ▸ same.args
  generalize args' : other.args = others at inner
  match others, inner with
  | [target', value'], .cons first (.cons second .nil) =>
      have two' : other.args.length = 2 := by rw [args']; rfl
      unfold typeAssign
      rw [args, args']
      dsimp only
      rcases Ty.alternatives same.type with ⟨free, free'⟩ | ⟨_, _, own, own', _⟩
      · rw [free, free']
        rcases Ty.alternatives second.type with ⟨none, none'⟩ | ⟨type, type', known, known', types⟩
        · rw [none, none']
          exact unchanged
        rw [known, known']
        have empty : type.size = 0 ↔ type'.size = 0 :=
          sizes (by rw [args]; rfl) (by rw [args']; rfl) known known'
        dsimp only
        by_cases bytes : type.size = 0
        · rw [if_pos bytes, if_pos (empty.mp bytes)]
          exact ⟨same, .error rfl⟩
        · rw [if_neg bytes, if_neg (mt empty.mpr bytes)]
          unfold typeTarget
          rcases Ty.alternatives first.type with ⟨none, none'⟩ | ⟨_, _, fixed, fixed', targets⟩
          · rw [none, none']
            exact ⟨(same.modifyArgument 0 fun _ _ arg => arg.fillType types).fillType
              (Ty.compatible_self .void), .ok rfl⟩
          · rw [fixed, fixed']
            refine concurs_ofRule same ?_ scope scope'
            exact (concurs_checkAssignable targets types two two').bind fun _ _ _ =>
              .ok (same.fillType (Ty.compatible_self .void))
      · rw [own, own']
        exact unchanged

end Retyped

end Checks

/-- The key and value types of one use of a map fit those of another. -/
def Fits (kinds kinds' : Ty × Ty) : Prop :=
  kinds.1.compatible kinds'.1 = true ∧ kinds.2.compatible kinds'.2 = true

namespace Fits

variable {first second third : Ty × Ty}

theorem refl (kinds : Ty × Ty) : Fits kinds kinds :=
  ⟨kinds.1.compatible_self, kinds.2.compatible_self⟩

theorem symm (fits : Fits first second) : Fits second first := by
  obtain ⟨keys, values⟩ := fits
  rw [Ty.compatible_comm] at keys values
  exact ⟨keys, values⟩

theorem trans (fits : Fits first second) (later : Fits second third) : Fits first third :=
  ⟨Ty.compatible_trans fits.1 later.1, Ty.compatible_trans fits.2 later.2⟩

end Fits

/-- A use of a map between two passes: an element with a type and a typed key, also
as the target of an assignment.  The map itself takes its type from the scope, or
the scope from this use. -/
inductive Use (options : Options) (name : String) : Node → Ty × Ty → Prop
  | element {key : Node} {collection info : Info} {keyType type : Ty} :
      collection.type = none → (∀ scope, infer options key scope = ⟨key, scope, .ok ()⟩) →
        key.type? = some keyType → info.type = some type →
          Use options name (apply "[]" [ident name collection, key] info) (keyType, type)
  | assigned {target value : Node} {info : Info} {kinds : Ty × Ty} :
      Use options name target kinds →
        (∀ scope, infer options value scope = ⟨value, scope, .ok ()⟩) →
        info.type.isSome → Use options name (apply "=" [target, value] info) kinds

section Uses

variable {options : Options} {name : String} {node : Node} {kinds : Ty × Ty} {scope : Scope}

theorem Use.unique {other : Ty × Ty} (use : Use options name node kinds)
    (another : Use options name node other) : kinds = other := by
  -- The operators of the two forms are literals, which a case split on the relation
  -- does not compare.
  generalize same : node = tree at another
  induction use generalizing tree with
  | element _ _ keyed typed =>
      cases another with
      | element _ _ keyed' typed' =>
          cases same
          rw [Option.some.inj (keyed.symm.trans keyed'), Option.some.inj (typed.symm.trans typed')]
      | assigned _ _ _ =>
          injection same with operators
          exact absurd operators (by decide)
  | assigned _ _ _ ih =>
      cases another with
      | element _ _ _ _ =>
          injection same with operators
          exact absurd operators (by decide)
      | assigned use _ _ =>
          cases same
          exact ih _ rfl use

/-- What a use does to the scope, and when it is accepted: the first one fixes the
type of the map, the others have to fit it. -/
theorem infer_use (use : Use options name node kinds) :
    (scope.symbols.typeOf? name = none → (infer options node scope).outcome = .ok () ∧
        (infer options node scope).scope.symbols.typeOf? name = some (.map kinds.1 kinds.2 .hash)) ∧
      ∀ key value kind, scope.symbols.typeOf? name = some (.map key value kind) →
        (infer options node scope).scope.symbols.typeOf? name = some (.map key value kind) ∧
          ((infer options node scope).outcome = .ok () ↔ Fits (key, value) kinds) := by
  induction use with
  | @element key collection info keyType type free settled keyed typed =>
      obtain ⟨-, found, others⟩ := Symbols.resolve_spec scope.symbols name
      have visited : infer options (apply "[]" [ident name collection, key] info) scope =
          (apply "[]" [ident name { collection with type := scope.symbols.typeOf? name }, key]
            info).typeSubscript { scope with symbols := (scope.symbols.resolve name).2 } := by
        simp only [infer, inferAll, free, Option.isSome_none, Bool.false_eq_true, ↓reduceIte,
          settled, found]
        rfl
      have typed' {other : Info} : (apply "[]" [ident name other, key] info).type? =
          some type := typed
      rw [visited]
      constructor
      · intro unknown
        have known := Symbols.get?_resolve scope.symbols name
        have recorded := Symbols.typeOf?_setType known (found.trans unknown)
          (.map keyType type .hash)
        rw [unknown]
        unfold Node.typeSubscript
        simp only [args, keyed, typed', typeCollection, ident?, recordType]
        exact ⟨rfl, recorded⟩
      · intro mapKey value kind fixed
        have kept := (others name).trans fixed
        rw [fixed]
        unfold Node.typeSubscript
        simp only [args, keyed, typed']
        exact ⟨kept, checkElement_map_iff⟩
  | @assigned target value info kinds use settled typed ih =>
      have visited : infer options (apply "=" [target, value] info) scope =
          ⟨apply "=" [(infer options target scope).tree, value] info,
            (infer options target scope).scope, (infer options target scope).outcome⟩ := by
        have own (tree : Node) : (apply "=" [tree, value] info).type?.isSome := typed
        simp only [infer, inferAll]
        cases (infer options target scope).outcome with
        | error fault => rfl
        | ok done =>
            simp only [settled]
            show (apply "=" [(infer options target scope).tree, value] info).typeAssign
              (infer options target scope).scope = _
            unfold typeAssign
            rw [if_pos (own _)]
      rw [visited]
      exact ih

theorem outcome_inferAll_cons {nodes : List Node} :
    (inferAll options (node :: nodes) scope).outcome = .ok () ↔
      (infer options node scope).outcome = .ok () ∧
        (inferAll options nodes (infer options node scope).scope).outcome = .ok () := by
  rw [inferAll]
  dsimp only
  cases outcome : (infer options node scope).outcome with
  | error fault => simp
  | ok done => simp

theorem inferAll_fixed_iff {uses : List Node}
    (each : ∀ node ∈ uses, ∃ kinds, Use options name node kinds)
    {key value : Ty} {kind : MapKind}
    (fixed : scope.symbols.typeOf? name = some (.map key value kind)) :
    (inferAll options uses scope).outcome = .ok () ↔
      ∀ node ∈ uses, ∀ kinds, Use options name node kinds → Fits (key, value) kinds := by
  induction uses generalizing scope with
  | nil => simp [inferAll]
  | cons first rest ih =>
      obtain ⟨kinds, use⟩ := each first List.mem_cons_self
      obtain ⟨kept, verdict⟩ := (infer_use use).2 key value kind fixed
      rw [outcome_inferAll_cons, verdict,
        ih (fun node member => each node (List.mem_cons_of_mem _ member)) kept,
        List.forall_mem_cons]
      exact and_congr_left fun _ =>
        ⟨fun fits _ other => use.unique other ▸ fits, fun all => all _ use⟩

/-- The first use fixes the type, and all uses have to fit each other. -/
theorem inferAll_free_iff {uses : List Node}
    (each : ∀ node ∈ uses, ∃ kinds, Use options name node kinds)
    (free : scope.symbols.typeOf? name = none) :
    (inferAll options uses scope).outcome = .ok () ↔
      ∀ node ∈ uses, ∀ node' ∈ uses, ∀ kinds kinds', Use options name node kinds →
        Use options name node' kinds' → Fits kinds kinds' := by
  cases uses with
  | nil => simp [inferAll]
  | cons first rest =>
      obtain ⟨kinds, use⟩ := each first List.mem_cons_self
      obtain ⟨accepted, fixed⟩ := (infer_use use).1 free
      rw [outcome_inferAll_cons, and_iff_right accepted,
        inferAll_fixed_iff (fun node member => each node (List.mem_cons_of_mem _ member)) fixed]
      constructor
      · intro later
        have all : ∀ node ∈ first :: rest, ∀ other, Use options name node other →
            Fits kinds other := by
          rw [List.forall_mem_cons]
          exact ⟨fun _ other => use.unique other ▸ .refl kinds, later⟩
        intro node member node' member' _ _ one another
        exact (all node member _ one).symm.trans (all node' member' _ another)
      · intro all node member other another
        exact all first List.mem_cons_self node (List.mem_cons_of_mem _ member) _ _ use another

/-- The order of the uses does not matter, nor does which of several compatible types
the map has before them. -/
theorem inferAll_uses_congr {uses uses' : List Node} {scope' : Scope}
    (each : ∀ node ∈ uses, ∃ kinds, Use options name node kinds) (order : uses.Perm uses')
    (maps : ∀ type ∈ scope.symbols.typeOf? name, type.isMap = true)
    (types : Ty.Alternative (scope.symbols.typeOf? name) (scope'.symbols.typeOf? name)) :
    (inferAll options uses scope).outcome = .ok () ↔
      (inferAll options uses' scope').outcome = .ok () := by
  have each' : ∀ node ∈ uses', ∃ kinds, Use options name node kinds :=
    fun node member => each node (order.mem_iff.mpr member)
  rcases Ty.alternatives types with ⟨free, free'⟩ | ⟨type, type', fixed, fixed', same⟩
  · rw [inferAll_free_iff each free, inferAll_free_iff each' free']
    simp only [order.mem_iff]
  · have map := maps type (by rw [fixed]; rfl)
    cases type with
    | map key value kind =>
        cases type' with
        | map key' value' kind' =>
            have fits : Fits (key, value) (key', value') := by
              simpa [Fits, Ty.compatible] using same
            rw [inferAll_fixed_iff each fixed, inferAll_fixed_iff each' fixed']
            simp only [order.mem_iff]
            exact forall₂_congr fun _ _ => forall₂_congr fun _ _ => ⟨fits.symm.trans, fits.trans⟩
        | _ => simp [Ty.compatible] at same
    | _ => cases map

end Uses

end Node

/-- Compatibility is an equivalence, and so typing does not tell alternatives apart:
subscripts and assignments are accepted or refused alike and yield alternatives again,
and whether the uses of a map are accepted depends neither on their order nor on which
of several compatible types the map has before them.  Two assigned values have to agree
in whether they have bytes at all, which compatibility does not look at. -/
structure Ty.Interchangeable : Prop where
  equivalence : Equivalence fun left right : Ty => left.compatible right = true
  subscript : ∀ {node other : Node}, node.Retyped other → ∀ scope scope',
    (node.typeSubscript scope).tree.Retyped (other.typeSubscript scope').tree ∧
      Concurs Eq (node.typeSubscript scope).outcome (other.typeSubscript scope').outcome
  assign : ∀ {node other : Node}, node.Retyped other → node.args.length = 2 →
    (∀ {value value' : Node} {type type' : Ty},
      value ∈ node.args[1]? → value' ∈ other.args[1]? →
        value.type? = some type → value'.type? = some type' →
          (type.size = 0 ↔ type'.size = 0)) →
      ∀ scope scope', (node.typeAssign scope).tree.Retyped (other.typeAssign scope').tree ∧
        Concurs Eq (node.typeAssign scope).outcome (other.typeAssign scope').outcome
  uses : ∀ {options : Options} {name : String} {uses uses' : List Node} {scope scope' : Scope},
    (∀ node ∈ uses, ∃ kinds, Node.Use options name node kinds) → uses.Perm uses' →
      (∀ type ∈ scope.symbols.typeOf? name, type.isMap = true) →
        Alternative (scope.symbols.typeOf? name) (scope'.symbols.typeOf? name) →
          ((Node.inferAll options uses scope).outcome = .ok () ↔
            (Node.inferAll options uses' scope').outcome = .ok ())

theorem Ty.compatible_equivalence : Ty.Interchangeable where
  equivalence := {
    refl := compatible_self
    symm := fun related => compatible_comm.trans related
    trans := compatible_trans }
  subscript := Node.Retyped.concurs_typeSubscript
  assign := Node.Retyped.concurs_typeAssign
  uses := Node.inferAll_uses_congr

end TraceProbe
