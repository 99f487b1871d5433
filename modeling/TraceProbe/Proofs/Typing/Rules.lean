import TraceProbe.Proofs.Node.Shapes
import TraceProbe.Proofs.Ty.Compatibility
import TraceProbe.Proofs.Typing.Scope
import TraceProbe.Typing.Inference

/-!
# Typing rules

What the type of an application has to do with the types of its arguments,
apart from how inference finds it.  Which record a struct literal gets depends
on the registry, so the rules leave that open.
-/

namespace TraceProbe

namespace Node

/-- The type of an application, by the types of its arguments.  The record of a
struct literal is related to the types of its members. -/
inductive Rule (literal : List Ty → Ty → Prop) : String → List Node → Ty → Prop
  | dot {base member : Node} {type : Ty} {shape : Record} {name : String} {field : Field} :
      base.type? = some type → type.record? = some shape → member.str? = some name →
        shape.field? name = some field → Rule literal "." [base, member] field.type
  | deref {pointer : Node} {target : Ty} :
      pointer.type? = some (.pointer target) → Rule literal "u*" [pointer] target
  | structLiteral {args : List Node} {members : List Ty} {type : Ty} :
      valueTypes? args = some members → literal members type → Rule literal ":struct" args type
  | arrayElement {array index : Node} {element : Ty} {length : Nat} {kind : Scalar} :
      array.type? = some (.array element length) → index.type? = some (.scalar kind) →
        (∀ position, index.num? = some position → position.toNat < length) →
          Rule literal "[]" [array, index] element
  | pointerElement {pointer index : Node} {target : Ty} {kind : Scalar} :
      pointer.type? = some (.pointer target) → index.type? = some (.scalar kind) →
        Rule literal "[]" [pointer, index] target
  | mapElement {map key : Node} {wanted value keyType type : Ty} {kind : MapKind} :
      map.type? = some (.map wanted value kind) → key.type? = some keyType →
        wanted.compatible keyType = true → value.compatible type = true →
          Rule literal "[]" [map, key] type
  | assign {target value : Node} {targetType valueType : Ty} :
      target.type? = some targetType → value.type? = some valueType →
        targetType.compatible valueType = true → valueType.size ≠ 0 →
          Rule literal "=" [target, value] .void
  | delete {target : Node} : Rule literal "delete" [target] .void
  | strcmp {left right : Node} {leftType rightType : Ty} :
      left.type? = some leftType → leftType.isString = true → right.type? = some rightType →
        rightType.isString = true → Rule literal "strcmp" [left, right] .int
  | mem {source : Node} {rest : List Node} (count : Nat) :
      Rule literal "mem" (source :: rest) (.array .char count)
  | str {source : Node} {rest : List Node} (count : Nat) :
      Rule literal "str" (source :: rest) (.array .char count)

/-- A subscript of something that is known not to be a map. -/
def Unmapped (args : List Node) : Prop :=
  ∃ collection key type, args = [collection, key] ∧ collection.type? = some type ∧
    type.isMap = false

/-- What passes of inference establish: a node that is typed by now obeys its
rule.  A target is typed by its assignment, possibly before its arguments, and
an element of anything but a map is then not looked at again.  The collection
of a subscript is typed with the subscript, and the key may have typed another
occurrence in between. -/
def Settled (literal : List Ty → Ty → Prop) (symbols : Symbols) : Role → Node → Prop
  | role, apply operator args info =>
      (∀ type, info.type = some type → Rule literal operator args type ∨
        role = .target ∧ (Unmapped args ∨ ∃ arg ∈ args, arg.type? = none)) ∧
      (operator = "[]" → info.type = none → ∃ arg ∈ args, arg.type? = none)
  | role, ident name info =>
      ∀ type, info.type = some type → symbols.typeOf? name = some type ∨
        ∃ key, role = .collection (some key) ∧ key.Assigns name
  | _, str value info => ∀ type, info.type = some type → type = literalType value
  | _, num _ unsigned info => ∀ type, info.type = some type → type = numberType unsigned

/-- A typed node with the type that its symbol or its rule gives it. -/
def Obeys (literal : List Ty → Ty → Prop) (symbols : Symbols) : Node → Prop
  | apply operator args info => ∃ type, info.type = some type ∧ Rule literal operator args type
  | ident name info => ∃ type, info.type = some type ∧ symbols.typeOf? name = some type
  | str value info => info.type = some (literalType value)
  | num _ unsigned info => info.type = some (numberType unsigned)

/-- A node that no pass checks: a target that is no element of a map, and the
collection of a subscript whose key assigns to it. -/
def Excused : Role → Node → Prop
  | .target, node => Unmapped node.args
  | .collection (some key), node => ∃ name, node.ident? = some name ∧ key.Assigns name
  | _, _ => False

/-- What holds of a node once every node is typed. -/
def Sound (literal : List Ty → Ty → Prop) (symbols : Symbols) (role : Role) (node : Node) : Prop :=
  node.Obeys literal symbols ∨ node.type?.isSome = true ∧ Excused role node

variable {literal : List Ty → Ty → Prop} {symbols later : Symbols} {role : Role} {node : Node}

theorem sound_of_settled (settled : Settled literal symbols role node)
    (complete : node.Complete) : Sound literal symbols role node := by
  have here := complete node .root
  obtain ⟨type, typed⟩ := Option.isSome_iff_exists.mp here
  cases node with
  | apply operator args info =>
      rcases settled.1 type typed with rule | ⟨rfl, unmapped | ⟨arg, member, untyped⟩⟩
      · exact .inl ⟨type, typed, rule⟩
      · exact .inr ⟨here, unmapped⟩
      · have known := complete arg (.inner member .root)
        rw [untyped] at known
        cases known
  | ident name info =>
      rcases settled type typed with same | ⟨key, rfl, assigns⟩
      · exact .inl ⟨type, typed, same⟩
      · exact .inr ⟨here, name, rfl, assigns⟩
  | str value info => exact .inl (Eq.trans typed (congrArg some (settled type typed)))
  | num value unsigned info => exact .inl (Eq.trans typed (congrArg some (settled type typed)))

theorem everywhere_sound (settled : Everywhere (Settled literal symbols) role node)
    (complete : node.Complete) : Everywhere (Sound literal symbols) role node := by
  induction settled with
  | leaf leaf found => exact .leaf leaf (sound_of_settled found complete)
  | apply found _ ih =>
      exact .apply (sound_of_settled found complete) fun index arg member =>
        ih index arg member (complete.arg (List.mem_of_getElem? member))

theorem Settled.mono (settled : Settled literal symbols role node)
    (before : symbols.Before later) : Settled literal later role node := by
  cases node with
  | apply operator args info => exact settled
  | ident name info =>
      intro type typed
      exact (settled type typed).imp_left before.typeOf?
  | str value info => exact settled
  | num value unsigned info => exact settled

theorem settled_of_fresh (fresh : node.Fresh) (shaped : node.Shaped) :
    Everywhere (Settled literal symbols) role node := by
  refine everywhere_of_forall ?_
  intro role part among
  have free := (fresh part among).1
  cases part with
  | apply operator args info =>
      have untyped : info.type = none := free
      refine ⟨fun type typed => by simp [untyped] at typed, ?_⟩
      intro subscript _
      have shape := shaped operator args info among
      cases shape with
      | subscript collection key =>
          have inside : PartOf collection node :=
            (PartOf.inner List.mem_cons_self .root).trans among
          exact ⟨collection, List.mem_cons_self, (fresh collection inside).1⟩
      | _ => exact absurd subscript (by decide)
  | ident name info | str name info | num value unsigned info =>
      intro type typed
      rw [show info.type = none from free] at typed
      cases typed

/-- The rules of the subscript, by the type of the collection. -/
theorem Rule.subscript {operator : String} {args : List Node} {collection key : Node}
    {type : Ty} (rule : Rule literal operator args type) (subscript : operator = "[]")
    (same : args = [collection, key]) :
    ∃ collectionType keyType, collection.type? = some collectionType ∧
      key.type? = some keyType ∧
        match collectionType with
        | .array element length => type = element ∧ (∃ kind, keyType = .scalar kind) ∧
            ∀ position, key.num? = some position → position.toNat < length
        | .pointer target => type = target ∧ ∃ kind, keyType = .scalar kind
        | .map wanted value _ => wanted.compatible keyType = true ∧ value.compatible type = true
        | _ => False := by
  cases rule with
  | arrayElement typed scalar inside =>
      cases same
      exact ⟨_, _, typed, scalar, rfl, ⟨_, rfl⟩, inside⟩
  | pointerElement typed scalar =>
      cases same
      exact ⟨_, _, typed, scalar, rfl, _, rfl⟩
  | mapElement typed keyed fits fits' =>
      cases same
      exact ⟨_, _, typed, keyed, fits, fits'⟩
  | _ => exact absurd subscript (by decide)

/-- The rule of the dot. -/
theorem Rule.member {operator : String} {args : List Node} {base member : Node} {type : Ty}
    (rule : Rule literal operator args type) (dot : operator = ".")
    (same : args = [base, member]) :
    ∃ shape name field, base.type? = some (.record shape) ∧ member.str? = some name ∧
      shape.field? name = some field ∧ type = field.type := by
  cases rule with
  | @dot _ _ recordType shape name field typed record named found =>
      cases same
      cases recordType with
      | record _ =>
          cases record
          exact ⟨shape, name, field, typed, named, found, rfl⟩
      | _ => cases record
  | _ => exact absurd dot (by decide)

theorem Rule.dereferenced {operator : String} {args : List Node} {pointer : Node} {type : Ty}
    (rule : Rule literal operator args type) (deref : operator = "u*") (same : args = [pointer]) :
    pointer.type? = some (.pointer type) := by
  cases rule with
  | deref typed =>
      cases same
      exact typed
  | _ => exact absurd deref (by decide)

/-- The rule of the assignment. -/
theorem Rule.assigned {operator : String} {args : List Node} {target value : Node} {type : Ty}
    (rule : Rule literal operator args type) (assign : operator = "=")
    (same : args = [target, value]) :
    ∃ targetType valueType, target.type? = some targetType ∧ value.type? = some valueType ∧
      targetType ≠ .void ∧ valueType ≠ .void ∧ type = .void := by
  cases rule with
  | @assign _ _ targetType valueType typed typed' fits some =>
      cases same
      have real : valueType ≠ .void := fun same => some (same ▸ rfl)
      refine ⟨_, _, typed, typed', ?_, real, rfl⟩
      rintro rfl
      exact real (Ty.eq_void_of_compatible (Ty.compatible_comm ▸ fits))
  | _ => exact absurd assign (by decide)

theorem Rule.removed {operator : String} {args : List Node} {type : Ty}
    (rule : Rule literal operator args type) (delete : operator = "delete") : type = .void := by
  cases rule with
  | delete => rfl
  | _ => exact absurd delete (by decide)

/-- The rule of the comparison. -/
theorem Rule.strings {operator : String} {args : List Node} {left right : Node} {type : Ty}
    (rule : Rule literal operator args type) (strcmp : operator = "strcmp")
    (same : args = [left, right]) :
    ∃ leftType rightType, left.type? = some leftType ∧ leftType.isString = true ∧
      right.type? = some rightType ∧ rightType.isString = true := by
  cases rule with
  | strcmp typed string typed' string' =>
      cases same
      exact ⟨_, _, typed, string, typed', string'⟩
  | _ => exact absurd strcmp (by decide)

theorem Rule.compared {operator : String} {args : List Node} {type : Ty}
    (rule : Rule literal operator args type) (strcmp : operator = "strcmp") : type = .int := by
  cases rule with
  | strcmp _ _ _ _ => rfl
  | _ => exact absurd strcmp (by decide)

theorem Rule.members {operator : String} {args : List Node} {type : Ty}
    (rule : Rule literal operator args type) (structLiteral : operator = ":struct") :
    ∃ members, valueTypes? args = some members ∧ literal members type := by
  cases rule with
  | structLiteral known found => exact ⟨_, known, found⟩
  | _ => exact absurd structLiteral (by decide)

/-- Only the rule of the struct literal depends on what a literal is. -/
theorem Rule.literals {literal' : List Ty → Ty → Prop} {operator : String}
    {args : List Node} {type : Ty} (rule : Rule literal operator args type)
    (each : operator = ":struct" → ∀ members, valueTypes? args = some members →
      literal' members type) :
    Rule literal' operator args type := by
  cases rule with
  | dot typed record named found => exact .dot typed record named found
  | deref typed => exact .deref typed
  | structLiteral known _ => exact .structLiteral known (each rfl _ known)
  | arrayElement typed scalar inside => exact .arrayElement typed scalar inside
  | pointerElement typed scalar => exact .pointerElement typed scalar
  | mapElement typed keyed fits fits' => exact .mapElement typed keyed fits fits'
  | assign typed typed' fits some => exact .assign typed typed' fits some
  | delete => exact .delete
  | strcmp typed string typed' string' => exact .strcmp typed string typed' string'
  | mem count => exact .mem count
  | str count => exact .str count

section Persisting

/-- Arguments with the same shapes, whose types stay. -/
structure Follows (args trees : List Node) : Prop where
  bares : args.map bare = trees.map bare
  typed : ∀ (index : Nat) (arg tree : Node), args[index]? = some arg →
    trees[index]? = some tree → ∀ type, arg.type? = some type → tree.type? = some type

/-- Arguments of which inference changes nothing but that they get types. -/
structure Persists (args trees : List Node) : Prop where
  same : trees.map untyped = args.map untyped
  typed : ∀ (index : Nat) (arg tree : Node), args[index]? = some arg →
    trees[index]? = some tree → ∀ type, arg.type? = some type → tree.type? = some type

variable {args trees last : List Node} {operator : String} {type : Ty}

theorem Persists.refl (args : List Node) : Persists args args := by
  constructor
  · rfl
  · intro index arg tree found same type typed
    rw [found] at same
    cases same
    exact typed

theorem bares_of_untypeds (same : trees.map untyped = args.map untyped) :
    trees.map bare = args.map bare := by
  have found := congrArg (List.map bare) same
  simpa only [List.map_map, Function.comp_def, bare_untyped] using found

theorem Persists.bares (persists : Persists args trees) : args.map bare = trees.map bare :=
  (bares_of_untypeds persists.same).symm

theorem Persists.follows (persists : Persists args trees) : Follows args trees :=
  ⟨persists.bares, persists.typed⟩

theorem Persists.original (persists : Persists args trees) {index : Nat} {tree : Node}
    (place : trees[index]? = some tree) :
    ∃ arg, args[index]? = some arg ∧ tree.untyped = arg.untyped := by
  have found := congrArg (·[index]?) persists.same
  simp only [List.getElem?_map, place, Option.map_some] at found
  obtain ⟨arg, there, same⟩ := Option.map_eq_some_iff.mp found.symm
  exact ⟨arg, there, same.symm⟩

theorem Follows.one {arg : Node} (follows : Follows [arg] trees) :
    ∃ arg', trees = [arg'] ∧ arg.bare = arg'.bare ∧
      ∀ type, arg.type? = some type → arg'.type? = some type := by
  obtain ⟨arg', rfl, same⟩ := one_of_bares follows.bares
  exact ⟨arg', rfl, same, follows.typed 0 arg arg' rfl rfl⟩

theorem Follows.two {first second : Node} (follows : Follows [first, second] trees) :
    ∃ first' second', trees = [first', second'] ∧ first.bare = first'.bare ∧
      second.bare = second'.bare ∧ (∀ type, first.type? = some type → first'.type? = some type) ∧
        ∀ type, second.type? = some type → second'.type? = some type := by
  obtain ⟨first', second', rfl, same, same'⟩ := two_of_bares follows.bares
  exact ⟨first', second', rfl, same, same', follows.typed 0 _ _ rfl rfl,
    follows.typed 1 _ _ rfl rfl⟩

theorem Follows.tail {arg tree : Node} (follows : Follows (arg :: args) (tree :: trees)) :
    Follows args trees := by
  constructor
  · exact (List.cons.inj follows.bares).2
  · intro index _ _ found same
    exact follows.typed (index + 1) _ _ found same

theorem valueTypes?_of_follows {members : List Ty} (follows : Follows args trees)
    (known : valueTypes? args = some members) : valueTypes? trees = some members := by
  induction args generalizing trees members with
  | nil =>
      obtain rfl := List.map_eq_nil_iff.mp follows.bares.symm
      exact known
  | cons arg args ih =>
      cases trees with
      | nil => cases follows.bares
      | cons tree trees =>
          unfold valueTypes? at known ⊢
          cases typed : arg.type? with
          | none =>
              rw [typed] at known
              cases known
          | some type =>
              rw [typed] at known
              rw [follows.typed 0 arg tree rfl rfl type typed]
              simp only at known ⊢
              split at known
              · rename_i room
                rw [if_pos room]
                obtain ⟨others, rest, rfl⟩ := Option.map_eq_some_iff.mp known
                rw [ih follows.tail rest]
                rfl
              · cases known

/-- Rules look at nothing but the types and the shapes of the arguments. -/
theorem Rule.follows (rule : Rule literal operator args type) (follows : Follows args trees) :
    Rule literal operator trees type := by
  cases rule with
  | dot typed record named found =>
      obtain ⟨base, member, rfl, -, same, keeps, -⟩ := follows.two
      exact .dot (keeps _ typed) record (str?_of_bare same ▸ named) found
  | deref typed =>
      obtain ⟨pointer, rfl, -, keeps⟩ := follows.one
      exact .deref (keeps _ typed)
  | structLiteral known found => exact .structLiteral (valueTypes?_of_follows follows known) found
  | arrayElement typed scalar inside =>
      obtain ⟨array, index, rfl, -, same, keeps, keeps'⟩ := follows.two
      exact .arrayElement (keeps _ typed) (keeps' _ scalar) (num?_of_bare same ▸ inside)
  | pointerElement typed scalar =>
      obtain ⟨pointer, index, rfl, -, -, keeps, keeps'⟩ := follows.two
      exact .pointerElement (keeps _ typed) (keeps' _ scalar)
  | mapElement typed keyed fits fits' =>
      obtain ⟨map, key, rfl, -, -, keeps, keeps'⟩ := follows.two
      exact .mapElement (keeps _ typed) (keeps' _ keyed) fits fits'
  | assign typed valued fits some =>
      obtain ⟨target, value, rfl, -, -, keeps, keeps'⟩ := follows.two
      exact .assign (keeps _ typed) (keeps' _ valued) fits some
  | delete =>
      obtain ⟨target, rfl, -, -⟩ := follows.one
      exact .delete
  | strcmp typed string typed' string' =>
      obtain ⟨left, right, rfl, -, -, keeps, keeps'⟩ := follows.two
      exact .strcmp (keeps _ typed) string (keeps' _ typed') string'
  | mem count =>
      cases trees with
      | nil => cases follows.bares
      | cons source rest => exact .mem count
  | str count =>
      cases trees with
      | nil => cases follows.bares
      | cons source rest => exact .str count

end Persisting

end Node

end TraceProbe
