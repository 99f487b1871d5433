import TraceProbe.Proofs.Typing.Inversion
import TraceProbe.Proofs.Typing.Passes
import TraceProbe.Proofs.Typing.Preparation
import TraceProbe.Proofs.Typing.Rules

/-!
# Visits of inference

What one visit of a node does in a pass: types stay once they are set, and the
node is settled behind it.  An operator is visited after its arguments.
-/

namespace TraceProbe

/-- What the registry of a unit keeps up, and what it then makes of the types of
members. -/
def Registry.Gives (holds : Registry → Prop) (literal : List Ty → Ty → Prop) : Prop :=
  ∀ registry members, holds registry → holds (registry.anonymousStruct members).2 ∧
    literal members (registry.anonymousStruct members).1

namespace Node

/-- What a visit of a node leaves behind. -/
structure Visit (holds : Registry → Prop) (literal : List Ty → Ty → Prop) (role : Role)
    (node : Node) (scope : Scope) (tree : Node) (finish : Scope) : Prop where
  same : tree.untyped = node.untyped
  typed : ∀ type, node.type? = some type → tree.type? = some type
  before : scope.symbols.Before finish.symbols
  types : holds finish.types
  settled : Everywhere (Settled literal finish.symbols) role tree
  quiet : ∀ name, ¬ node.Assigns name → (role = .target → node.mapName? ≠ some name) →
    finish.symbols.typeOf? name = scope.symbols.typeOf? name

/-- Arguments of which some are left without a value of their own. -/
structure Marked (args marked : List Node) : Prop where
  length : marked.length = args.length
  each : ∀ (index : Nat) (arg : Node), args[index]? = some arg →
    marked[index]? = some arg ∨ marked[index]? = some arg.asVirtual

section Records

variable {operator : String} {args : List Node} {info : Info} {type : Ty} {symbols : Symbols}
  {literal : List Ty → Ty → Prop} {role : Role} {node : Node}

theorem fillType_apply (free : info.type = none) :
    (apply operator args info).fillType type =
      apply operator args { info with type := some type } := by
  rw [fillType_of_free (show (apply operator args info).type? = none from free)]
  rfl

theorem recordType_apply : (apply operator args info).recordType type symbols = symbols := by
  unfold recordType
  split
  · rename_i named
    cases named
  · rfl

theorem untyped_apply (operator : String) (args : List Node) (info : Info) :
    (apply operator args info).untyped =
      apply operator (args.map untyped) { info with type := none, isVirtual := false } := by
  rw [untyped, mapInfo, mapInfos_eq_map]
  rfl

theorem untyped_withInfo {other : Info} (node : Node) (storage : other.storage = node.info.storage)
    (loc : other.loc = node.info.loc) : (node.withInfo other).untyped = node.untyped := by
  obtain ⟨type, storage', loc', virtual⟩ := other
  obtain rfl : storage' = _ := storage
  obtain rfl : loc' = _ := loc
  cases node with
  | apply operator args info =>
      rw [withInfo, untyped_apply, untyped_apply]
      rfl
  | ident name info | str name info | num value unsigned info => rfl

theorem untyped_asVirtual (node : Node) : node.asVirtual.untyped = node.untyped :=
  untyped_withInfo node rfl rfl

@[simp] theorem type?_asVirtual (node : Node) : node.asVirtual.type? = node.type? := by
  cases node <;> rfl

@[simp] theorem type?_withType (node : Node) (type : Ty) :
    (node.withType type).type? = some type := by
  cases node <;> rfl

theorem settled_asVirtual (settled : Everywhere (Settled literal symbols) role node) :
    Everywhere (Settled literal symbols) role node.asVirtual := by
  cases node with
  | apply operator args info =>
      have here : Settled literal symbols role (apply operator args info) := settled.here
      exact .apply here fun index arg found => settled.arg found
  | ident name info =>
      have here : Settled literal symbols role (ident name info) := settled.here
      exact .leaf rfl here
  | str value info =>
      have here : Settled literal symbols role (str value info) := settled.here
      exact .leaf rfl here
  | num value unsigned info =>
      have here : Settled literal symbols role (num value unsigned info) := settled.here
      exact .leaf rfl here

end Records

section Marked

variable {args marked : List Node}

theorem Marked.refl (args : List Node) : Marked args args :=
  ⟨rfl, fun _ _ found => .inl found⟩

theorem Marked.cons {arg new : Node} (marks : Marked args marked)
    (here : new = arg ∨ new = arg.asVirtual) : Marked (arg :: args) (new :: marked) := by
  refine ⟨congrArg (· + 1) marks.length, ?_⟩
  intro index old found
  cases index with
  | zero =>
      cases found
      exact here.imp (congrArg some) (congrArg some)
  | succ index => exact marks.each index old found

theorem marked_modify (args : List Node) (index : Nat) :
    Marked args (args.modify index asVirtual) := by
  refine ⟨List.length_modify _ _ _, ?_⟩
  intro other arg found
  rw [List.getElem?_modify, found]
  by_cases same : index = other
  · exact .inr (by simp [same])
  · exact .inl (by simp [same])

theorem Marked.exists_arg (marks : Marked args marked) {index : Nat} {new : Node}
    (found : marked[index]? = some new) :
    ∃ arg, args[index]? = some arg ∧ (new = arg ∨ new = arg.asVirtual) := by
  obtain ⟨inside, -⟩ := List.getElem?_eq_some_iff.mp found
  have there := List.getElem?_eq_getElem (marks.length ▸ inside : index < args.length)
  refine ⟨_, there, ?_⟩
  rcases marks.each index _ there with same | same
  · exact .inl (Option.some.inj (found.symm.trans same))
  · exact .inr (Option.some.inj (found.symm.trans same))

theorem Marked.persists (marks : Marked args marked) : Persists args marked := by
  refine ⟨List.ext_getElem? ?_, ?_⟩
  · intro index
    rw [List.getElem?_map, List.getElem?_map]
    cases found : args[index]? with
    | none =>
        have outside := List.getElem?_eq_none_iff.mp found
        rw [List.getElem?_eq_none (marks.length ▸ outside)]
    | some arg =>
        rcases marks.each index arg found with same | same
        · rw [same]
        · rw [same, Option.map_some, Option.map_some, untyped_asVirtual]
  · intro index arg tree found same type typed
    rcases marks.each index arg found with same' | same'
    · rw [same] at same'
      cases same'
      exact typed
    · rw [same] at same'
      cases same'
      rwa [type?_asVirtual]

end Marked

theorem foldLiterals_ok {operands folded : List Node}
    (found : foldLiterals operands = (folded, .ok ())) :
    Marked operands folded ∧ ∀ operand ∈ operands, (∃ value, operand.str? = some value) ∨
      ∃ type, operand.type? = some type ∧ type.isString = true := by
  induction operands generalizing folded with
  | nil =>
      cases found
      exact ⟨.refl [], fun _ member => (by cases member)⟩
  | cons operand operands ih =>
      unfold foldLiterals at found
      rcases rest : foldLiterals operands with ⟨others, outcome⟩
      simp only [rest] at found
      split at found
      · rename_i value literal
        cases found
        obtain ⟨marks, each⟩ := ih rest
        refine ⟨marks.cons (.inr rfl), ?_⟩
        intro other member
        rcases List.mem_cons.mp member with rfl | later
        · exact .inl ⟨value, literal⟩
        · exact each other later
      · rename_i type _ typed
        split at found
        · rename_i string
          cases found
          obtain ⟨marks, each⟩ := ih rest
          refine ⟨marks.cons (.inl rfl), ?_⟩
          intro other member
          rcases List.mem_cons.mp member with rfl | later
          · exact .inr ⟨type, typed, string⟩
          · exact each other later
        · cases found
      · cases found

section Steps

variable {holds : Registry → Prop} {literal : List Ty → Ty → Prop} {role : Role}
  {operator : String} {args marked : List Node} {info info' : Info} {scope finish : Scope}
  {tree : Node}

/-- The arguments of an application are settled in their roles. -/
def ArgsSettled (literal : List Ty → Ty → Prop) (symbols : Symbols) (operator : String)
    (args : List Node) : Prop :=
  ∀ (index : Nat) (arg : Node), args[index]? = some arg →
    Everywhere (Settled literal symbols) (Role.of operator args index) arg

/-- A step that changes no more than records of the node and its arguments. -/
theorem visit_of_marked {types : Registry} (inner : ArgsSettled literal scope.symbols operator args)
    (marks : Marked args marked) (keeps : ∀ type, info.type = some type → info'.type = some type)
    (storage : info'.storage = info.storage) (loc : info'.loc = info.loc)
    (settled : Settled literal scope.symbols role (apply operator marked info'))
    (registry : holds types) :
    Visit holds literal role (apply operator args info) scope (apply operator marked info')
      { scope with types := types } where
  same := by
    rw [untyped_apply, untyped_apply, marks.persists.same, storage, loc]
  typed := keeps
  before := .refl _
  types := registry
  settled := by
    refine .apply settled ?_
    intro index new found
    obtain ⟨arg, there, same⟩ := marks.exists_arg found
    rw [← Role.of_bares marks.persists.bares]
    rcases same with rfl | rfl
    · exact inner index _ there
    · exact settled_asVirtual (inner index _ there)
  quiet := fun _ _ _ => rfl

/-- The same for operators other than the subscript: typing the node obeys its
rule. -/
theorem visit_of_rule {types : Registry} (inner : ArgsSettled literal scope.symbols operator args)
    (marks : Marked args marked) (other : operator ≠ "[]")
    (keeps : ∀ type, info.type = some type → info'.type = some type)
    (storage : info'.storage = info.storage) (loc : info'.loc = info.loc)
    (rule : ∀ type, info'.type = some type → Rule literal operator marked type)
    (registry : holds types) :
    Visit holds literal role (apply operator args info) scope (apply operator marked info')
      { scope with types := types } := by
  apply visit_of_marked inner marks keeps storage loc _ registry
  constructor
  · intro type typed
    exact .inl (rule type typed)
  · intro same
    exact absurd same other

theorem visit_same (inner : ArgsSettled literal scope.symbols operator args)
    (other : operator ≠ "[]")
    (rule : ∀ type, info.type = some type → Rule literal operator args type)
    (registry : holds scope.types) :
    Visit holds literal role (apply operator args info) scope (apply operator args info) scope :=
  visit_of_rule inner (.refl args) other (fun _ => id) rfl rfl rule registry

/-- A node that gets its type. -/
theorem visit_filled {type : Ty} {types : Registry}
    (inner : ArgsSettled literal scope.symbols operator args) (marks : Marked args marked)
    (other : operator ≠ "[]") (free : info.type = none) (rule : Rule literal operator marked type)
    (registry : holds types) :
    Visit holds literal role (apply operator args info) scope
      ((apply operator marked info).fillType type) { scope with types := types } := by
  rw [fillType_apply free]
  refine visit_of_rule inner marks other ?_ rfl rfl ?_ registry
  · intro known typed
    rw [free] at typed
    cases typed
  · intro known typed
    cases typed
    exact rule

theorem rule_of_memberType {node base member : Node} {name : String} {type fieldType : Ty}
    (known : base.type? = some type) (named : member.str? = some name)
    (found : node.memberType base type name = .ok fieldType) :
    Rule literal "." [base, member] fieldType := by
  unfold memberType at found
  split at found
  · cases found
  · rename_i shape record
    split at found
    · rename_i field here
      cases found
      exact .dot known record named here
    · cases found

variable (registry : holds scope.types)

include registry

theorem visit_dot {base member : Node}
    (inner : ArgsSettled literal scope.symbols "." [base, member])
    (known : ∀ type, info.type = some type → Rule literal "." [base, member] type)
    (found : Typed.ofRule (apply "." [base, member] info) scope
      (apply "." [base, member] info).typeDot = ⟨tree, finish, .ok ()⟩) :
    Visit holds literal role (apply "." [base, member] info) scope tree finish := by
  obtain ⟨ruled, rfl⟩ := ofRule_eq_ok found
  obtain rfl | ⟨free, _, type, same, baseKnown, ruled⟩ := typeDot_ok ruled
  · exact visit_same inner (by decide) known registry
  · cases same
    obtain ⟨name, fieldType, named, fielded, rfl⟩ := typeMember_ok ruled
    have rule : Rule literal "." [base, member] fieldType :=
      rule_of_memberType baseKnown (memberName_eq_ok_iff.mp named) fielded
    have marks : Marked [base, member] [base, member.asVirtual] := marked_modify [base, member] 1
    exact visit_filled inner marks (by decide) free (rule.follows marks.persists.follows) registry

theorem visit_deref {pointer : Node}
    (inner : ArgsSettled literal scope.symbols "u*" [pointer])
    (known : ∀ type, info.type = some type → Rule literal "u*" [pointer] type)
    (found : Typed.ofRule (apply "u*" [pointer] info) scope
      (apply "u*" [pointer] info).typeDeref = ⟨tree, finish, .ok ()⟩) :
    Visit holds literal role (apply "u*" [pointer] info) scope tree finish := by
  obtain ⟨ruled, rfl⟩ := ofRule_eq_ok found
  obtain rfl | ⟨free, _, target, same, pointed, rfl⟩ := typeDeref_ok ruled
  · exact visit_same inner (by decide) known registry
  · cases same
    exact visit_filled inner (.refl _) (by decide) free (.deref pointed) registry

theorem visit_structLiteral (gives : Registry.Gives holds literal)
    (inner : ArgsSettled literal scope.symbols ":struct" args)
    (known : ∀ type, info.type = some type → Rule literal ":struct" args type)
    (found : (apply ":struct" args info).typeStructLiteral scope = ⟨tree, finish, .ok ()⟩) :
    Visit holds literal role (apply ":struct" args info) scope tree finish := by
  unfold typeStructLiteral at found
  split at found
  · rename_i members typed valued
    obtain ⟨kept, made⟩ := gives scope.types members registry
    simp only [Typed.fill, recordType_apply] at found
    cases found
    exact visit_filled inner (.refl _) (by decide) typed (.structLiteral valued made) kept
  · cases found
    exact visit_same inner (by decide) known registry

theorem visit_strcmp {left right : Node}
    (inner : ArgsSettled literal scope.symbols "strcmp" [left, right])
    (known : ∀ type, info.type = some type → Rule literal "strcmp" [left, right] type)
    (found : (apply "strcmp" [left, right] info).typeStrcmp scope = ⟨tree, finish, .ok ()⟩) :
    Visit holds literal role (apply "strcmp" [left, right] info) scope tree finish := by
  obtain ⟨rfl, rfl⟩ | ⟨free, all, folded, folding, -, filled⟩ := typeStrcmp_ok found
  · exact visit_same inner (by decide) known registry
  · obtain ⟨marks, each⟩ := foldLiterals_ok folding
    have string (index : Nat) (operand : Node) (place : [left, right][index]? = some operand) :
        ∃ type, operand.type? = some type ∧ type.isString = true := by
      have member := List.mem_of_getElem? place
      obtain ⟨type, here⟩ := Option.isSome_iff_exists.mp (List.all_eq_true.mp all operand member)
      rcases each operand member with ⟨value, literal⟩ | strings
      · have settled := (inner index operand place).here
        cases operand with
        | str value info =>
            obtain rfl : type = literalType value := settled type here
            exact ⟨_, here, rfl⟩
        | apply _ _ _ | ident _ _ | num _ _ _ => cases literal
      · exact strings
    obtain ⟨leftType, leftTyped, leftString⟩ := string 0 left rfl
    obtain ⟨rightType, rightTyped, rightString⟩ := string 1 right rfl
    have rule : Rule literal "strcmp" folded .int :=
      (Rule.strcmp leftTyped leftString rightTyped rightString).follows marks.persists.follows
    rw [show (apply "strcmp" [left, right] info).withArguments folded =
        apply "strcmp" folded info from rfl,
      Typed.fill, recordType_apply] at filled
    cases filled
    exact visit_filled inner marks (by decide) free rule registry

/-- Both reads are typed alike. -/
theorem visit_read {options : Options} {source : Node} {rest : List Node}
    (inner : ArgsSettled literal scope.symbols operator (source :: rest)) (other : operator ≠ "[]")
    (rule : ∀ count rest, Rule literal operator (source :: rest) (.array .char count))
    (known : ∀ type, info.type = some type → Rule literal operator (source :: rest) type)
    (found : Typed.ofRule (apply operator (source :: rest) info) scope
      ((apply operator (source :: rest) info).typeRead options) = ⟨tree, finish, .ok ()⟩) :
    Visit holds literal role (apply operator (source :: rest) info) scope tree finish := by
  obtain ⟨ruled, rfl⟩ := ofRule_eq_ok found
  obtain rfl | ⟨free, _, -, -, ⟨-, rfl⟩ | ⟨_, count, -, -, rfl⟩⟩ := typeRead_ok ruled
  · exact visit_same inner other known registry
  · exact visit_filled inner (.refl _) other free (rule options.stringSize rest) registry
  · exact visit_filled inner (marked_modify _ 1) other free (rule count _) registry

theorem visit_delete {target : Node}
    (inner : ArgsSettled literal scope.symbols "delete" [target])
    (known : ∀ type, info.type = some type → Rule literal "delete" [target] type) :
    Visit holds literal role (apply "delete" [target] info) scope
      ((apply "delete" [target] info).fillType .void) scope := by
  cases typed : info.type with
  | none => exact visit_filled inner (.refl _) (by decide) typed .delete registry
  | some type =>
      rw [fillType_of_type? (show (apply "delete" [target] info).type? = some type from typed)]
      exact visit_same inner (by decide) known registry

/-- A target without a type gets that of the value, before its own arguments are
typed. -/
theorem visit_newTarget {value : Node} {valueType : Ty} {targetInfo : Info}
    (inner : ArgsSettled literal scope.symbols "=" [apply "[]" args targetInfo, value])
    (free : info.type = none) (targetFree : targetInfo.type = none)
    (valued : value.type? = some valueType) (room : valueType.size ≠ 0) :
    Visit holds literal role (apply "=" [apply "[]" args targetInfo, value] info) scope
      (apply "=" [apply "[]" args { targetInfo with type := some valueType }, value]
        { info with type := some .void }) scope := by
  have target := inner 0 _ rfl
  have waits := target.here.2 rfl targetFree
  have settled : Everywhere (Settled literal scope.symbols) .target
      (apply "[]" args { targetInfo with type := some valueType }) := by
    refine .apply ⟨fun type _ => .inr ⟨rfl, .inr waits⟩, ?_⟩ fun index arg place => target.arg place
    intro _ none
    cases none
  refine ⟨?_, ?_, .refl _, registry, ?_, fun _ _ _ => rfl⟩
  · simp only [untyped_apply, List.map_cons]
  · intro type known
    rw [show (apply "=" [apply "[]" args targetInfo, value] info).type? = none from free] at known
    cases known
  · refine .apply ⟨fun type same => .inl ?_, fun same => absurd same (by decide)⟩ ?_
    · cases same
      exact .assign rfl valued valueType.compatible_self room
    · intro index arg place
      obtain _ | _ | index := index
      · cases place
        exact settled
      · cases place
        exact inner 1 _ rfl
      · cases place

theorem visit_assign {target value : Node} (targets : target.applies "[]" = true)
    (inner : ArgsSettled literal scope.symbols "=" [target, value])
    (known : ∀ type, info.type = some type → Rule literal "=" [target, value] type)
    (found : (apply "=" [target, value] info).typeAssign scope = ⟨tree, finish, .ok ()⟩) :
    Visit holds literal role (apply "=" [target, value] info) scope tree finish := by
  obtain ⟨rfl, rfl⟩ | ⟨free, _, _, _, valueType, parts, valued, room, found⟩ := typeAssign_ok found
  · exact visit_same inner (by decide) known registry
  · cases parts
    obtain ⟨targetFree, rfl, rfl⟩ | ⟨targetType, targetTyped, fits, rfl, rfl⟩ := typeTarget_ok found
    · cases target with
      | apply operator args targetInfo =>
          obtain rfl : operator = "[]" := by simpa [applies, operator?] using targets
          have targetFree : targetInfo.type = none := targetFree
          have filled : ((apply "=" [apply "[]" args targetInfo, value] info).modifyArgument 0
              (fillType · valueType)).fillType .void =
                apply "=" [apply "[]" args { targetInfo with type := some valueType }, value]
                  { info with type := some .void } := by
            rw [← fillType_apply targetFree]
            exact fillType_apply free
          rw [filled, recordType_apply]
          exact visit_newTarget registry inner free targetFree valued room
      | ident _ _ | str _ _ | num _ _ _ => cases targets
    · exact visit_filled inner (.refl _) (by decide) free
        (.assign targetTyped valued fits room) registry

section Subscript

variable {collection key : Node} {keyType collectionType type : Ty}

omit registry in
theorem isScalar_iff {type : Ty} : type.isScalar = true ↔ ∃ kind, type = .scalar kind := by
  cases type <;> simp [Ty.isScalar]

omit registry in
theorem indexedType_ok {node : Node} {element result : Ty} {length? : Option Nat}
    (found : node.indexedType collection key collectionType keyType element length? = .ok result) :
    result = element ∧ (∃ kind, keyType = .scalar kind) ∧
      ∀ position length, key.num? = some position → length? = some length →
        position.toNat < length := by
  unfold indexedType at found
  cases scalar : keyType.isScalar with
  | false =>
      rw [scalar] at found
      cases found
  | true =>
      simp only [scalar, Bool.not_true, Bool.false_eq_true, if_false] at found
      have kind := isScalar_iff.mp scalar
      split at found
      · rename_i position length known
        split at found
        · cases found
        · cases found
          refine ⟨rfl, kind, ?_⟩
          intro other least same equal
          cases known.symm.trans same
          cases equal
          omega
      · rename_i unknown
        cases found
        exact ⟨rfl, kind, fun position length same equal =>
          absurd equal (unknown position length same)⟩

omit registry in
theorem rule_of_elementType {node : Node} (collectionKnown : collection.type? = some collectionType)
    (keyKnown : key.type? = some keyType)
    (found : node.elementType collection key collectionType keyType = .ok type) :
    Rule literal "[]" [collection, key] type := by
  unfold elementType at found
  split at found
  · obtain ⟨rfl, ⟨kind, rfl⟩, inside⟩ := indexedType_ok found
    exact .arrayElement collectionKnown keyKnown fun position literal =>
      inside position _ literal rfl
  · obtain ⟨rfl, ⟨kind, rfl⟩, -⟩ := indexedType_ok found
    exact .pointerElement collectionKnown keyKnown
  · split at found
    · rename_i fits
      cases found
      exact .mapElement collectionKnown keyKnown fits (Ty.compatible_self _)
    · cases found
  · cases found

/-- The element of a collection whose type is known. -/
theorem visit_element (inner : ArgsSettled literal scope.symbols "[]" [collection, key])
    (free : info.type = none) (collectionKnown : collection.type? = some collectionType)
    (keyKnown : key.type? = some keyType)
    (found : Typed.ofRule (apply "[]" [collection, key] info) scope
      ((apply "[]" [collection, key] info).typeElement collection key collectionType keyType) =
        ⟨tree, finish, .ok ()⟩) :
    Visit holds literal role (apply "[]" [collection, key] info) scope tree finish := by
  obtain ⟨ruled, rfl⟩ := ofRule_eq_ok found
  clear found
  unfold typeElement at ruled
  obtain ⟨type, element, same⟩ := ok_of_bind ruled
  have rule := @rule_of_elementType literal collection key keyType collectionType type _
    collectionKnown keyKnown element
  have marked (marked : List Node) (marks : Marked [collection, key] marked) :
      Visit holds literal role (apply "[]" [collection, key] info) finish
        ((apply "[]" marked info).fillType type) finish := by
    rw [fillType_apply free]
    refine visit_of_marked inner marks ?_ rfl rfl ⟨fun other typed => .inl ?_, ?_⟩ registry
    · intro _ typed
      rw [free] at typed
      cases typed
    · cases typed
      exact rule.follows marks.persists.follows
    · intro _ none
      cases none
  cases same
  split
  · exact marked _ (marked_modify [collection, key] 1)
  · exact marked _ (.refl _)

/-- The type of a map that is not known yet comes from the element. -/
theorem visit_collection (inner : ArgsSettled literal scope.symbols "[]" [collection, key])
    (target : role = .target) (typed : info.type = some type)
    (collectionFree : collection.type? = none) (keyKnown : key.type? = some keyType)
    (waiting : ∀ name mapInfo, collection = ident name mapInfo →
      (∃ symbol, scope.symbols.get? name = some symbol ∧ symbol.type = none) ∨ key.Assigns name)
    (found : (apply "[]" [collection, key] info).typeCollection collection keyType type scope =
      ⟨tree, finish, .ok ()⟩) :
    Visit holds literal role (apply "[]" [collection, key] info) scope tree finish := by
  unfold typeCollection at found
  split at found
  · cases found
  · rename_i name named
    cases collection with
    | ident name' mapInfo =>
        obtain rfl : name' = name := by simpa [ident?] using named
        have mapFree : mapInfo.type = none := collectionFree
        let map : Ty := .map keyType type .hash
        let given : Node := ident name' { mapInfo with type := some map }
        have filled : (ident name' mapInfo).fillType map = given :=
          fillType_of_free collectionFree map
        have recorded : (ident name' mapInfo).recordType map scope.symbols =
            scope.symbols.setType name' map := by
          unfold recordType
          rw [collectionFree]
          rfl
        have whole : (apply "[]" [ident name' mapInfo, key] info).modifyArgument 0
            (fillType · map) = apply "[]" [given, key] info := by
          rw [← filled]
          rfl
        have before : scope.symbols.Before (scope.symbols.setType name' map) :=
          Symbols.before_setType map
        simp only [map] at whole recorded
        simp only [whole, recorded] at found
        cases found
        refine ⟨?_, fun _ => id, before, registry, ?_, ?_⟩
        · rw [untyped_apply, untyped_apply]
          rfl
        · refine .apply ⟨fun other same => .inl ?_, ?_⟩ ?_
          · cases typed.symm.trans same
            exact .mapElement rfl keyKnown keyType.compatible_self type.compatible_self
          · intro _ none
            cases typed.symm.trans none
          · intro index arg place
            match index, place with
            | 0, place =>
                cases place
                refine .leaf rfl ?_
                intro other same
                cases same
                rcases waiting name' mapInfo rfl with ⟨symbol, known, untyped⟩ | assigns
                · exact .inl (Symbols.typeOf?_setType known untyped map)
                · exact .inr ⟨key.bare, rfl, assigns.of_bare (bare_bare key).symm⟩
            | 1, place =>
                cases place
                exact (inner 1 _ rfl).mono fun _ _ settled => settled.mono before
        · intro other _ targets
          have different : name' ≠ other := fun same => targets target (by rw [← same]; rfl)
          exact Symbols.typeOf?_setType_of_ne different map
    | apply _ _ _ | str _ _ | num _ _ _ => cases named

omit registry in
/-- An element that fits its collection obeys its rule, unless it is a target and
the collection is no map. -/
theorem rule_of_checkElement {node : Node}
    (collectionKnown : collection.type? = some collectionType) (keyKnown : key.type? = some keyType)
    (known : Rule literal "[]" [collection, key] type ∨ role = .target)
    (found : node.checkElement collection key collectionType keyType type = .ok ()) :
    Rule literal "[]" [collection, key] type ∨ role = .target ∧ Unmapped [collection, key] := by
  unfold checkElement at found
  split at found
  · split at found
    · cases found
    · rename_i fits
      split at found
      · cases found
      · rename_i fits'
        exact .inl
          (.mapElement collectionKnown keyKnown (by simpa using fits) (by simpa using fits'))
  · rename_i other
    refine known.imp_right fun target => ⟨target, collection, key, _, rfl, collectionKnown, ?_⟩
    cases collectionType with
    | map wanted value kind => exact absurd rfl (other wanted value kind)
    | _ => rfl

theorem visit_subscript (inner : ArgsSettled literal scope.symbols "[]" [collection, key])
    (known : ∀ type, info.type = some type →
      Rule literal "[]" [collection, key] type ∨ role = .target)
    (waiting : ∀ name mapInfo, collection = ident name mapInfo → mapInfo.type = none →
      (∃ symbol, scope.symbols.get? name = some symbol ∧ symbol.type = none) ∨ key.Assigns name)
    (found : (apply "[]" [collection, key] info).typeSubscript scope = ⟨tree, finish, .ok ()⟩) :
    Visit holds literal role (apply "[]" [collection, key] info) scope tree finish := by
  have stays (settled : Settled literal scope.symbols role (apply "[]" [collection, key] info)) :
      Visit holds literal role (apply "[]" [collection, key] info) scope
        (apply "[]" [collection, key] info) scope :=
    visit_of_marked inner (.refl _) (fun _ => id) rfl rfl settled registry
  have first : collection ∈ [collection, key] := List.mem_cons_self
  have second : key ∈ [collection, key] := List.mem_cons_of_mem _ List.mem_cons_self
  unfold typeSubscript at found
  simp only [args] at found
  cases keyKnown : key.type? with
  | none =>
      simp only [keyKnown] at found
      cases found
      exact stays ⟨fun type typed => (known type typed).imp_right fun target =>
        ⟨target, .inr ⟨key, second, keyKnown⟩⟩, fun _ _ => ⟨key, second, keyKnown⟩⟩
  | some keyType =>
      cases typed : info.type with
      | none =>
          have free : (apply "[]" [collection, key] info).type? = none := typed
          cases collectionKnown : collection.type? with
          | none =>
              simp only [keyKnown, free, collectionKnown] at found
              cases found
              refine stays ⟨?_, fun _ _ => ⟨collection, first, collectionKnown⟩⟩
              intro type same
              cases typed.symm.trans same
          | some collectionType =>
              simp only [keyKnown, free, collectionKnown] at found
              exact visit_element registry inner typed collectionKnown keyKnown found
      | some type =>
          have here : (apply "[]" [collection, key] info).type? = some type := typed
          cases collectionKnown : collection.type? with
          | none =>
              simp only [keyKnown, here, collectionKnown] at found
              have target : role = .target := by
                refine (known type typed).resolve_left ?_
                intro rule
                obtain ⟨type, _, there, -⟩ := rule.subscript rfl rfl
                cases collectionKnown.symm.trans there
              refine visit_collection registry inner target typed collectionKnown keyKnown
                (fun name mapInfo same => waiting name mapInfo same ?_) found
              subst same
              exact collectionKnown
          | some collectionType =>
              simp only [keyKnown, here, collectionKnown] at found
              obtain ⟨rfl, rfl, checked⟩ := Typed.mk.inj found
              have settled :=
                rule_of_checkElement collectionKnown keyKnown (known type typed) checked
              refine stays ⟨?_, ?_⟩
              · intro other same
                cases typed.symm.trans same
                exact settled.imp_right fun both => ⟨both.1, .inl both.2⟩
              · intro _ none
                cases typed.symm.trans none

end Subscript

end Steps

end Node

end TraceProbe
