import TraceProbe.Proofs.Emission.Composition
import TraceProbe.Proofs.Typing.Marks

/-!
# Applications that emission can work with

The typing rules leave open whether the values of arguments take any room, and
whether a value that has another size than the place where it belongs can be
moved there.  A value can be moved as it is or through a register.
-/

namespace TraceProbe.Node

/-- The number of bytes of a node's value. -/
def valueSize (node : Node) : Nat :=
  (node.type?.map Ty.size).getD 0

/-- The node names a map. -/
def NamesMap (symbols : Symbols) (node : Node) : Prop :=
  ∃ name symbol, node.ident? = some name ∧ symbols.get? name = some symbol ∧
    symbol.kind.map?.isSome = true

/-- A value of some bytes can be moved to a place of others. -/
def Movable (size place : Nat) : Prop :=
  size = place ∨ (Width.ofBytes? size).isSome = true ∧ (Width.ofBytes? place).isSome = true

/-- An argument of which no value is read: what an operator writes to or removes,
a dereference of which one member is read, and the map of an element. -/
def Unread (operator : String) (args : List Node) (index : Nat) : Prop :=
  index = 0 ∧ (operator = "=" ∨ operator = "delete" ∨
    (operator = "." ∧ ∃ base ∈ args[0]?, base.applies "u*" = true) ∨
      operator = "[]" ∧ ∃ type, firstType? args = some type ∧ type.isMap = true)

/-- What a subscript takes an element of: a named map with keys that the key can
be moved to, an array, or what a pointer points to. -/
def Subscriptable (symbols : Symbols) (collection key : Node) : Prop :=
  match collection.type? with
  | some (.map wanted _ _) => collection.NamesMap symbols ∧ Movable key.valueSize wanted.size
  | some (.array _ _) | some (.pointer _) => True
  | _ => False

/-- An application that emission can work with: the values that it reads take
room, values can be moved to where they belong, and a struct literal is the struct
of its arguments. -/
structure Workable (symbols : Symbols) (operator : String) (args : List Node) (type : Option Ty) :
    Prop where
  valued : ∀ (index : Nat) (arg : Node), args[index]? = some arg →
    Unread operator args index ∨ arg.isVirtual = true ∨ 0 < arg.valueSize
  assigned : operator = "=" → ∀ target value, args = [target, value] →
    Movable value.valueSize target.valueSize
  subscripted : operator = "[]" → ∀ collection key, args = [collection, key] →
    Subscriptable symbols collection key
  literal : operator = ":struct" → ∃ members result, valueTypes? args = some members ∧
    type = some result ∧ Registry.Literal members result

/-- A statement that emission can work with.  It has a value or is run for its
effect, unless it names a map. -/
structure Realizable (symbols : Symbols) (statement : Node) : Prop where
  stands : statement.applies "=" = true ∨ statement.applies "delete" = true ∨
    statement.NamesMap symbols ∨ 0 < statement.valueSize
  workable : ∀ operator args info, PartOf (apply operator args info) statement →
    Workable symbols operator args info.type

variable {symbols : Symbols} {node arg tree : Node} {operator : String} {args trees : List Node}
  {info : Info} {type : Ty} {index : Nat}

theorem valueSize_of_type? (typed : node.type? = some type) : node.valueSize = type.size := by
  rw [valueSize, typed]
  rfl

theorem exists_type_of_valueSize (some : 0 < node.valueSize) :
    ∃ type, node.type? = Option.some type ∧ 0 < type.size := by
  unfold valueSize at some
  cases typed : node.type? with
  | none => simp [typed] at some
  | some type => exact ⟨type, rfl, by simpa [typed] using some⟩

theorem Movable.positive {size place : Nat} (movable : Movable size place) (some : 0 < size) :
    0 < place := by
  rcases movable with rfl | ⟨-, wide⟩
  · exact some
  · rcases Nat.eq_zero_or_pos place with rfl | positive
    · cases wide
    · exact positive

/-- Trees that are alike but for their storages. -/
structure Alike (arg tree : Node) : Prop where
  bare : arg.bare = tree.bare
  type : tree.type? = arg.type?
  virtual : tree.isVirtual = arg.isVirtual

theorem alike_of_unstored (same : tree.unstored = arg.unstored) : Alike arg tree := by
  refine ⟨bare_of_unstored same.symm, ?_, ?_⟩
  · have types := congrArg type? same
    simpa [unstored, type?] using types
  · have marks := congrArg isVirtual same
    simpa [unstored, isVirtual] using marks

theorem Alike.valueSize (alike : Alike arg tree) : tree.valueSize = arg.valueSize := by
  rw [Node.valueSize, Node.valueSize, alike.type]

/-- Lists of trees that are alike but for their storages. -/
structure AlikeAll (args trees : List Node) : Prop where
  length : trees.length = args.length
  each : ∀ (index : Nat) (arg tree : Node), args[index]? = some arg → trees[index]? = some tree →
    Alike arg tree

theorem alikeAll_of_unstoreds (same : trees.map unstored = args.map unstored) :
    AlikeAll args trees := by
  refine ⟨by simpa using congrArg List.length same, ?_⟩
  intro index arg tree here there
  have found := congrArg (·[index]?) same
  simp only [List.getElem?_map, here, there, Option.map_some, Option.some.injEq] at found
  exact alike_of_unstored found

theorem AlikeAll.exists_arg (alike : AlikeAll args trees) (there : trees[index]? = some tree) :
    ∃ arg, args[index]? = some arg ∧ Alike arg tree := by
  have inside : index < args.length := alike.length ▸ (List.getElem?_eq_some_iff.mp there).1
  have here := List.getElem?_eq_getElem inside
  exact ⟨_, here, alike.each index _ tree here there⟩

theorem AlikeAll.exists_tree (alike : AlikeAll args trees) (here : args[index]? = some arg) :
    ∃ tree, trees[index]? = some tree ∧ Alike arg tree := by
  have inside : index < trees.length := alike.length ▸ (List.getElem?_eq_some_iff.mp here).1
  have there := List.getElem?_eq_getElem inside
  exact ⟨_, there, alike.each index arg _ here there⟩

theorem AlikeAll.map_eq {α : Type} {read : Node → α} (alike : AlikeAll args trees)
    (same : ∀ arg tree, Alike arg tree → read tree = read arg) :
    trees.map read = args.map read := by
  refine List.ext_getElem? ?_
  intro index
  rw [List.getElem?_map, List.getElem?_map]
  cases here : args[index]? with
  | none =>
      have outside := List.getElem?_eq_none_iff.mp here
      rw [List.getElem?_eq_none (alike.length ▸ outside)]
  | some arg =>
      obtain ⟨tree, there, both⟩ := alike.exists_tree here
      rw [there, Option.map_some, Option.map_some, same arg tree both]

theorem AlikeAll.follows (alike : AlikeAll args trees) : Follows args trees where
  bares := (alike.map_eq fun _ _ same => same.bare.symm).symm
  typed index arg tree here there _ typed :=
    (alike.each index arg tree here there).type.trans typed

theorem AlikeAll.virtual (alike : AlikeAll args trees) : trees.map isVirtual = args.map isVirtual :=
  alike.map_eq fun _ _ same => same.virtual

theorem AlikeAll.firstType?_eq (alike : AlikeAll args trees) :
    firstType? trees = firstType? args := by
  cases args with
  | nil =>
      obtain rfl := List.eq_nil_of_length_eq_zero alike.length
      rfl
  | cons arg args =>
      cases trees with
      | nil => cases alike.length
      | cons tree trees => exact (alike.each 0 arg tree rfl rfl).type

theorem valueTypes?_of_types (same : trees.map type? = args.map type?) :
    valueTypes? trees = valueTypes? args := by
  induction trees generalizing args with
  | nil =>
      cases args with
      | nil => rfl
      | cons _ _ => cases same
  | cons tree trees ih =>
      cases args with
      | nil => cases same
      | cons arg args =>
          obtain ⟨first, others⟩ := List.cons.inj same
          rw [valueTypes?, valueTypes?, first, ih others]

theorem AlikeAll.types (alike : AlikeAll args trees) : trees.map type? = args.map type? :=
  alike.map_eq fun _ _ same => same.type

theorem AlikeAll.two {first second : Node} (alike : AlikeAll args [first, second]) :
    ∃ first' second', args = [first', second'] ∧ Alike first' first ∧ Alike second' second := by
  obtain ⟨first', second', rfl, -, -⟩ := two_of_bares (alike.follows.bares).symm
  exact ⟨first', second', rfl, alike.each 0 _ _ rfl rfl, alike.each 1 _ _ rfl rfl⟩

theorem AlikeAll.pair {first second : Node} (alike : AlikeAll [first, second] trees) :
    ∃ first' second', trees = [first', second'] ∧ Alike first first' ∧ Alike second second' := by
  obtain ⟨first', second', rfl, -, -⟩ := two_of_bares alike.follows.bares
  exact ⟨first', second', rfl, alike.each 0 _ _ rfl rfl, alike.each 1 _ _ rfl rfl⟩

theorem AlikeAll.single (alike : AlikeAll [arg] trees) :
    ∃ arg', trees = [arg'] ∧ Alike arg arg' := by
  obtain ⟨arg', rfl, -⟩ := one_of_bares alike.follows.bares
  exact ⟨arg', rfl, alike.each 0 _ _ rfl rfl⟩

theorem AlikeAll.source {first : Node} {rest : List Node} (alike : AlikeAll (first :: rest) trees) :
    ∃ first' rest', trees = first' :: rest' := by
  cases trees with
  | nil => cases alike.length
  | cons first' rest' => exact ⟨first', rest', rfl⟩

theorem Subscriptable.follow {collection key collection' key' : Node}
    (subscriptable : Subscriptable symbols collection' key') (first : Alike collection' collection)
    (second : Alike key' key) : Subscriptable symbols collection key := by
  unfold Subscriptable at subscriptable ⊢
  rw [first.type]
  split at subscriptable
  · obtain ⟨⟨name, symbol, named, known⟩, movable⟩ := subscriptable
    exact ⟨⟨name, symbol, (ident?_of_bare first.bare) ▸ named, known⟩, second.valueSize ▸ movable⟩
  · trivial
  · trivial
  · exact subscriptable.elim

theorem Workable.follow {type : Option Ty} (workable : Workable symbols operator args type)
    (alike : AlikeAll args trees) : Workable symbols operator trees type := by
  refine ⟨?_, ?_, ?_, ?_⟩
  · intro index tree there
    obtain ⟨arg, here, same⟩ := alike.exists_arg there
    rcases workable.valued index arg here with ⟨first, unread⟩ | virtual | some
    · refine .inl ⟨first, ?_⟩
      rcases unread with assign | delete | ⟨dot, base, there', deref⟩ | ⟨subscript, map⟩
      · exact .inl assign
      · exact .inr (.inl delete)
      · obtain ⟨tree', there', same'⟩ := alike.exists_tree there'
        exact .inr (.inr (.inl ⟨dot, tree', there', applies_of_bare same'.bare "u*" ▸ deref⟩))
      · exact .inr (.inr (.inr ⟨subscript, alike.firstType?_eq ▸ map⟩))
    · exact .inr (.inl (same.virtual ▸ virtual))
    · exact .inr (.inr (same.valueSize ▸ some))
  · rintro assign target value rfl
    obtain ⟨target', value', rfl, first, second⟩ := alike.two
    rw [first.valueSize, second.valueSize]
    exact workable.assigned assign target' value' rfl
  · rintro subscript collection key rfl
    obtain ⟨collection', key', rfl, first, second⟩ := alike.two
    exact (workable.subscripted subscript collection' key' rfl).follow first second
  · intro literal
    rw [valueTypes?_of_types alike.types]
    exact workable.literal literal

theorem Emittable.rule_structLiteral {literal : List Ty → Ty → Prop}
    {typing : Symbols} {role : Role}
    (emittable : Emittable literal typing role (apply ":struct" args info)) :
    ∃ type, info.type = some type ∧ Rule literal ":struct" args type := by
  obtain ⟨type, typed⟩ := typed_of_sound emittable.sound.here
  exact ⟨type, typed, emittable.rule typed (by decide)⟩

/-- A typed tree whose struct literals are the structs of their arguments. -/
theorem Emittable.literals {literal literal' : List Ty → Ty → Prop} {typing : Symbols} {role : Role}
    (emittable : Emittable literal typing role node)
    (each : ∀ args info, PartOf (apply ":struct" args info) node → ∀ members type,
      valueTypes? args = some members → info.type = some type → literal' members type) :
    Emittable literal' typing role node := by
  refine ⟨emittable.sound.follow ?_, emittable.applies, emittable.shaped, emittable.unstored⟩
  intro role part inside
  rintro (obeys | excused)
  · refine .inl ?_
    cases part with
    | apply operator args info =>
        obtain ⟨type, typed, rule⟩ := obeys
        refine ⟨type, typed, rule.literals ?_⟩
        intro isLiteral members known
        subst isLiteral
        exact each args info inside members type known typed
    | ident _ _ | str _ _ | num _ _ _ => exact obeys
  · exact .inr excused

/-- What emission can work with has the struct literals that it is typed with. -/
theorem Emittable.workable {literal : List Ty → Ty → Prop} {typing : Symbols} {role : Role}
    (emittable : Emittable literal typing role node)
    (workable : ∀ operator args info, PartOf (apply operator args info) node →
      Workable symbols operator args info.type) : Emittable Registry.Literal typing role node := by
  refine emittable.literals ?_
  intro args info inside members type known typed
  obtain ⟨_, _, known', typed', literal⟩ := (workable _ args info inside).literal rfl
  cases known.symm.trans known'
  cases typed.symm.trans typed'
  exact literal

end TraceProbe.Node
