import TraceProbe.Proofs.Node.Parts

/-!
# Shapes of trees

The applications that validation lets through, and where a node stands in its
parent: as the target of an assignment, as the collection of a subscript, or as
a value.  Shapes and roles depend on no record.
-/

namespace TraceProbe.Node

/-- The operators with arguments that they can work with. -/
inductive Shape : String → List Node → Prop
  | dot {base member : Node} {name : String} : member.str? = some name → Shape "." [base, member]
  | deref (pointer : Node) : Shape "u*" [pointer]
  | structLiteral {args : List Node} : args ≠ [] → Shape ":struct" args
  | subscript (collection key : Node) : Shape "[]" [collection, key]
  | assign {target : Node} (value : Node) : target.applies "[]" = true → Shape "=" [target, value]
  | delete {target : Node} : target.applies "[]" = true → Shape "delete" [target]
  | strcmp (left right : Node) : Shape "strcmp" [left, right]
  | mem (source : Node) {rest : List Node} : rest.length ≤ 1 → Shape "mem" (source :: rest)
  | str (source : Node) {rest : List Node} : rest.length ≤ 1 → Shape "str" (source :: rest)

/-- A tree whose applications all have such a shape. -/
def Shaped (node : Node) : Prop :=
  ∀ operator args info, PartOf (apply operator args info) node → Shape operator args

/-- What a node is to its parent. -/
inductive Role where
  | value
  /-- It is assigned to. -/
  | target
  /-- It is subscripted with a key, which is given without its records. -/
  | collection (key : Option Node)

/-- The role of an argument. -/
def Role.of (operator : String) (args : List Node) (index : Nat) : Role :=
  if index ≠ 0 then .value
  else if operator = "=" then .target
  else if operator = "[]" then .collection (args[1]?.map bare)
  else .value

/-- Every node of a tree is as it should be in its role. -/
inductive Everywhere (holds : Role → Node → Prop) : Role → Node → Prop
  | leaf {role : Role} {node : Node} :
      node.operator? = none → holds role node → Everywhere holds role node
  | apply {role : Role} {operator : String} {args : List Node} {info : Info} :
      holds role (Node.apply operator args info) →
        (∀ (index : Nat) (arg : Node), args[index]? = some arg →
          Everywhere holds (Role.of operator args index) arg) →
        Everywhere holds role (Node.apply operator args info)

/-- The name of the collection of a subscript, if it has one. -/
def mapName? (node : Node) : Option String :=
  if node.applies "[]" then node.args.head?.bind ident? else none

/-- Some part of the tree assigns to an element of a map of a given name. -/
def Assigns (name : String) (node : Node) : Prop :=
  ∃ part, PartOf part node ∧ part.applies "=" = true ∧
    part.args.head?.bind mapName? = some name

section Everywhere

variable {holds also : Role → Node → Prop} {role : Role} {node part : Node} {operator : String}
  {args : List Node} {info : Info}

theorem Everywhere.here (everywhere : Everywhere holds role node) : holds role node := by
  cases everywhere with
  | leaf _ found => exact found
  | apply found _ => exact found

theorem Everywhere.arg (everywhere : Everywhere holds role (Node.apply operator args info))
    {index : Nat} {arg : Node} (found : args[index]? = some arg) :
    Everywhere holds (Role.of operator args index) arg := by
  cases everywhere with
  | leaf leaf _ => cases leaf
  | apply _ inner => exact inner index arg found

theorem Everywhere.follow (everywhere : Everywhere holds role node)
    (each : ∀ role part, PartOf part node → holds role part → also role part) :
    Everywhere also role node := by
  induction everywhere with
  | leaf leaf found => exact .leaf leaf (each _ _ .root found)
  | apply found _ ih =>
      refine .apply (each _ _ .root found) fun index arg here => ih index arg here ?_
      intro role part inside
      exact each role part (.inner (List.mem_of_getElem? here) inside)

theorem Everywhere.mono (everywhere : Everywhere holds role node)
    (weaker : ∀ role node, holds role node → also role node) : Everywhere also role node :=
  everywhere.follow fun role part _ => weaker role part

theorem everywhere_of_forall (all : ∀ role part, PartOf part node → holds role part) :
    Everywhere holds role node := by
  induction node using induct generalizing role with
  | leaf node leaf => exact .leaf leaf (all _ _ .root)
  | apply operator args info ih =>
      refine .apply (all _ _ .root) ?_
      intro index arg found
      have member := List.mem_of_getElem? found
      exact ih arg member fun role part inside => all role part (.inner member inside)

end Everywhere

section Bare

variable {left right : Node}

theorem length_of_bares {lefts rights : List Node} (same : lefts.map bare = rights.map bare) :
    lefts.length = rights.length := by
  simpa using congrArg List.length same

theorem Role.of_bares {lefts rights : List Node} (same : lefts.map bare = rights.map bare)
    (operator : String) (index : Nat) :
    Role.of operator lefts index = Role.of operator rights index := by
  have keys : lefts[1]?.map bare = rights[1]?.map bare := by
    rw [← List.getElem?_map, ← List.getElem?_map, same]
  unfold Role.of
  rw [keys]

theorem mapName?_of_bare (same : left.bare = right.bare) : left.mapName? = right.mapName? := by
  have name (node : Node) : node.bare.mapName? = node.mapName? := by
    have head : (node.args.map bare).head?.bind ident? = node.args.head?.bind ident? := by
      cases node.args with
      | nil => rfl
      | cons first _ => exact ident?_mapInfo first
    unfold mapName?
    rw [show node.bare.args = node.args.map bare from args_mapInfo node, head,
      applies, applies, show node.bare.operator? = node.operator? from operator?_mapInfo node]
  rw [← name left, same, name right]

theorem PartOf.of_bare {part : Node} (among : PartOf part left) (same : left.bare = right.bare) :
    ∃ original, PartOf original right ∧ part.bare = original.bare := by
  have there : PartOf part.bare right.bare := same ▸ among.mapInfo
  exact exists_of_partOf_mapInfo there

theorem args_of_bare (same : left.bare = right.bare) :
    left.args.map bare = right.args.map bare := by
  have found := congrArg args same
  rwa [show left.bare.args = left.args.map bare from args_mapInfo left,
    show right.bare.args = right.args.map bare from args_mapInfo right] at found

theorem Assigns.of_bare {name : String} (assigns : left.Assigns name)
    (same : left.bare = right.bare) :
    right.Assigns name := by
  obtain ⟨part, among, applied, target⟩ := assigns
  obtain ⟨original, found, equal⟩ := among.of_bare same
  refine ⟨original, found, applies_of_bare equal "=" ▸ applied, ?_⟩
  have args := args_of_bare equal
  cases firsts : part.args with
  | nil =>
      rw [firsts] at target
      cases target
  | cons first others =>
      cases seconds : original.args with
      | nil =>
          rw [firsts, seconds] at args
          cases args
      | cons second more =>
          rw [firsts, seconds, List.map_cons, List.map_cons] at args
          rw [firsts] at target
          have named := mapName?_of_bare (List.cons.inj args).1
          simpa [named] using target

theorem one_of_bares {first : Node} {rights : List Node}
    (same : [first].map bare = rights.map bare) :
    ∃ first', rights = [first'] ∧ first.bare = first'.bare := by
  obtain ⟨first', rfl⟩ := List.length_eq_one_iff.mp (length_of_bares same).symm
  exact ⟨first', rfl, (List.cons.inj same).1⟩

theorem two_of_bares {first second : Node} {rights : List Node}
    (same : [first, second].map bare = rights.map bare) :
    ∃ first' second', rights = [first', second'] ∧ first.bare = first'.bare ∧
      second.bare = second'.bare := by
  cases rights with
  | nil => cases same
  | cons first' others =>
      obtain ⟨here, rest⟩ := List.cons.inj same
      obtain ⟨second', rfl, there⟩ := one_of_bares rest
      exact ⟨first', second', rfl, here, there⟩

theorem Shape.of_bares {operator : String} {lefts rights : List Node} (shape : Shape operator lefts)
    (same : lefts.map bare = rights.map bare) : Shape operator rights := by
  have length := length_of_bares same
  cases shape with
  | dot known =>
      obtain ⟨base, member, rfl, -, named⟩ := two_of_bares same
      exact .dot (str?_of_bare named ▸ known)
  | deref pointer =>
      obtain ⟨pointer', rfl, -⟩ := one_of_bares same
      exact .deref pointer'
  | structLiteral some =>
      refine .structLiteral fun none => some ?_
      exact List.eq_nil_of_length_eq_zero (by rw [length, none, List.length_nil])
  | subscript collection key =>
      obtain ⟨collection', key', rfl, -, -⟩ := two_of_bares same
      exact .subscript collection' key'
  | assign value targets =>
      obtain ⟨target, value', rfl, equal, -⟩ := two_of_bares same
      exact .assign value' (applies_of_bare equal "[]" ▸ targets)
  | delete targets =>
      obtain ⟨target, rfl, equal⟩ := one_of_bares same
      exact .delete (applies_of_bare equal "[]" ▸ targets)
  | strcmp left right =>
      obtain ⟨left', right', rfl, -, -⟩ := two_of_bares same
      exact .strcmp left' right'
  | mem source short =>
      cases rights with
      | nil => cases length
      | cons source' rest' => exact .mem source' (by simp at length; omega)
  | str source short =>
      cases rights with
      | nil => cases length
      | cons source' rest' => exact .str source' (by simp at length; omega)

theorem Shape.subscript_args {operator : String} {args : List Node} (shape : Shape operator args)
    (subscript : operator = "[]") : ∃ collection key, args = [collection, key] := by
  cases shape with
  | subscript collection key => exact ⟨collection, key, rfl⟩
  | _ => exact absurd subscript (by decide)

theorem Shape.target_applies {operator : String} {args : List Node} {index : Nat} {arg : Node}
    (shape : Shape operator args) (place : args[index]? = some arg)
    (target : Role.of operator args index = .target) : arg.applies "[]" = true := by
  unfold Role.of at target
  split at target
  · cases target
  · rename_i first
    obtain rfl : index = 0 := by omega
    split at target
    · rename_i assign
      cases shape with
      | assign value targets =>
          cases place
          exact targets
      | _ => exact absurd assign (by decide)
    · split at target <;> cases target

theorem Shaped.of_bare (shaped : right.Shaped) (same : left.bare = right.bare) : left.Shaped := by
  intro operator args info among
  obtain ⟨original, found, equal⟩ := among.of_bare same
  have applied := operator?_of_bare equal
  cases original with
  | apply operator' args' info' =>
      cases applied
      exact (shaped operator args' info' found).of_bares (args_of_bare equal).symm
  | ident _ _ | str _ _ | num _ _ _ => cases applied

theorem Unstored.of_untyped (unstored : right.Unstored) (same : left.untyped = right.untyped) :
    left.Unstored := by
  intro part among
  have there : PartOf part.untyped right.untyped := same ▸ among.mapInfo
  obtain ⟨original, found, equal⟩ := exists_of_partOf_mapInfo there
  have infos := congrArg info equal
  rw [untyped, info_mapInfo, info_mapInfo] at infos
  have storages := congrArg Info.storage infos
  exact storages.trans (unstored original found)

theorem Shaped.arg {operator : String} {args : List Node} {info : Info} {arg : Node}
    (shaped : (apply operator args info).Shaped) (member : arg ∈ args) : arg.Shaped := by
  intro operator args info inside
  exact shaped operator args info (.inner member inside)

theorem Unstored.args_free {operator : String} {args : List Node} {info : Info}
    (unstored : (apply operator args info).Unstored) :
    ∀ arg ∈ args, arg.storage.isAssigned = false := by
  intro arg member
  rw [unstored arg (.inner member .root)]
  rfl

theorem Unstored.arg {operator : String} {args : List Node} {info : Info} {arg : Node}
    (unstored : (apply operator args info).Unstored) (member : arg ∈ args) : arg.Unstored := by
  intro part inside
  exact unstored part (.inner member inside)

theorem Assigns.inner {operator name : String} {args : List Node} {info : Info} {arg : Node}
    (assigns : arg.Assigns name) (member : arg ∈ args) :
    (apply operator args info).Assigns name := by
  obtain ⟨part, among, found⟩ := assigns
  exact ⟨part, .inner member among, found⟩

end Bare

end TraceProbe.Node
