import TraceProbe.Proofs.Typing.Progress
import TraceProbe.Proofs.Typing.Visits

/-!
# What inference marks

Beside the types, inference leaves marks on the arguments that are folded into
their operators, and on no others; it lets reads through only at addresses; and
it knows every name, of which those of maps have types of maps.
-/

namespace TraceProbe

namespace Symbols

/-- Symbols as a host declares them. -/
inductive Declared : Symbols → Prop
  | new : Declared {}
  | declareContext {symbols : Symbols} (name : String) (type : Ty) (offset : Int16) :
      Declared symbols → Declared (symbols.declareContext name type offset).2
  | declareMap {symbols : Symbols} (name : String) (type : Ty) :
      Declared symbols → Declared (symbols.declareMap name type).2

/-- What is known to be the type of a map is the type of a map. -/
def MapsTyped (symbols : Symbols) : Prop :=
  ∀ symbol ∈ symbols.entries, symbol.kind.map?.isSome = true →
    ∀ type, symbol.type = some type → type.isMap = true

variable {symbols : Symbols} {symbol : Symbol} {type : Ty}

theorem MapsTyped.push (typed : symbols.MapsTyped)
    (fits : symbol.kind.map?.isSome = true → ∀ type, symbol.type = some type → type.isMap = true) :
    (symbols.push symbol).MapsTyped := by
  intro other member
  rcases List.mem_append.mp member with earlier | last
  · exact typed other earlier
  · rw [List.mem_singleton.mp last]
    exact fits

theorem MapsTyped.insert (typed : symbols.MapsTyped)
    (fits : symbol.kind.map?.isSome = true → ∀ type, symbol.type = some type → type.isMap = true) :
    (symbols.insert symbol).2.MapsTyped := by
  unfold Symbols.insert
  split
  · exact typed
  · exact typed.push fits

theorem MapsTyped.resolve (typed : symbols.MapsTyped) (name : String) :
    (symbols.resolve name).2.MapsTyped := by
  unfold Symbols.resolve
  split
  · exact typed
  · exact (show symbols.reserveMap.MapsTyped from typed).push fun _ type known => by cases known

theorem MapsTyped.setType (typed : symbols.MapsTyped) (map : type.isMap = true) (name : String) :
    (symbols.setType name type).MapsTyped := by
  intro symbol member isMap other known
  obtain ⟨before, earlier, rfl⟩ := List.mem_map.mp member
  split at known
  · cases known
    exact map
  · rename_i same
    rw [if_neg same] at isMap
    exact typed before earlier isMap other known

theorem Declared.mapsTyped (declared : symbols.Declared) : symbols.MapsTyped := by
  induction declared with
  | new => exact fun _ member => by cases member
  | declareContext name type offset _ ih => exact ih.insert fun isMap => by cases isMap
  | declareMap name type _ ih =>
      unfold Symbols.declareMap
      split
      · rename_i map
        refine (show (Symbols.reserveMap _).MapsTyped from ih).insert ?_
        intro _ other known
        cases known
        exact map
      · exact ih

theorem Declared.built (declared : symbols.Declared) : symbols.Built := by
  induction declared with
  | new => exact .new
  | declareContext name type offset _ ih => exact ih.declareContext name type offset
  | declareMap name type _ ih => exact ih.declareMap name type

end Symbols

namespace Node

/-- An argument that is folded into its operator: a member, a length, an index
into anything but a map, or a literal that is compared.  The collection has the
given type. -/
inductive Folded (operator : String) (collection : Option Ty) (arg : Node) : Nat → Prop
  | member : operator = "." → Folded operator collection arg 1
  | length : operator = "mem" ∨ operator = "str" → arg.num?.isSome = true →
      Folded operator collection arg 1
  | index {type : Ty} : operator = "[]" → arg.num?.isSome = true → collection = some type →
      type.isMap = false → Folded operator collection arg 1
  | literal {index : Nat} : operator = "strcmp" → arg.str?.isSome = true →
      Folded operator collection arg index

/-- The type of the first of several nodes. -/
def firstType? (args : List Node) : Option Ty :=
  args.head?.bind type?

/-- Only arguments that are folded into the operator are left without a value. -/
def Foldings (operator : String) (args : List Node) : Prop :=
  ∀ (index : Nat) (arg : Node), args[index]? = some arg → arg.isVirtual = true →
    Folded operator (firstType? args) arg index

/-- What an operator has checked by the time it is typed: the name of a member is
folded into it, a read is one at an address and of a length that is written down,
and no two literals are compared. -/
structure Vetted (operator : String) (args : List Node) (type : Option Ty) : Prop where
  members : operator = "." → type.isSome = true → ∀ arg, args[1]? = some arg → arg.isVirtual = true
  reads : operator = "mem" ∨ operator = "str" → type.isSome = true → ∀ source rest,
    args = source :: rest →
      ∃ address, source.type? = some address ∧ (Width.ofBytes? address.size).isSome = true
  lengths : operator = "mem" ∨ operator = "str" → type.isSome = true → ∀ length,
    args[1]? = some length → length.num?.isSome = true
  compares : operator = "strcmp" → type.isSome = true → args.countP (·.str?.isSome) ≠ 2

/-- What a visit leaves on a node. -/
def Noted (symbols : Symbols) : Node → Prop
  | apply operator args info => Foldings operator args ∧ Vetted operator args info.type
  | ident name info => ∃ symbol, symbols.get? name = some symbol ∧
      (symbol.kind.map?.isSome = true → ∀ type, info.type = some type → type.isMap = true)
  | str _ _ | num _ _ _ => True

/-- Every part has been visited. -/
def AllNoted (symbols : Symbols) (node : Node) : Prop :=
  ∀ part, PartOf part node → part.Noted symbols

/-- Every part has been visited, or it is a leaf without a type. -/
def Notable (symbols : Symbols) (node : Node) : Prop :=
  ∀ part, PartOf part node → part.Noted symbols ∨ part.operator? = none ∧ part.type? = none

variable {symbols later : Symbols} {node : Node} {operator : String} {args trees marked : List Node}
  {info info' : Info} {type : Ty}

section Noted

theorem vetted_none (operator : String) (args : List Node) : Vetted operator args none := by
  constructor
  · intro _ typed
    cases typed
  · intro _ typed
    cases typed
  · intro _ typed
    cases typed
  · intro _ typed
    cases typed

theorem Noted.mono (noted : node.Noted symbols) (before : symbols.Before later) :
    node.Noted later := by
  cases node with
  | apply operator args info => exact noted
  | ident name info =>
      obtain ⟨symbol, known, maps⟩ := noted
      obtain ⟨same, there, kind, -⟩ := before name symbol known
      exact ⟨same, there, kind ▸ maps⟩
  | str _ _ | num _ _ _ => trivial

theorem AllNoted.mono (noted : node.AllNoted symbols) (before : symbols.Before later) :
    node.AllNoted later := by
  intro part among
  exact (noted part among).mono before

theorem AllNoted.notable (noted : node.AllNoted symbols) : node.Notable symbols := by
  intro part among
  exact .inl (noted part among)

theorem Notable.mono (notable : node.Notable symbols) (before : symbols.Before later) :
    node.Notable later := by
  intro part among
  rcases notable part among with noted | free
  · exact .inl (noted.mono before)
  · exact .inr free

theorem Notable.arg {arg : Node} (notable : (apply operator args info).Notable symbols)
    (member : arg ∈ args) : arg.Notable symbols := by
  intro part inside
  exact notable part (.inner member inside)

theorem allNoted_apply (here : (apply operator args info).Noted symbols)
    (inner : ∀ arg ∈ args, arg.AllNoted symbols) : (apply operator args info).AllNoted symbols := by
  intro part among
  rcases partOf_apply_iff.mp among with rfl | ⟨arg, member, inside⟩
  · exact here
  · exact inner arg member part inside

theorem AllNoted.inner {arg : Node} (noted : (apply operator args info).AllNoted symbols)
    (member : arg ∈ args) : arg.AllNoted symbols := by
  intro part inside
  exact noted part (.inner member inside)

theorem AllNoted.withInfo (noted : node.AllNoted symbols)
    (here : (node.withInfo info').Noted symbols) :
    (node.withInfo info').AllNoted symbols := by
  cases node with
  | apply operator args info => exact allNoted_apply here fun arg member => noted.inner member
  | ident _ _ | str _ _ | num _ _ _ =>
      intro part among
      cases among
      exact here

theorem AllNoted.asVirtual (noted : node.AllNoted symbols) : node.asVirtual.AllNoted symbols := by
  refine noted.withInfo ?_
  have here := noted node .root
  cases node <;> exact here

theorem allNoted_marked (inner : ∀ arg ∈ args, arg.AllNoted symbols) (marks : Marked args marked) :
    ∀ arg ∈ marked, arg.AllNoted symbols := by
  intro new member
  obtain ⟨index, there⟩ := List.mem_iff_getElem?.mp member
  obtain ⟨arg, here, same⟩ := marks.exists_arg there
  have noted := inner arg (List.mem_of_getElem? here)
  rcases same with rfl | rfl
  · exact noted
  · exact noted.asVirtual

theorem Fresh.notable (fresh : node.Fresh) (symbols : Symbols) : node.Notable symbols := by
  intro part among
  cases part with
  | apply operator args info =>
      have free : info.type = none := (fresh _ among).1
      refine .inl ⟨?_, free ▸ vetted_none operator args⟩
      intro index arg here marked
      have inside : PartOf arg node := (PartOf.inner (List.mem_of_getElem? here) .root).trans among
      have free : arg.isVirtual = false := (fresh arg inside).2.2
      rw [free] at marked
      cases marked
  | ident _ _ | str _ _ | num _ _ _ => exact .inr ⟨rfl, (fresh _ among).1⟩

end Noted

section Marking

theorem firstType?_marked (marks : Marked args marked) (found : firstType? args = some type) :
    firstType? marked = some type := by
  cases args with
  | nil => cases found
  | cons arg args =>
      have typed : arg.type? = some type := found
      rcases marks.each 0 arg rfl with same | same
      all_goals
        cases marked with
        | nil => cases same
        | cons first others =>
            cases same
            simpa [firstType?] using typed

theorem Folded.mono {collection collection' : Option Ty} {arg arg' : Node} {index : Nat}
    (folded : Folded operator collection arg index) (bare : arg'.bare = arg.bare)
    (keeps : ∀ type, collection = some type → collection' = some type) :
    Folded operator collection' arg' index := by
  cases folded with
  | member dot => exact .member dot
  | length reads number => exact .length reads (num?_of_bare bare ▸ number)
  | index element number known noMap =>
      exact .index element (num?_of_bare bare ▸ number) (keeps _ known) noMap
  | literal compares text => exact .literal compares (str?_of_bare bare ▸ text)

theorem bare_asVirtual (node : Node) : node.asVirtual.bare = node.bare :=
  bare_of_untyped (untyped_asVirtual node)

theorem Foldings.grown (foldings : Foldings operator args) (marks : Marked args marked)
    (each : ∀ (index : Nat) (arg : Node), args[index]? = some arg →
      marked[index]? = some arg.asVirtual → marked[index]? ≠ some arg →
        Folded operator (firstType? args) arg index) : Foldings operator marked := by
  intro index new there virtual
  obtain ⟨arg, here, same⟩ := marks.exists_arg there
  have keeps (type : Ty) (known : firstType? args = some type) : firstType? marked = some type :=
    firstType?_marked marks known
  by_cases unchanged : new = arg
  · subst unchanged
    exact (foldings index new here virtual).mono rfl keeps
  · obtain rfl := same.resolve_left unchanged
    refine (each index arg here there fun other => unchanged ?_).mono (bare_asVirtual arg) keeps
    exact Option.some.inj (there.symm.trans other)

theorem Foldings.modify (foldings : Foldings operator args)
    (second : ∀ arg, args[1]? = some arg → Folded operator (firstType? args) arg 1) :
    Foldings operator (args.modify 1 Node.asVirtual) := by
  refine foldings.grown (marked_modify args 1) ?_
  intro index arg here _ changed
  by_cases same : index = 1
  · subst same
    exact second arg here
  · exact absurd (by simp [Ne.symm same, here]) changed

theorem Foldings.follow (foldings : Foldings operator args) (follows : Follows args trees)
    (virtual : trees.map isVirtual = args.map isVirtual) : Foldings operator trees := by
  intro index tree there virtually
  obtain ⟨arg, here, bare⟩ : ∃ arg, args[index]? = some arg ∧ arg.bare = tree.bare := by
    have same := congrArg (·[index]?) follows.bares
    simp only [List.getElem?_map, there, Option.map_some] at same
    obtain ⟨arg, here, same⟩ := Option.map_eq_some_iff.mp same
    exact ⟨arg, here, same⟩
  have marked : arg.isVirtual = true := by
    have same := congrArg (·[index]?) virtual
    simp only [List.getElem?_map, there, here, Option.map_some, Option.some.injEq] at same
    exact same ▸ virtually
  refine (foldings index arg here marked).mono bare.symm ?_
  intro type known
  cases args with
  | nil => cases known
  | cons first others =>
      cases trees with
      | nil => cases there
      | cons first' others' => exact follows.typed 0 first first' rfl rfl type known

theorem isVirtual_fillType (node : Node) (type : Ty) :
    (node.fillType type).isVirtual = node.isVirtual := by
  unfold fillType
  split
  · rfl
  · cases node <;> rfl

theorem Foldings.fillType {first second : Node} (foldings : Foldings operator [first, second])
    (type : Ty) : Foldings operator [first.fillType type, second] := by
  have kept : KeptAll [first, second] [first.fillType type, second] :=
    .cons (.fillType first type) (.refl _)
  refine foldings.follow ⟨kept.bares.symm, fun index arg tree here there _ =>
    (kept.each index arg tree here there).typed⟩ ?_
  simp only [List.map_cons, isVirtual_fillType]

theorem vetted_of_other {type : Option Ty}
    (other : ¬ (operator = "." ∨ operator = "mem" ∨ operator = "str" ∨ operator = "strcmp")) :
    Vetted operator args type := by
  refine ⟨fun dot => absurd (.inl dot) other, fun reads => absurd (.inr ?_) other,
    fun reads => absurd (.inr ?_) other, fun strcmp => absurd (.inr (.inr (.inr strcmp))) other⟩ <;>
    exact reads.imp_right .inl

theorem countP_of_bares (same : args.map bare = trees.map bare) :
    args.countP (·.str?.isSome) = trees.countP (·.str?.isSome) := by
  have counted (nodes : List Node) : (nodes.map bare).countP (·.str?.isSome) =
      nodes.countP (·.str?.isSome) := by
    rw [List.countP_map]
    congr
    funext node
    simp [bare]
  rw [← counted args, same, counted]

theorem Vetted.follow {type : Option Ty} (vetted : Vetted operator args type)
    (follows : Follows args trees) (virtual : trees.map isVirtual = args.map isVirtual) :
    Vetted operator trees type := by
  refine ⟨?_, ?_, ?_, fun strcmp typed =>
    countP_of_bares follows.bares ▸ vetted.compares strcmp typed⟩
  · intro dot typed tree there
    have same := congrArg (·[1]?) virtual
    simp only [List.getElem?_map, there, Option.map_some] at same
    obtain ⟨arg, here, marked⟩ := Option.map_eq_some_iff.mp same.symm
    exact marked ▸ vetted.members dot typed arg here
  · rintro reading typed source rest rfl
    cases args with
    | nil => cases follows.bares
    | cons source' rest' =>
        obtain ⟨address, known, wide⟩ := vetted.reads reading typed source' rest' rfl
        exact ⟨address, follows.typed 0 source' source rfl rfl _ known, wide⟩
  · intro reading typed length there
    have same := congrArg (·[1]?) follows.bares
    simp only [List.getElem?_map, there, Option.map_some] at same
    obtain ⟨arg, here, bare⟩ := Option.map_eq_some_iff.mp same
    exact num?_of_bare bare ▸ vetted.lengths reading typed arg here

end Marking

end Node

end TraceProbe
