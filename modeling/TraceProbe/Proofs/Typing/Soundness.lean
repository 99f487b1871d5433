import TraceProbe.Proofs.Typing.Visits

/-!
# Soundness of inference

A pass visits every node, and once no node is left without a type each has the
one that its rule gives it, but for two kinds of nodes that no pass checks: a
target that is no element of a map, typed by its assignment before the
collection was known, and a collection that the key of its own subscript gives
a type after it was visited.
-/

namespace TraceProbe

namespace Registry

/-- Registries as they come about, where no type of the host has the name of an
anonymous struct. -/
inductive Built : Registry → Prop
  | new : Built .new
  | add {registry : Registry} {type : Ty} : Built registry →
      (∀ number : Nat, type.registeredName ≠ s!":anon_{number}") → Built (registry.add type).2
  | anonymousStruct {registry : Registry} (members : List Ty) :
      Built registry → Built (registry.anonymousStruct members).2

theorem Built.honest {registry : Registry} (built : registry.Built) : registry.Honest := by
  induction built with
  | new => exact honest_new
  | add _ other ih => exact ih.add other
  | anonymousStruct members _ ih => exact (ih.anonymousStruct members).1

/-- A record of members that are named by their position. -/
def Literal (members : List Ty) (type : Ty) : Prop :=
  ∃ name, type = .record ⟨name, positionalFields members, false, false⟩

theorem gives_literal : Gives Honest Literal := by
  intro _ members honest
  exact honest.anonymousStruct members

/-- Without a look at the registry nothing is known about struct literals. -/
theorem gives_anything : Gives (fun _ => True) fun _ _ => True := by
  intro _ _ _
  exact ⟨trivial, trivial⟩

end Registry

namespace Node

variable {options : Options} {holds : Registry → Prop} {literal : List Ty → Ty → Prop}
  {role : Role} {roles : Nat → Role} {scope middle finish : Scope}

/-- What visits of several nodes leave behind, each in its role. -/
structure VisitAll (holds : Registry → Prop) (literal : List Ty → Ty → Prop) (roles : Nat → Role)
    (nodes : List Node) (scope : Scope) (trees : List Node) (finish : Scope) : Prop where
  persists : Persists nodes trees
  before : scope.symbols.Before finish.symbols
  types : holds finish.types
  settled : ∀ (index : Nat) (tree : Node), trees[index]? = some tree →
    Everywhere (Settled literal finish.symbols) (roles index) tree
  quiet : ∀ name, (∀ (index : Nat) (node : Node), nodes[index]? = some node →
    ¬ node.Assigns name ∧ (roles index = .target → node.mapName? ≠ some name)) →
      finish.symbols.typeOf? name = scope.symbols.typeOf? name

/-- A node may be visited: it is settled, and only elements are assigned to. -/
structure Ready (literal : List Ty → Ty → Prop) (symbols : Symbols) (role : Role) (node : Node) :
    Prop where
  settled : Everywhere (Settled literal symbols) role node
  targets : role = .target → node.applies "[]" = true

/-- Every visit of the node that ends well leaves it settled. -/
def Visits (options : Options) (holds : Registry → Prop) (literal : List Ty → Ty → Prop)
    (node : Node) : Prop :=
  ∀ (role : Role) (scope : Scope) (tree : Node) (finish : Scope),
    Ready literal scope.symbols role node → holds scope.types →
      infer options node scope = ⟨tree, finish, .ok ()⟩ →
        Visit holds literal role node scope tree finish

theorem visitAll {nodes trees : List Node}
    (each : ∀ node ∈ nodes, Visits options holds literal node)
    (ready : ∀ (index : Nat) (node : Node), nodes[index]? = some node →
      Ready literal scope.symbols (roles index) node)
    (registry : holds scope.types)
    (found : inferAll options nodes scope = ⟨trees, finish, .ok ()⟩) :
    VisitAll holds literal roles nodes scope trees finish := by
  induction nodes generalizing scope trees roles with
  | nil =>
      cases found
      exact ⟨.refl [], .refl _, registry, fun _ _ place => (by cases place), fun _ _ => rfl⟩
  | cons node nodes ih =>
      obtain ⟨first, middle, others, head, tail, rfl⟩ := inferAll_cons_ok found
      have visit := each node List.mem_cons_self (roles 0) scope first middle (ready 0 node rfl)
        registry head
      have rest := @ih (fun index => roles (index + 1)) middle others
        (fun other member => each other (List.mem_cons_of_mem _ member))
        (fun index other place =>
          let ⟨settled, targets⟩ := ready (index + 1) other place
          ⟨settled.mono fun _ _ settled => settled.mono visit.before, targets⟩)
        visit.types tail
      refine ⟨⟨?_, ?_⟩, visit.before.trans rest.before, rest.types, ?_, ?_⟩
      · rw [List.map_cons, List.map_cons, visit.same, rest.persists.same]
      · intro index arg tree place place'
        cases index with
        | zero =>
            cases place
            cases place'
            exact visit.typed
        | succ index => exact rest.persists.typed index arg tree place place'
      · intro index tree place
        cases index with
        | zero =>
            cases place
            exact visit.settled.mono fun _ _ settled => settled.mono rest.before
        | succ index => exact rest.settled index tree place
      · intro name free
        have later := rest.quiet name fun index other place => free (index + 1) other place
        obtain ⟨here, targets⟩ := free 0 node rfl
        rw [later, visit.quiet name here targets]

section Apply

variable {operator : String} {args trees : List Node} {info : Info} {tree : Node}

theorem VisitAll.apply
    (inner : VisitAll holds literal (Role.of operator args) args scope trees middle)
    (step : Visit holds literal role (Node.apply operator trees info) middle tree finish) :
    Visit holds literal role (Node.apply operator args info) scope tree finish := by
  have same : (Node.apply operator trees info).untyped =
      (Node.apply operator args info).untyped := by
    rw [untyped_apply, untyped_apply, inner.persists.same]
  have bare := bare_of_untyped same
  refine ⟨step.same.trans same, step.typed, inner.before.trans step.before,
    step.types, step.settled, ?_⟩
  intro name free targets
  rw [step.quiet name (fun assigns => free (assigns.of_bare bare))
    fun target => mapName?_of_bare bare ▸ targets target]
  refine inner.quiet name ?_
  intro index arg place
  have member := List.mem_of_getElem? place
  refine ⟨fun assigns => free (assigns.inner member), fun target named => free ?_⟩
  unfold Role.of at target
  split at target
  · cases target
  · rename_i first
    split at target
    · rename_i assign
      obtain rfl : index = 0 := by omega
      refine ⟨_, .root, by simp [applies, operator?, assign], ?_⟩
      cases args with
      | nil => cases place
      | cons first others =>
          cases place
          exact named
    · split at target <;> cases target

/-- An identifier without a type is a symbol without a type, unless the key that
is visited next assigns to it. -/
theorem waiting_of_inferAll {collection key collection' key' : Node}
    {name : String} {mapInfo : Info}
    {role : Role} (collectionVisits : Visits options holds literal collection)
    (keyVisits : Visits options holds literal key) (registry : holds scope.types)
    (collectionReady : Ready literal scope.symbols role collection)
    (keyReady : ∀ symbols, scope.symbols.Before symbols → Ready literal symbols .value key)
    (found : inferAll options [collection, key] scope = ⟨[collection', key'], middle, .ok ()⟩)
    (same : collection' = ident name mapInfo) (free : mapInfo.type = none) :
    (∃ symbol, middle.symbols.get? name = some symbol ∧ symbol.type = none) ∨
      key'.Assigns name := by
  subst same
  obtain ⟨_, between, _, first, rest, same⟩ := inferAll_cons_ok found
  obtain ⟨rfl, rfl⟩ := List.cons.inj same
  obtain ⟨_, _, _, second, none, same⟩ := inferAll_cons_ok rest
  cases none
  obtain ⟨rfl, -⟩ := List.cons.inj same
  have visit := collectionVisits _ scope _ between collectionReady registry first
  obtain ⟨info, rfl⟩ : ∃ info, collection = ident name info := by
    have named := ident?_of_bare (bare_of_untyped visit.same)
    cases collection with
    | ident name' info =>
        cases named
        exact ⟨info, rfl⟩
    | apply _ _ _ | str _ _ | num _ _ _ => cases named
  have resolved : ∃ symbol, between.symbols.get? name = some symbol ∧
      symbol.type = Option.none := by
    have known := Symbols.get?_resolve scope.symbols name
    cases typed : info.type with
    | none =>
        rw [infer_ident typed] at first
        cases first
        exact ⟨_, known, free⟩
    | some type =>
        have kept := visit.typed type typed
        cases kept.symm.trans free
  obtain ⟨symbol, known, untyped⟩ := resolved
  have keyVisit := keyVisits .value between key' middle (keyReady between.symbols visit.before)
    visit.types second
  by_cases assigns : key.Assigns name
  · exact .inr (assigns.of_bare (bare_of_untyped keyVisit.same).symm)
  · obtain ⟨later, found, -, -⟩ := keyVisit.before name symbol known
    have quiet := keyVisit.quiet name assigns fun target => by cases target
    rw [Symbols.typeOf?, Symbols.typeOf?, known, found] at quiet
    exact .inl ⟨later, found, quiet.trans untyped⟩

/-- What the operators do, once their arguments are visited. -/
theorem visit_inferApplication (gives : Registry.Gives holds literal) (shape : Shape operator args)
    (inner : ArgsSettled literal scope.symbols operator args)
    (known : ∀ type, info.type = some type → Rule literal operator args type ∨
      role = .target)
    (targets : role = .target → operator = "[]") (registry : holds scope.types)
    (waiting : ∀ collection key name mapInfo, operator = "[]" → args = [collection, key] →
      collection = ident name mapInfo → mapInfo.type = none →
        (∃ symbol, scope.symbols.get? name = some symbol ∧ symbol.type = none) ∨ key.Assigns name)
    (found : inferApplication options (Node.apply operator args info) scope =
      ⟨tree, finish, .ok ()⟩) :
    Visit holds literal role (Node.apply operator args info) scope tree finish := by
  have other (different : operator ≠ "[]") (type : Ty) (typed : info.type = some type) :
      Rule literal operator args type :=
    (known type typed).resolve_right fun target => different (targets target)
  cases shape with
  | dot _ => exact visit_dot registry inner (other (by decide)) found
  | deref pointer => exact visit_deref registry inner (other (by decide)) found
  | structLiteral _ => exact visit_structLiteral registry gives inner (other (by decide)) found
  | subscript collection key =>
      exact visit_subscript registry inner known (waiting collection key · · rfl rfl) found
  | assign value elements => exact visit_assign registry elements inner (other (by decide)) found
  | delete _ =>
      have visit := @visit_delete holds literal role info scope registry _ inner (other (by decide))
      cases found
      exact visit
  | strcmp left right => exact visit_strcmp registry inner (other (by decide)) found
  | mem source _ =>
      exact visit_read registry inner (by decide) (fun count _ => .mem count)
        (other (by decide)) found
  | str source _ =>
      exact visit_read registry inner (by decide) (fun count _ => .str count)
        (other (by decide)) found

end Apply

/-- Leaves have types of their own, and identifiers those of their symbols. -/
theorem visit_leaf {node tree : Node} (leaf : node.operator? = none)
    (settled : Everywhere (Settled literal scope.symbols) role node) (registry : holds scope.types)
    (found : infer options node scope = ⟨tree, finish, .ok ()⟩) :
    Visit holds literal role node scope tree finish := by
  cases typed : node.type? with
  | some type =>
      have same : infer options node scope = ⟨node, scope, .ok ()⟩ := by
        cases node with
        | apply _ _ _ => cases leaf
        | ident name info =>
            rw [infer, if_pos (by rw [show info.type = some type from typed]; rfl)]
        | str value info => rw [infer, fillType_of_type? typed]
        | num value unsigned info => rw [infer, fillType_of_type? typed]
      rw [same] at found
      cases found
      exact ⟨rfl, fun _ => id, .refl _, registry, settled, fun _ _ _ => rfl⟩
  | none =>
      have keeps {tree : Node} (type : Ty) (same : node.type? = some type) :
          tree.type? = some type := by
        cases typed.symm.trans same
      cases node with
      | apply _ _ _ => cases leaf
      | ident name info =>
          obtain ⟨before, type, others⟩ := Symbols.resolve_spec scope.symbols name
          rw [infer_ident (show info.type = none from typed)] at found
          cases found
          refine ⟨rfl, keeps, before, registry, .leaf rfl fun known same => .inl ?_,
            fun other _ _ => others other⟩
          rw [others name, ← type]
          exact same
      | str value info =>
          rw [infer, fillType_of_free typed] at found
          cases found
          refine ⟨rfl, keeps, .refl _, registry, .leaf rfl ?_, fun _ _ _ => rfl⟩
          intro known same
          cases same
          rfl
      | num value unsigned info =>
          rw [infer, fillType_of_free typed] at found
          cases found
          refine ⟨rfl, keeps, .refl _, registry, .leaf rfl ?_, fun _ _ _ => rfl⟩
          intro known same
          cases same
          rfl

/-- Every node is visited after its arguments. -/
theorem visits (gives : Registry.Gives holds literal) {node : Node} (shaped : node.Shaped) :
    Visits options holds literal node := by
  induction node using induct with
  | leaf node leaf =>
      intro role scope tree finish ready registry found
      exact visit_leaf leaf ready.settled registry found
  | apply operator args info ih =>
      intro role scope tree finish ready registry found
      obtain ⟨trees, middle, first, second⟩ := infer_apply_ok found
      have each (arg : Node) (member : arg ∈ args) : Visits options holds literal arg :=
        ih arg member (shaped.arg member)
      have shape := shaped operator args info .root
      have argReady (index : Nat) (arg : Node) (place : args[index]? = some arg) :
          Ready literal scope.symbols (Role.of operator args index) arg := by
        exact ⟨ready.settled.arg place, shape.target_applies place⟩
      have inner := visitAll each argReady registry first
      have trees' := shape.of_bares inner.persists.bares
      refine inner.apply ?_
      refine visit_inferApplication gives trees' ?_ ?_ ?_ inner.types ?_ second
      · intro index arg place
        rw [← Role.of_bares inner.persists.bares]
        exact inner.settled index arg place
      · intro type typed
        exact (ready.settled.here.1 type typed).imp (·.follows inner.persists.follows) (·.1)
      · intro target
        simpa [applies, operator?] using ready.targets target
      · intro collection key name mapInfo subscript two same free
        obtain ⟨collection, key, rfl⟩ := shape.subscript_args subscript
        subst subscript two
        refine waiting_of_inferAll (each collection List.mem_cons_self)
          (each key (List.mem_cons_of_mem _ List.mem_cons_self)) registry (argReady 0 _ rfl) ?_
          first same free
        intro symbols before
        exact ⟨(argReady 1 key rfl).settled.mono fun _ _ settled => settled.mono before,
          fun target => by cases target⟩

variable {prepared trees : List Node} {count : Nat}

theorem VisitAll.trans {nodes between : List Node}
    (first : VisitAll holds literal roles nodes scope between middle)
    (second : VisitAll holds literal roles between middle trees finish) :
    VisitAll holds literal roles nodes scope trees finish := by
  refine ⟨⟨second.persists.same.trans first.persists.same, ?_⟩, first.before.trans second.before,
    second.types, second.settled, ?_⟩
  · intro index arg tree place place' type typed
    obtain ⟨original, there, -⟩ := second.persists.original place'
    exact second.persists.typed index original tree there place' type
      (first.persists.typed index arg original place there type typed)
  · intro name free
    rw [second.quiet name fun index node place => ?_, first.quiet name free]
    obtain ⟨original, there, same⟩ := first.persists.original place
    have bare := bare_of_untyped same
    obtain ⟨none, targets⟩ := free index original there
    exact ⟨fun assigns => none (assigns.of_bare bare),
      fun target => mapName?_of_bare bare ▸ targets target⟩

/-- Any number of passes is a visit of all statements. -/
theorem visitAll_of_passes (gives : Registry.Gives holds literal)
    (shaped : ∀ node ∈ prepared, node.Shaped)
    (settled : ∀ node ∈ prepared, Everywhere (Settled literal scope.symbols) .value node)
    (registry : holds scope.types)
    (passed : passes options count prepared scope = ⟨trees, finish, .ok ()⟩) :
    VisitAll holds literal (fun _ => .value) prepared scope trees finish := by
  induction count generalizing prepared scope with
  | zero =>
      cases passed
      exact ⟨.refl _, .refl _, registry, fun index tree place =>
        settled tree (List.mem_of_getElem? place), fun _ _ => rfl⟩
  | succ count ih =>
      obtain ⟨between, middle, first, rest⟩ := passes_succ_ok passed
      have visit := @visitAll options holds literal (fun _ => .value) scope middle prepared between
        (fun node member => visits gives (shaped node member))
        (fun index node place => ⟨settled node (List.mem_of_getElem? place), fun target => by
          cases target⟩) registry first
      refine visit.trans (ih ?_ ?_ visit.types rest)
      · intro tree member
        obtain ⟨index, place⟩ := List.mem_iff_getElem?.mp member
        obtain ⟨original, there, same⟩ := visit.persists.original place
        exact (shaped original (List.mem_of_getElem? there)).of_bare (bare_of_untyped same)
      · intro tree member
        obtain ⟨index, place⟩ := List.mem_iff_getElem?.mp member
        exact visit.settled index tree place

/-- Passes over prepared statements. -/
theorem visitAll_of_prepared {statements : List Node} (gives : Registry.Gives holds literal)
    (registry : holds scope.types) (fresh : ∀ statement ∈ statements, statement.Fresh)
    (prepares : statements.mapM prepare = .ok prepared)
    (passed : passes options count prepared scope = ⟨trees, finish, .ok ()⟩) :
    VisitAll holds literal (fun _ => .value) prepared scope trees finish := by
  have all := prepare_all_ok prepares fresh
  exact visitAll_of_passes gives (fun node member => (all node member).2)
    (fun node member => settled_of_fresh (all node member).1 (all node member).2) registry passed

/-- Once every node is typed, each has the type that its symbol or its rule
gives it, but for the two kinds that no pass checks.  What a struct literal is
depends on the registry. -/
theorem inference_sound {statements : List Node}
    (fresh : ∀ statement ∈ statements, statement.Fresh)
    (prepares : statements.mapM prepare = .ok prepared)
    (passed : passes options count prepared scope = ⟨trees, finish, .ok ()⟩)
    (complete : ∀ tree ∈ trees, tree.Complete) :
    ∀ tree ∈ trees, Everywhere (Sound (fun members type => scope.types.Built →
      Registry.Literal members type) finish.symbols) .value tree := by
  intro tree member
  have gives : Registry.Gives (fun registry => scope.types.Built → registry.Honest)
      fun members type => scope.types.Built → Registry.Literal members type :=
    fun registry members honest =>
      ⟨fun built => ((honest built).anonymousStruct members).1,
        fun built => ((honest built).anonymousStruct members).2⟩
  have visit := visitAll_of_prepared gives (fun built => built.honest) fresh prepares passed
  obtain ⟨index, place⟩ := List.mem_iff_getElem?.mp member
  exact everywhere_sound (visit.settled index tree place) (complete tree member)

/-- `m[:struct(1, strcmp(str(p), "ab"))] = mem(p, 8)`, for a context variable `p`. -/
def structKey : List Node :=
  [apply "="
    [apply "[]" [ident "m" {}, apply ":struct" [num 1 false {},
        apply "strcmp" [apply "str" [ident "p" {}] {}, str "ab" {}] {}] {}] {},
      apply "mem" [ident "p" {}, num 8 false {}] {}] {}]

/-- `m[2] = 7` and `m[1][2] = 5`. -/
def numberElement : List Node :=
  [apply "=" [apply "[]" [ident "m" {}, num 2 false {}] {}, num 7 false {}] {},
    apply "=" [apply "[]" [apply "[]" [ident "m" {}, num 1 false {}] {}, num 2 false {}] {},
      num 5 false {}] {}]

/-- One context variable, an address. -/
def pointerScope : Scope :=
  ⟨(Symbols.declareContext {} "p" .u64 0).2, .new⟩

theorem inference_sound_structKey :
    ∃ tree ∈ (passes {} 2 structKey pointerScope).tree,
      Everywhere (Sound (fun members type => pointerScope.types.Built →
        Registry.Literal members type) (passes {} 2 structKey pointerScope).scope.symbols)
          .value tree := by
  have fresh : ∀ statement ∈ structKey, statement.Fresh := by
    simp [structKey, fresh_apply_iff, fresh_ident_iff, fresh_str_iff, fresh_num_iff]
  have prepares : structKey.mapM prepare = .ok structKey := rfl
  have passed : passes {} 2 structKey pointerScope =
      ⟨(passes {} 2 structKey pointerScope).tree, (passes {} 2 structKey pointerScope).scope,
        .ok ()⟩ := rfl
  have complete : ∀ tree ∈ (passes {} 2 structKey pointerScope).tree, tree.Complete := by
    intro tree member
    exact complete_of_firstUntyped? (firstUntyped?_of_mem (by rfl) member)
  obtain ⟨tree, member⟩ : ∃ tree, tree ∈ (passes {} 2 structKey pointerScope).tree :=
    ⟨_, List.mem_cons_self⟩
  exact ⟨tree, member, inference_sound fresh prepares passed complete tree member⟩

/-- In the first pass the assignment gives the target the type of the number,
and only then the type of `m[1]` is found, which is a number too. -/
theorem numberElement_disobeys :
    (∀ statement ∈ numberElement, statement.Fresh) ∧
      numberElement.mapM prepare = .ok numberElement ∧
      (passes {} 2 numberElement ⟨{}, .new⟩).outcome = .ok () ∧
      (∀ tree ∈ (passes {} 2 numberElement ⟨{}, .new⟩).tree, tree.Complete) ∧
      ∃ tree ∈ (passes {} 2 numberElement ⟨{}, .new⟩).tree, ∃ part, PartOf part tree ∧
        ¬ part.Obeys Registry.Literal (passes {} 2 numberElement ⟨{}, .new⟩).scope.symbols := by
  refine ⟨?fresh, rfl, rfl, fun tree member =>
    complete_of_firstUntyped? (firstUntyped?_of_mem (by rfl) member), ?part⟩
  case fresh =>
    simp [numberElement, fresh_apply_iff, fresh_ident_iff, fresh_num_iff]
  case part =>
    let inner : Node := apply "[]" [ident "m" { type := some (.map .s64 .s64 .hash) },
      num 1 false { type := some .s64 }] { type := some .s64 }
    let target : Node := apply "[]" [inner, num 2 false { type := some .s64 }]
      { type := some .s64 }
    have second : (passes {} 2 numberElement ⟨{}, .new⟩).tree[1]? =
        some (apply "=" [target, num 5 false { type := some .s64 }] { type := some .void }) := rfl
    refine ⟨_, List.mem_of_getElem? second, target, .inner List.mem_cons_self .root, ?_⟩
    rintro ⟨type, typed, rule⟩
    obtain ⟨_, _, collected, _, obeys⟩ := rule.subscript rfl rfl
    cases collected
    exact obeys

end Node

end TraceProbe
