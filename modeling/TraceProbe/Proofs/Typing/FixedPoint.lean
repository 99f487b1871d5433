import TraceProbe.Proofs.Typing.Progress

/-!
# The fixed point of inference

A pass keeps every type that is set, also when it fails.  A pass that succeeds
and types no further node is a fixed point: the next one changes nothing.  So
inference stops on its own after at most as many passes as there are nodes, and
the limit of passes matters only below that.
-/

namespace TraceProbe

/-- What is known of a name stays just as it is. -/
def Symbols.Held (symbols later : Symbols) : Prop :=
  ∀ name symbol, symbols.get? name = some symbol → later.get? name = some symbol

theorem Symbols.Held.trans {symbols later last : Symbols} (first : symbols.Held later)
    (second : later.Held last) : symbols.Held last := by
  intro name symbol known
  exact second name symbol (first name symbol known)

theorem Symbols.Held.resolve (symbols : Symbols) (name : String) :
    symbols.Held (symbols.resolve name).2 := by
  unfold Symbols.resolve
  split
  · intro _ _
    exact id
  · intro _ _ known
    exact Symbols.get?_push known _

namespace Node

/-- A pass over a tree, or over several, that changes neither them nor what is
known of a symbol, and that a further pass only repeats. -/
structure Idle {α : Type} (pass : Scope → Typed α) (tree : α) (scope : Scope)
    (result : Typed α) : Prop where
  tree_eq : result.tree = tree
  types_eq : result.scope.types = scope.types
  held : scope.symbols.Held result.scope.symbols
  again : ∀ later : Scope, result.scope.symbols.Held later.symbols →
    pass later = ⟨tree, later, .ok ()⟩

/-- What a visit of a tree does, however it ends. -/
structure Visited (options : Options) (node : Node) (scope : Scope) (result : Typed Node) :
    Prop where
  kept : Kept node result.tree
  later : scope.symbols.Later result.scope.symbols
  idle : result.outcome = .ok () → result.tree.typedCount = node.typedCount →
    Idle (infer options node) node scope result

/-- The same for several trees. -/
structure VisitedAll (options : Options) (nodes : List Node) (scope : Scope)
    (result : Typed (List Node)) : Prop where
  kept : KeptAll nodes result.tree
  later : scope.symbols.Later result.scope.symbols
  idle : result.outcome = .ok () → typedCounts result.tree = typedCounts nodes →
    Idle (inferAll options nodes) nodes scope result

variable {options : Options} {node : Node} {nodes statements : List Node} {scope finish : Scope}

theorem Visited.before {result : Typed Node} (visited : Visited options node scope result) :
    scope.symbols.Before result.scope.symbols :=
  visited.later.before

theorem VisitedAll.before {result : Typed (List Node)}
    (visited : VisitedAll options nodes scope result) :
    scope.symbols.Before result.scope.symbols :=
  visited.later.before

section Visits

theorem visitedAll (each : ∀ node ∈ nodes, ∀ scope,
      Visited options node scope (infer options node scope)) (scope : Scope) :
    VisitedAll options nodes scope (inferAll options nodes scope) := by
  -- If none of the trees has got a type, each visit was idle.
  induction nodes generalizing scope with
  | nil => exact ⟨.refl [], .refl _, fun _ _ => ⟨rfl, rfl, fun _ _ => id, fun _ _ => rfl⟩⟩
  | cons node nodes ih =>
      have first := each node List.mem_cons_self scope
      have rest := ih fun other member => each other (List.mem_cons_of_mem _ member)
      rw [inferAll]
      generalize infer options node scope = visit at first ⊢
      obtain ⟨tree, middle, outcome⟩ := visit
      cases outcome with
      | error fault =>
          exact ⟨.cons first.kept (.refl nodes), first.later, fun ended => (by cases ended)⟩
      | ok _ =>
          have others := rest middle
          dsimp only
          generalize inferAll options nodes middle = visits at others ⊢
          obtain ⟨trees, finish, outcome⟩ := visits
          refine ⟨.cons first.kept others.kept, first.later.trans others.later, ?_⟩
          intro ended count
          have least : node.typedCount ≤ tree.typedCount := first.kept.typedCount_le
          have least' : typedCounts nodes ≤ typedCounts trees := others.kept.typedCounts_le
          simp only [typedCounts] at count
          have here := first.idle rfl (show tree.typedCount = node.typedCount by omega)
          have there := others.idle ended (show typedCounts trees = typedCounts nodes by omega)
          obtain rfl : tree = node := here.tree_eq
          obtain rfl : trees = nodes := there.tree_eq
          refine ⟨rfl, there.types_eq.trans here.types_eq, here.held.trans there.held, ?_⟩
          intro later known
          have again := here.again later (there.held.trans known)
          simp only [inferAll, again, there.again later known]

theorem visited_ident (options : Options) (name : String) (info : Info) (scope : Scope) :
    Visited options (ident name info) scope (infer options (ident name info) scope) := by
  cases typed : info.type with
  | some type =>
      have same (scope : Scope) : infer options (ident name info) scope =
          ⟨ident name info, scope, .ok ()⟩ := by
        rw [infer, if_pos (by rw [typed]; rfl)]
      rw [same]
      exact ⟨.refl _, .refl _, fun _ _ => ⟨rfl, rfl, fun _ _ => id, fun later _ => same later⟩⟩
  | none =>
      have resolved (scope : Scope) : infer options (ident name info) scope =
          ⟨ident name { info with type := (scope.symbols.resolve name).1.type },
            { scope with symbols := (scope.symbols.resolve name).2 }, .ok ()⟩ :=
        infer_ident typed
      rw [resolved]
      refine ⟨.ident ⟨rfl, rfl, fun type known => (by cases typed.symm.trans known), id⟩,
        ⟨(Symbols.resolve_spec scope.symbols name).1, fun numbered => numbered.resolve name⟩, ?_⟩
      intro _ count
      -- the symbol has no type, or else the node would have got it
      have free : (scope.symbols.resolve name).1.type = none := by
        cases found : (scope.symbols.resolve name).1.type with
        | none => rfl
        | some type => simp [typedCount, typed, found] at count
      have unchanged : ident name { info with type := (scope.symbols.resolve name).1.type } =
          ident name info := by
        rw [free, ← typed]
      refine ⟨unchanged, rfl, .resolve scope.symbols name, ?_⟩
      intro later known
      have there := known name _ (Symbols.get?_resolve scope.symbols name)
      rw [resolved, Symbols.resolve_of_get? there]
      exact congrArg (Typed.mk · later (.ok ())) unchanged

theorem visited_literal {type : Ty}
    (filled : ∀ scope, infer options node scope = ⟨node.fillType type, scope, .ok ()⟩)
    (scope : Scope) :
    Visited options node scope (infer options node scope) := by
  rw [filled]
  refine ⟨.fillType node type, .refl _, ?_⟩
  intro _ count
  have same : node.fillType type = node := by
    cases typed : node.type? with
    | none =>
        rw [fillType_of_free typed, typedCount_withType typed] at count
        exact absurd count (Nat.succ_ne_self _)
    | some known => exact fillType_of_type? typed type
  exact ⟨same, rfl, fun _ _ => id, fun later _ => by rw [filled, same]⟩

theorem visited (options : Options) (node : Node) (scope : Scope) :
    Visited options node scope (infer options node scope) := by
  -- The arguments are visited before the operator.
  induction node using induct generalizing scope with
  | leaf node leaf =>
      cases node with
      | apply _ _ _ => cases leaf
      | ident name info => exact visited_ident options name info scope
      | str value info => exact visited_literal (fun _ => rfl) scope
      | num value unsigned info => exact visited_literal (fun _ => rfl) scope
  | apply operator args info ih =>
      have inner := visitedAll ih scope
      rw [infer]
      generalize inferAll options args scope = visits at inner ⊢
      obtain ⟨trees, middle, outcome⟩ := visits
      have kept : KeptAll args trees := inner.kept
      have outer : Kept (apply operator args info) (apply operator trees info) := .withArgs kept
      cases outcome with
      | error fault => exact ⟨outer, inner.later, fun ended => (by cases ended)⟩
      | ok _ =>
          dsimp only
          have least : typedCounts args ≤ typedCounts trees := kept.typedCounts_le
          cases step_application options (apply operator trees info) with
          | fails kept' same =>
              rw [same]
              exact ⟨outer.trans kept', inner.later, fun ended => (by cases ended)⟩
          | advances each =>
              obtain ⟨tree, later, same, kept', more, before⟩ := each middle
              rw [same]
              refine ⟨outer.trans kept', inner.later.trans before, ?_⟩
              intro _ count
              simp only [typedCount] at count more
              omega
          | idle same =>
              rw [same]
              refine ⟨outer, inner.later, ?_⟩
              intro _ count
              simp only [typedCount, Nat.add_left_cancel_iff] at count
              have idle := inner.idle rfl count
              obtain rfl : trees = args := idle.tree_eq
              refine ⟨rfl, idle.types_eq, idle.held, ?_⟩
              intro later known
              simp only [infer, idle.again later known, same]

theorem visitedAll_statements (options : Options) (statements : List Node) (scope : Scope) :
    VisitedAll options statements scope (inferAll options statements scope) := by
  apply visitedAll
  intro node _ scope
  exact visited options node scope

/-- Inference adds findings to the statements and changes nothing else. -/
theorem kept_inferPasses (options : Options) (limit : Nat)
    (statements : List Node) (scope : Scope) :
    KeptAll statements (inferPasses options limit statements scope).tree := by
  induction limit generalizing statements scope with
  | zero => exact .refl statements
  | succ limit ih =>
      have first := (visitedAll_statements options statements scope).kept
      rw [inferPasses]
      generalize inferAll options statements scope = pass at first ⊢
      obtain ⟨trees, middle, outcome⟩ := pass
      cases outcome with
      | error fault => exact first
      | ok _ =>
          dsimp only
          split
          · exact first
          · split
            · exact first
            · exact first.trans (ih trees middle)

theorem later_of_passes {count : Nat} {trees : List Node}
    (passed : passes options count statements scope = ⟨trees, finish, .ok ()⟩) :
    scope.symbols.Later finish.symbols := by
  induction count generalizing statements scope with
  | zero =>
      cases passed
      exact .refl _
  | succ count ih =>
      obtain ⟨between, middle, pass, rest⟩ := passes_succ_ok passed
      have first := (visitedAll_statements options statements scope).later
      rw [pass] at first
      exact first.trans (ih rest)

/-- A pass that succeeds and types nothing is repeated by the next one. -/
theorem inferAll_again (ended : (inferAll options statements scope).outcome = .ok ())
    (count : typedCounts (inferAll options statements scope).tree = typedCounts statements) :
    inferAll options (inferAll options statements scope).tree
        (inferAll options statements scope).scope =
      inferAll options statements scope := by
  have visited := visitedAll_statements options statements scope
  generalize inferAll options statements scope = pass at visited ended count ⊢
  obtain ⟨trees, finish, outcome⟩ := pass
  have idle := visited.idle ended count
  obtain rfl : trees = statements := idle.tree_eq
  obtain rfl : outcome = .ok () := ended
  exact idle.again finish fun _ _ => id

end Visits

section Limits

/-- Inference as it ends without a limit of passes. -/
inductive Ends (options : Options) : List Node → Scope → Typed (List Node) → Prop
  | failed {statements trees : List Node} {scope finish : Scope} {fault : Fault} :
      inferAll options statements scope = ⟨trees, finish, .error fault⟩ →
        Ends options statements scope ⟨trees, finish, .error fault⟩
  | typed {statements trees : List Node} {scope finish : Scope} :
      inferAll options statements scope = ⟨trees, finish, .ok ()⟩ → firstUntypedOf? trees = none →
        Ends options statements scope ⟨trees, finish, .ok ()⟩
  | stuck {statements trees : List Node} {scope finish : Scope} :
      inferAll options statements scope = ⟨trees, finish, .ok ()⟩ →
        (firstUntypedOf? trees).isSome = true → typedCounts trees = typedCounts statements →
        Ends options statements scope ⟨trees, finish, .error (unresolved trees)⟩
  | further {statements trees : List Node} {scope middle : Scope} {result : Typed (List Node)} :
      inferAll options statements scope = ⟨trees, middle, .ok ()⟩ →
        (firstUntypedOf? trees).isSome = true → typedCounts trees ≠ typedCounts statements →
        Ends options trees middle result → Ends options statements scope result

theorem inferAll_withPasses (limit : Nat) (each : ∀ node ∈ nodes,
      infer { options with maxPasses := limit } node = infer options node) :
    inferAll { options with maxPasses := limit } nodes = inferAll options nodes := by
  induction nodes with
  | nil => rfl
  | cons node nodes ih =>
      funext scope
      rw [inferAll, inferAll, each node List.mem_cons_self,
        ih fun other member => each other (List.mem_cons_of_mem _ member)]

theorem infer_withPasses (options : Options) (limit : Nat) (node : Node) :
    infer { options with maxPasses := limit } node = infer options node := by
  induction node using induct with
  | leaf node leaf =>
      cases node with
      | apply _ _ _ => cases leaf
      | ident _ _ | str _ _ | num _ _ _ => rfl
  | apply operator args info ih =>
      funext scope
      rw [infer, infer, inferAll_withPasses limit ih]
      rfl

theorem inferTypes_withPasses (limit : Nat) :
    inferTypes { options with maxPasses := limit } statements scope =
      inferPasses options limit statements scope := by
  have passes (count : Nat) : inferPasses { options with maxPasses := limit }
      count statements scope =
      inferPasses options count statements scope := by
    induction count generalizing statements scope with
    | zero => rfl
    | succ count ih =>
        rw [inferPasses, inferPasses,
          inferAll_withPasses limit fun node _ => infer_withPasses options limit node]
        simp only [ih]
  exact passes limit

/-- With more passes than there are untyped nodes the limit is not reached. -/
theorem ends_of_limit {limit : Nat}
    (enough : nodeCounts statements < typedCounts statements + limit) :
    Ends options statements scope (inferPasses options limit statements scope) := by
  -- Induction on the limit: a pass that is not the last types a node.
  induction limit generalizing statements scope with
  | zero =>
      have least := typedCounts_le_nodeCounts statements
      omega
  | succ limit ih =>
      rw [inferPasses]
      have kept := (visitedAll_statements options statements scope).kept
      rcases pass : inferAll options statements scope with ⟨trees, middle, outcome⟩
      rw [pass] at kept
      cases outcome with
      | error fault => exact .failed pass
      | ok _ =>
          dsimp only
          cases free : firstUntypedOf? trees with
          | none => exact .typed pass free
          | some untyped =>
              have waiting : (firstUntypedOf? trees).isSome = true := by rw [free]; rfl
              by_cases same : typedCounts trees = typedCounts statements
              · simp only [Option.isNone_some, Bool.false_eq_true, if_false, same, if_true]
                exact .stuck pass waiting same
              · simp only [Option.isNone_some, Bool.false_eq_true, if_false, same]
                have count : nodeCounts trees = nodeCounts statements := kept.nodeCounts_eq
                have more : typedCounts statements ≤ typedCounts trees := kept.typedCounts_le
                exact .further pass waiting same (ih (by omega))

theorem Ends.unique {result other : Typed (List Node)} (ends : Ends options statements scope result)
    (ends' : Ends options statements scope other) : result = other := by
  induction ends with
  | failed pass =>
      cases ends' with
      | failed pass' => exact pass.symm.trans pass'
      | typed pass' _ | stuck pass' _ _ | further pass' _ _ _ => cases pass.symm.trans pass'
  | typed pass free =>
      cases ends' with
      | failed pass' => cases pass.symm.trans pass'
      | typed pass' _ => exact pass.symm.trans pass'
      | stuck pass' waiting _ | further pass' waiting _ _ =>
          cases pass.symm.trans pass'
          simp [free] at waiting
  | stuck pass waiting same =>
      cases ends' with
      | failed pass' => cases pass.symm.trans pass'
      | typed pass' free =>
          cases pass.symm.trans pass'
          simp [free] at waiting
      | stuck pass' _ _ =>
          cases pass.symm.trans pass'
          rfl
      | further pass' _ more _ =>
          cases pass.symm.trans pass'
          exact absurd same more
  | further pass waiting more _ ih =>
      cases ends' with
      | failed pass' => cases pass.symm.trans pass'
      | typed pass' free =>
          cases pass.symm.trans pass'
          simp [free] at waiting
      | stuck pass' _ same =>
          cases pass.symm.trans pass'
          exact absurd same more
      | further pass' _ _ rest =>
          cases pass.symm.trans pass'
          exact ih rest

theorem inferPasses_of_le {limit more : Nat} {trees : List Node}
    (found : inferPasses options limit statements scope = ⟨trees, finish, .ok ()⟩)
    (le : limit ≤ more) : inferPasses options more statements scope = ⟨trees, finish, .ok ()⟩ := by
  induction limit generalizing more statements scope with
  | zero => cases found
  | succ limit ih =>
      obtain ⟨more, rfl⟩ : ∃ rest, more = rest + 1 := ⟨more - 1, by omega⟩
      rw [inferPasses] at found ⊢
      generalize inferAll options statements scope = pass at found ⊢
      obtain ⟨between, middle, outcome⟩ := pass
      cases outcome with
      | error fault => cases found
      | ok _ =>
          dsimp only at found ⊢
          split at found
          · rename_i typed
            rw [if_pos typed]
            exact found
          · rename_i untyped
            rw [if_neg untyped]
            split at found
            · cases found
            · rename_i progress
              rw [if_neg progress]
              exact ih found (Nat.le_of_succ_le_succ le)

end Limits

/-- A pass keeps the types that are set; one that succeeds and types no node is
a fixed point; and inference ends by itself if more passes are allowed than
there are nodes, with one result for every such limit, and a success remains
the same under every greater limit. -/
theorem inference_converges (options : Options) (statements : List Node) (scope : Scope) :
    (KeptAll statements (inferAll options statements scope).tree ∧
        scope.symbols.Before (inferAll options statements scope).scope.symbols) ∧
      ((inferAll options statements scope).outcome = .ok () →
        typedCounts (inferAll options statements scope).tree = typedCounts statements →
          inferAll options (inferAll options statements scope).tree
              (inferAll options statements scope).scope =
            inferAll options statements scope) ∧
      (∃ result, Ends options statements scope result ∧
        ∀ limit, nodeCounts statements < limit →
          inferTypes { options with maxPasses := limit } statements scope = result) ∧
      ∀ limit more trees finish, limit ≤ more →
        inferTypes { options with maxPasses := limit } statements scope = ⟨trees, finish, .ok ()⟩ →
          inferTypes { options with maxPasses := more } statements scope =
            ⟨trees, finish, .ok ()⟩ := by
  have visited := visitedAll_statements options statements scope
  have ends (limit : Nat) (enough : nodeCounts statements < limit) :
      Ends options statements scope (inferPasses options limit statements scope) :=
    ends_of_limit (Nat.lt_of_lt_of_le enough (Nat.le_add_left _ _))
  refine ⟨⟨visited.kept, visited.before⟩, inferAll_again, ?_, ?_⟩
  · refine ⟨_, ends _ (Nat.lt_succ_self _), ?_⟩
    intro limit enough
    rw [inferTypes_withPasses]
    exact (ends limit enough).unique (ends _ (Nat.lt_succ_self _))
  · intro limit more trees finish le found
    rw [inferTypes_withPasses] at found ⊢
    exact inferPasses_of_le found le

end Node

end TraceProbe
