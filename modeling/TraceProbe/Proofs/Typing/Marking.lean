import TraceProbe.Proofs.Typing.Faultless
import TraceProbe.Proofs.Typing.Marks

/-!
# Marks of a visit

What visits of nodes leave behind beside types: every part is noted, nothing is
marked that is not folded, and the symbols of maps have types of maps.
-/

namespace TraceProbe.Node

variable {symbols : Symbols} {node tree : Node} {operator : String} {args trees marked : List Node}
  {info info' : Info} {type : Ty} {scope finish : Scope} {options : Options}

theorem literal_of_folded {operands folded : List Node}
    (found : foldLiterals operands = (folded, .ok ())) (index : Nat) (operand : Node)
    (here : operands[index]? = some operand) :
    folded[index]? = some operand ∨ operand.str?.isSome = true := by
  induction operands generalizing folded index with
  | nil => cases here
  | cons first operands ih =>
      unfold foldLiterals at found
      rcases rest : foldLiterals operands with ⟨others, outcome⟩
      simp only [rest] at found
      split at found
      · rename_i literal
        cases found
        cases index with
        | zero =>
            cases here
            exact .inr (by rw [literal]; rfl)
        | succ index => exact ih rest index here
      · split at found
        · cases found
          cases index with
          | zero =>
              cases here
              exact .inl rfl
          | succ index => exact ih rest index here
        · cases found
      · cases found

theorem checkAddress_ok {node source : Node} (found : node.checkAddress source = .ok ()) :
    ∃ address, source.type? = some address ∧ (Width.ofBytes? address.size).isSome = true := by
  obtain ⟨address, known, found⟩ := ok_of_bind found
  unfold knownType at known
  split at known
  · rename_i typed
    cases known
    split at found
    · rename_i wide
      exact ⟨_, typed, by rw [wide]; rfl⟩
    · cases found
  · cases known

theorem readLength_ok {node length : Node} {limit count : Nat}
    (found : node.readLength length limit = .ok count) : length.num?.isSome = true := by
  unfold readLength at found
  split at found
  · obtain ⟨_, -, found⟩ := ok_of_bind found
    cases found
  · rename_i number known
    split at found
    · cases found
    · split at found
      · cases found
      · cases found
        rw [known]
        rfl

/-- What a visit leaves behind. -/
structure Marks (node tree : Node) (finish : Scope) : Prop where
  noted : tree.AllNoted finish.symbols
  virtual : tree.isVirtual = node.isVirtual
  maps : finish.symbols.MapsTyped

section Rules

variable (inner : ∀ arg ∈ args, arg.AllNoted scope.symbols) (foldings : Foldings operator args)
  (maps : scope.symbols.MapsTyped)

include inner maps

/-- A step that changes no more than records of the node and its arguments. -/
theorem marks_of_marked {types : Registry} (marks : Marked args marked)
    (virtual : info'.isVirtual = info.isVirtual) (folded : Foldings operator marked)
    (vetted : Vetted operator marked info'.type) :
    Marks (apply operator args info) (apply operator marked info')
      { scope with types := types } := by
  refine ⟨?_, virtual, maps⟩
  exact allNoted_apply ⟨folded, vetted⟩ (allNoted_marked inner marks)

include foldings

theorem marks_same (vetted : Vetted operator args info.type) :
    Marks (apply operator args info) (apply operator args info) scope :=
  marks_of_marked inner maps (.refl args) rfl foldings vetted

theorem marks_typed {types : Registry} (free : info.type = none)
    (vetted : Vetted operator args (some type)) :
    Marks (apply operator args info) ((apply operator args info).fillType type)
      { scope with types := types } := by
  rw [fillType_apply free]
  exact marks_of_marked inner maps (.refl args) rfl foldings vetted

/-- A node that is no read and gets its type, unless it has one. -/
theorem marks_filled {types : Registry}
    (other : ¬ (operator = "." ∨ operator = "mem" ∨ operator = "str" ∨ operator = "strcmp"))
    (type : Ty) :
    Marks (apply operator args info) ((apply operator args info).fillType type)
      { scope with types := types } := by
  cases typed : info.type with
  | none => exact marks_typed inner foldings maps typed (vetted_of_other other)
  | some known =>
      rw [fillType_of_type? (show (apply operator args info).type? = some known from typed)]
      exact marks_of_marked inner maps (.refl args) rfl foldings (vetted_of_other other)

/-- A node that gets its type from a second argument, which is folded into it. -/
theorem marks_folded (free : info.type = none)
    (second : ∀ arg, args[1]? = some arg → Folded operator (firstType? args) arg 1)
    (vetted : Vetted operator (args.modify 1 asVirtual) (some type)) :
    Marks (apply operator args info)
      (((apply operator args info).modifyArgument 1 asVirtual).fillType type) scope := by
  have whole : ((apply operator args info).modifyArgument 1 asVirtual).fillType type =
      apply operator (args.modify 1 asVirtual) { info with type := some type } :=
    fillType_apply free
  rw [whole]
  exact marks_of_marked inner maps (marked_modify args 1) rfl (foldings.modify second) vetted

theorem marks_dot (dot : operator = ".") (vetted : Vetted operator args info.type)
    (found : Typed.ofRule (apply operator args info) scope (apply operator args info).typeDot =
      ⟨tree, finish, .ok ()⟩) : Marks (apply operator args info) tree finish := by
  obtain ⟨ruled, rfl⟩ := ofRule_eq_ok found
  obtain rfl | ⟨free, _, _, -, -, ruled⟩ := typeDot_ok ruled
  · exact marks_same inner foldings maps vetted
  · obtain ⟨_, type, -, -, rfl⟩ := typeMember_ok ruled
    have folded : Vetted operator (args.modify 1 asVirtual) (some type) := by
      subst dot
      refine ⟨?_, fun reads => absurd reads (by decide), fun reads => absurd reads (by decide),
        fun strcmp => absurd strcmp (by decide)⟩
      intro _ _ arg there
      rw [List.getElem?_modify_eq] at there
      obtain ⟨member, -, rfl⟩ := Option.map_eq_some_iff.mp there
      cases member <;> rfl
    exact marks_folded inner foldings maps free (fun _ _ => .member dot) folded

theorem marks_deref (deref : operator = "u*")
    (found : Typed.ofRule (apply operator args info) scope (apply operator args info).typeDeref =
      ⟨tree, finish, .ok ()⟩) : Marks (apply operator args info) tree finish := by
  obtain ⟨ruled, rfl⟩ := ofRule_eq_ok found
  have other : ¬ (operator = "." ∨ operator = "mem" ∨ operator = "str" ∨ operator = "strcmp") := by
    subst deref
    decide
  obtain rfl | ⟨-, _, target, -, -, rfl⟩ := typeDeref_ok ruled
  · exact marks_same inner foldings maps (vetted_of_other other)
  · exact marks_filled inner foldings maps other target

theorem marks_structLiteral (literal : operator = ":struct")
    (found : (apply operator args info).typeStructLiteral scope = ⟨tree, finish, .ok ()⟩) :
    Marks (apply operator args info) tree finish := by
  have other : ¬ (operator = "." ∨ operator = "mem" ∨ operator = "str" ∨ operator = "strcmp") := by
    subst literal
    decide
  unfold typeStructLiteral at found
  split at found
  · simp only [Typed.fill, recordType_apply] at found
    cases found
    exact marks_filled inner foldings maps other _
  · cases found
    exact marks_same inner foldings maps (vetted_of_other other)

theorem marks_strcmp (strcmp : operator = "strcmp") (vetted : Vetted operator args info.type)
    (found : (apply operator args info).typeStrcmp scope = ⟨tree, finish, .ok ()⟩) :
    Marks (apply operator args info) tree finish := by
  obtain ⟨rfl, rfl⟩ | ⟨free, -, folded, folding, few, filled⟩ := typeStrcmp_ok found
  · exact marks_same inner foldings maps vetted
  · have free : info.type = none := free
    obtain ⟨marks, -⟩ := foldLiterals_ok folding
    have compared : Vetted operator folded (some .int) :=
      ⟨fun dot => absurd (strcmp ▸ dot) (by decide),
        fun reads => absurd (strcmp ▸ reads) (by decide), fun reads =>
          absurd (strcmp ▸ reads) (by decide), fun _ _ => few⟩
    have grown : Foldings operator folded := foldings.grown marks fun index arg here _ changed =>
      .literal strcmp ((literal_of_folded folding index arg here).resolve_left changed)
    rw [show (apply operator args info).withArguments folded = apply operator folded info from rfl,
      Typed.fill, recordType_apply, fillType_apply free] at filled
    cases filled
    exact marks_of_marked inner maps marks rfl grown compared

theorem marks_read (reading : operator = "mem" ∨ operator = "str")
    (vetted : Vetted operator args info.type)
    (found : Typed.ofRule (apply operator args info) scope
      ((apply operator args info).typeRead options) =
      ⟨tree, finish, .ok ()⟩) : Marks (apply operator args info) tree finish := by
  obtain ⟨ruled, rfl⟩ := ofRule_eq_ok found
  obtain rfl | ⟨free, source, first, address, read⟩ := typeRead_ok ruled
  · exact marks_same inner foldings maps vetted
  · have wide := checkAddress_ok address
    have asked (args' : List Node) (head : args'.head? = args.head?)
        (second : ∀ length, args'[1]? = some length → length.num?.isSome = true) (count : Nat) :
        Vetted operator args' (some (.array .char count)) := by
      refine ⟨fun dot => absurd (dot ▸ reading) (by decide), ?_, fun _ _ => second,
        fun strcmp => absurd (strcmp ▸ reading) (by decide)⟩
      rintro - - source' rest rfl
      cases args with
      | nil => cases head
      | cons first' others =>
          cases head
          cases first
          exact wide
    obtain ⟨none, rfl⟩ | ⟨length, count, second, counted, rfl⟩ := read
    · exact marks_typed inner foldings maps free
        (asked args rfl (fun _ some => by cases none.symm.trans some) _)
    · have number := readLength_ok counted
      refine marks_folded inner foldings maps free ?_ (asked (args.modify 1 asVirtual) ?_ ?_ count)
      · intro arg here
        cases second.symm.trans here
        exact .length reading number
      · cases args <;> rfl
      · intro arg here
        rw [List.getElem?_modify_eq, show args[1]? = some length from second] at here
        cases here
        rwa [num?_of_bare (bare_asVirtual length)]

theorem marks_assign {target value : Node} (assign : operator = "=")
    (targets : target.applies "[]" = true) (two : args = [target, value])
    (found : (apply operator args info).typeAssign scope = ⟨tree, finish, .ok ()⟩) :
    Marks (apply operator args info) tree finish := by
  subst two
  have other : ¬ (operator = "." ∨ operator = "mem" ∨ operator = "str" ∨ operator = "strcmp") := by
    subst assign
    decide
  obtain ⟨rfl, rfl⟩ | ⟨free, _, _, _, valueType, parts, -, -, found⟩ := typeAssign_ok found
  · exact marks_same inner foldings maps (vetted_of_other other)
  · cases parts
    obtain ⟨-, rfl, rfl⟩ | ⟨_, -, -, rfl, rfl⟩ := typeTarget_ok found
    · cases target with
      | apply operator' args' info' =>
          obtain rfl : operator' = "[]" := by simpa [applies, operator?] using targets
          have target := inner _ List.mem_cons_self
          have given : ((apply "[]" args' info').fillType valueType).AllNoted scope.symbols := by
            unfold fillType
            split
            · exact target
            · exact target.withInfo ⟨(target _ .root).1, vetted_of_other (by decide)⟩
          have filled : ((apply operator [apply "[]" args' info', value] info).modifyArgument 0
              (Node.fillType · valueType)).fillType .void =
                apply operator [(apply "[]" args' info').fillType valueType, value]
                  { info with type := some .void } := fillType_apply free
          rw [filled, recordType_apply]
          refine ⟨allNoted_apply ⟨foldings.fillType valueType, vetted_of_other other⟩ ?_, rfl, maps⟩
          intro arg member
          rcases List.mem_cons.mp member with rfl | later
          · exact given
          · exact inner arg (List.mem_cons_of_mem _ later)
      | ident _ _ | str _ _ | num _ _ _ => cases targets
    · exact marks_filled inner foldings maps other _

theorem marks_collection {collection key : Node} {keyType : Ty} (two : args = [collection, key])
    (subscript : operator = "[]")
    (found : (apply operator args info).typeCollection collection keyType type scope =
      ⟨tree, finish, .ok ()⟩) : Marks (apply operator args info) tree finish := by
  subst two
  have other : ¬ (operator = "." ∨ operator = "mem" ∨ operator = "str" ∨ operator = "strcmp") := by
    subst subscript
    decide
  unfold typeCollection at found
  split at found
  · cases found
  · rename_i name named
    cases collection with
    | ident name' mapInfo =>
        have before : scope.symbols.Before
            ((ident name' mapInfo).recordType (.map keyType type .hash) scope.symbols) :=
          (later_recordType _ _ _).before
        have given : ((ident name' mapInfo).fillType (.map keyType type .hash)).AllNoted
            ((ident name' mapInfo).recordType (.map keyType type .hash) scope.symbols) := by
          have noted := (inner _ List.mem_cons_self).mono before
          obtain ⟨symbol, known, -⟩ := noted _ .root
          unfold fillType
          split
          · exact noted
          · refine noted.withInfo ⟨symbol, known, ?_⟩
            intro _ type same
            cases same
            rfl
        cases found
        refine ⟨allNoted_apply ⟨foldings.fillType _, vetted_of_other other⟩ ?_, rfl, ?_⟩
        · intro arg member
          rcases List.mem_cons.mp member with rfl | later
          · exact given
          · exact (inner arg (List.mem_cons_of_mem _ later)).mono before
        · unfold recordType
          split
          · exact maps.setType rfl _
          · exact maps
    | apply _ _ _ | str _ _ | num _ _ _ => cases named

theorem marks_subscript (subscript : operator = "[]")
    (found : (apply operator args info).typeSubscript scope = ⟨tree, finish, .ok ()⟩) :
    Marks (apply operator args info) tree finish := by
  have other : ¬ (operator = "." ∨ operator = "mem" ∨ operator = "str" ∨ operator = "strcmp") := by
    subst subscript
    decide
  unfold typeSubscript at found
  dsimp only [Node.args] at found
  split at found
  · rename_i collection key
    split at found
    · rename_i collectionType _ free known
      obtain ⟨ruled, rfl⟩ := ofRule_eq_ok found
      obtain ⟨type, -, same⟩ := ok_of_bind ruled
      cases same
      split
      · rename_i folded
        simp only [Bool.and_eq_true] at folded
        refine marks_folded inner foldings maps free ?_ (vetted_of_other other)
        intro arg second
        cases second
        refine .index subscript folded.2 known ?_
        cases collectionType <;> first | rfl | cases folded.1
      · exact marks_filled inner foldings maps other _
    · exact marks_collection inner foldings maps rfl subscript found
    · obtain ⟨rfl, rfl, -⟩ := Typed.mk.inj found
      exact marks_same inner foldings maps (vetted_of_other other)
    · cases found
      exact marks_same inner foldings maps (vetted_of_other other)
  · cases found
    exact marks_same inner foldings maps (vetted_of_other other)

theorem marks_inferApplication (shape : Shape operator args)
    (vetted : Vetted operator args info.type)
    (found : inferApplication options (apply operator args info) scope = ⟨tree, finish, .ok ()⟩) :
    Marks (apply operator args info) tree finish := by
  cases shape with
  | dot _ => exact marks_dot inner foldings maps rfl vetted found
  | deref _ => exact marks_deref inner foldings maps rfl found
  | structLiteral _ => exact marks_structLiteral inner foldings maps rfl found
  | subscript _ _ => exact marks_subscript inner foldings maps rfl found
  | assign _ targets => exact marks_assign inner foldings maps rfl targets rfl found
  | delete _ =>
      cases found
      exact marks_filled inner foldings maps (by decide) _
  | strcmp _ _ => exact marks_strcmp inner foldings maps rfl vetted found
  | mem _ _ => exact marks_read inner foldings maps (.inl rfl) vetted found
  | str _ _ => exact marks_read inner foldings maps (.inr rfl) vetted found

end Rules

/-- What visits of several nodes leave behind. -/
structure MarksAll (nodes trees : List Node) (finish : Scope) : Prop where
  noted : ∀ tree ∈ trees, tree.AllNoted finish.symbols
  virtual : trees.map isVirtual = nodes.map isVirtual
  maps : finish.symbols.MapsTyped

/-- Every visit of the node that ends well leaves its marks. -/
def Marking (options : Options) (node : Node) : Prop :=
  ∀ (scope finish : Scope) (tree : Node), node.Notable scope.symbols → scope.symbols.MapsTyped →
    infer options node scope = ⟨tree, finish, .ok ()⟩ → Marks node tree finish

theorem marks_leaf (leaf : node.operator? = none) (notable : node.Notable scope.symbols)
    (maps : scope.symbols.MapsTyped) (found : infer options node scope = ⟨tree, finish, .ok ()⟩) :
    Marks node tree finish := by
  have single {tree : Node} {symbols : Symbols} (leaf : tree.operator? = none)
      (here : tree.Noted symbols) : tree.AllNoted symbols := by
    intro part among
    cases among with
    | root => exact here
    | inner _ _ => cases leaf
  have literal {node : Node} {symbols : Symbols} {type : Ty} (noted : node.AllNoted symbols)
      (plain : ∀ info, (node.withInfo info).Noted symbols) :
      (node.fillType type).AllNoted symbols := by
    unfold fillType
    split
    · exact noted
    · exact noted.withInfo (plain _)
  cases node with
  | apply _ _ _ => cases leaf
  | ident name info =>
      cases typed : info.type with
      | some type =>
          rw [infer, if_pos (by rw [typed]; rfl)] at found
          cases found
          refine ⟨single rfl ((notable _ .root).resolve_right ?_), rfl, maps⟩
          intro free
          cases typed.symm.trans free.2
      | none =>
          rw [infer_ident typed] at found
          cases found
          have known := Symbols.get?_resolve scope.symbols name
          have there := maps.resolve name
          exact ⟨single rfl ⟨_, known, there _ (List.mem_of_find?_eq_some known)⟩, rfl, there⟩
  | str value info =>
      cases found
      exact ⟨literal (single rfl trivial) fun _ => trivial, isVirtual_fillType _ _, maps⟩
  | num value unsigned info =>
      cases found
      exact ⟨literal (single rfl trivial) fun _ => trivial, isVirtual_fillType _ _, maps⟩

theorem marksAll {nodes : List Node} (each : ∀ node ∈ nodes, Marking options node)
    (notable : ∀ node ∈ nodes, node.Notable scope.symbols) (maps : scope.symbols.MapsTyped)
    (found : inferAll options nodes scope = ⟨trees, finish, .ok ()⟩) :
    MarksAll nodes trees finish := by
  induction nodes generalizing scope trees with
  | nil =>
      cases found
      exact ⟨fun _ member => (by cases member), rfl, maps⟩
  | cons node nodes ih =>
      obtain ⟨first, middle, others, head, tail, rfl⟩ := inferAll_cons_ok found
      have here := each node List.mem_cons_self _ _ _ (notable node List.mem_cons_self) maps head
      have before : scope.symbols.Before middle.symbols := by
        have visit := (visited options node scope).before
        rwa [head] at visit
      have later : middle.symbols.Before finish.symbols := by
        have visit := (visitedAll_statements options nodes middle).before
        rwa [tail] at visit
      have rest := ih (fun other member => each other (List.mem_cons_of_mem _ member))
        (fun other member => (notable other (List.mem_cons_of_mem _ member)).mono before)
        here.maps tail
      refine ⟨?_, ?_, rest.maps⟩
      · intro tree member
        rcases List.mem_cons.mp member with rfl | member
        · exact here.noted.mono later
        · exact rest.noted tree member
      · rw [List.map_cons, List.map_cons, here.virtual, rest.virtual]

/-- Every node is visited after its arguments. -/
theorem marks (shaped : node.Shaped) : Marking options node := by
  induction node using induct with
  | leaf node leaf => exact fun _ _ _ notable maps found => marks_leaf leaf notable maps found
  | apply operator args info ih =>
      intro scope finish tree notable maps found
      obtain ⟨trees, middle, first, second⟩ := infer_apply_ok found
      have inner := marksAll (fun arg member => ih arg member (shaped.arg member))
        (fun arg member => notable.arg member) maps first
      have kept : KeptAll args trees := by
        have visits := (visitedAll_statements options args scope).kept
        rwa [first] at visits
      have follows : Follows args trees := ⟨kept.bares.symm, fun index arg tree here there _ =>
        (kept.each index arg tree here there).typed⟩
      obtain ⟨foldings, vetted⟩ := (notable _ .root).resolve_right fun leaf => by cases leaf.1
      have shape := (shaped operator args info .root).of_bares follows.bares
      have marks :=
        marks_inferApplication inner.noted (foldings.follow follows inner.virtual) inner.maps
        shape (vetted.follow follows inner.virtual) second
      exact ⟨marks.noted, marks.virtual, marks.maps⟩

theorem marksAll_of_passes {count : Nat} {nodes : List Node}
    (shaped : ∀ node ∈ nodes, node.Shaped) (notable : ∀ node ∈ nodes, node.Notable scope.symbols)
    (maps : scope.symbols.MapsTyped)
    (passed : passes options count nodes scope = ⟨trees, finish, .ok ()⟩) :
    (∀ tree ∈ trees, tree.Notable finish.symbols) ∧ trees.map isVirtual = nodes.map isVirtual := by
  induction count generalizing nodes scope with
  | zero =>
      cases passed
      exact ⟨notable, rfl⟩
  | succ count ih =>
      obtain ⟨between, middle, first, rest⟩ := passes_succ_ok passed
      have pass := marksAll (fun node member => marks (shaped node member)) notable maps first
      have kept : KeptAll nodes between := by
        have visits := (visitedAll_statements options nodes scope).kept
        rwa [first] at visits
      obtain ⟨noted, virtual⟩ :=
        ih (kept.shaped shaped) (fun tree member => (pass.noted tree member).notable)
        pass.maps rest
      exact ⟨noted, virtual.trans pass.virtual⟩

/-- Typed statements are marked all over, and are not marked themselves. -/
theorem marked_of_inferTypes {statements prepared : List Node}
    (fresh : ∀ statement ∈ statements, statement.Fresh)
    (prepares : statements.mapM prepare = .ok prepared) (maps : scope.symbols.MapsTyped)
    (found : inferTypes options prepared scope = ⟨trees, finish, .ok ()⟩) :
    ∀ tree ∈ trees, tree.AllNoted finish.symbols ∧ tree.isVirtual = false := by
  obtain ⟨⟨count, passed⟩, complete⟩ := passes_of_inferTypes found
  have all := prepare_all_ok prepares fresh
  obtain ⟨noted, virtual⟩ := marksAll_of_passes (fun node member => (all node member).2)
    (fun node member => (all node member).1.notable _) maps passed
  refine fun tree member => ⟨fun part among => (noted tree member part among).resolve_right ?_, ?_⟩
  · intro leaf
    have typed := complete tree member part among
    rw [leaf.2] at typed
    cases typed
  · have marked : tree.isVirtual ∈ prepared.map isVirtual := virtual ▸ List.mem_map_of_mem member
    obtain ⟨statement, there, same⟩ := List.mem_map.mp marked
    exact same ▸ ((all statement there).1 statement .root).2.2

end TraceProbe.Node
