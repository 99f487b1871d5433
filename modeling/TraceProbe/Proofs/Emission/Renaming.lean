import TraceProbe.Emission.Tree
import TraceProbe.Proofs.Typing.Renaming

/-!
# Emission with renamed types

Emission looks at sizes, alignments and offsets, never at the name of a record.
So a tree with renamed types is emitted as the same code into the same slots.
-/

namespace TraceProbe

variable {naming : Renaming}

theorem Emit.freshPlace_rename (type : Ty) (request : Request) :
    freshPlace (type.rename naming) request = freshPlace type request := by
  simp only [freshPlace, Ty.isWord_rename, Ty.size_rename, Ty.align_rename]

theorem Emit.storageFor_rename (storage : Storage) (type : Ty) (request : Request) :
    storageFor storage (type.rename naming) request = storageFor storage type request := by
  simp only [storageFor, freshPlace_rename, Ty.size_rename]

namespace AtSite

open Node (Renames knownType_rename argument_rename)

section Storages

theorem allocate_rename (type : Ty) (request : Request) :
    allocate (type.rename naming) request = allocate type request := by
  simp only [allocate, Emit.freshPlace_rename, Ty.size_rename]

theorem allocateFor_paired (node : Node) (request : Request) :
    Paired Eq (allocateFor node request) (allocateFor (node.rename naming) request) := by
  refine (Paired.lift (knownType_rename node)).bind ?_
  intro type _ same
  rw [same, allocate_rename]
  exact .refl _

theorem slotOf_paired (storage : Storage) (text text' : String) :
    Paired Eq (slotOf storage text) (slotOf storage text') := by
  unfold slotOf
  cases storage.slot? with
  | none => exact .throw rfl
  | some offset => exact .refl _

theorem slotOfNode_paired (node : Node) :
    Paired Eq (slotOfNode node) (slotOfNode (node.rename naming)) := by
  unfold slotOfNode
  rw [Node.storage_rename]
  exact slotOf_paired _ _ _

end Storages

section Leaves

theorem loadContext_paired (node : Node) (own : Storage) (offset : Int16) :
    Paired Eq (loadContext node own offset) (loadContext (node.rename naming) own offset) := by
  unfold loadContext
  cases own.place with
  | unassigned => exact .throw rfl
  | register reg =>
      cases Width.ofBytes? own.size with
      | none => exact .throw rfl
      | some width => exact .refl _
  | slot start => cases Width.ofBytes? own.size <;> exact .refl _

theorem leaf_paired (symbols : Symbols) (node : Node) (request : Request) :
    Paired Eq (leaf symbols node request)
      (leaf (symbols.rename naming) (node.rename naming) request) := by
  unfold leaf
  rw [Node.isVirtual_rename]
  cases node.isVirtual with
  | true => exact .refl _
  | false =>
      simp only [Bool.false_eq_true, if_false]
      cases node with
      | apply operator args info =>
          rw [Node.rename_apply]
          exact .throw rfl
      | num value unsigned info =>
          exact (allocateFor_paired (.num value unsigned info) request).next fun own => .refl _
      | str value info =>
          refine (allocateFor_paired (.str value info) request.onFrame).next fun own => .refl _
      | ident name info =>
          rw [Node.rename_ident]
          dsimp only
          rw [Symbols.get?_rename]
          cases symbols.get? name with
          | none => exact .throw rfl
          | some symbol =>
              simp only [Option.map_some, Symbol.rename]
              cases symbol.kind with
              | map number => exact .refl _
              | context offset =>
                  refine (allocateFor_paired (.ident name info) request).next ?_
                  intro own
                  exact loadContext_paired (.ident name info) own offset

end Leaves

section Records

theorem planDot_paired (node : Node) (request : Request) :
    Paired Eq (planDot node request) (planDot (node.rename naming) request) := by
  refine (Paired.lift (argument_rename node 0)).bind ?_
  intro base _ same
  subst same
  rw [Node.applies_rename]
  exact .refl _

theorem readMember_paired (base : Node) (own : Storage) (offset : Nat) :
    Paired Eq (readMember base own offset) (readMember (base.rename naming) own offset) := by
  unfold readMember
  rw [Node.args_rename]
  cases base.args with
  | nil => exact .throw rfl
  | cons pointer rest =>
      simp only [List.map_cons, Node.storage_rename]
      exact .refl _

theorem takeMember_paired (base : Node) (own : Storage) (offset : Nat) :
    Paired Eq (takeMember base own offset) (takeMember (base.rename naming) own offset) :=
  (slotOfNode_paired base).next fun _ => .refl _

theorem emitDot_paired (node : Node) (request : Request) :
    Paired Eq (emitDot node request) (emitDot (node.rename naming) request) := by
  refine (allocateFor_paired node request).next ?_
  intro own
  refine (Paired.lift (argument_rename node 0)).bind ?_
  intro base _ same
  subst same
  refine (Paired.lift (knownType_rename base)).bind ?_
  intro type _ same
  subst same
  refine (Paired.lift (Node.memberName_rename node)).next ?_
  intro member
  rw [Ty.offsetOf?_rename, Node.storage_rename, Node.applies_rename]
  cases type.offsetOf? member with
  | none => exact .throw rfl
  | some offset =>
      dsimp only
      split
      · exact readMember_paired base own offset
      · exact takeMember_paired base own offset

theorem emitDeref_paired (node : Node) (request : Request) :
    Paired Eq (emitDeref node request) (emitDeref (node.rename naming) request) := by
  unfold emitDeref
  cases request.memberOnly with
  | true => exact .refl _
  | false =>
      refine (allocateFor_paired node request).next ?_
      intro own
      cases request.target with
      | true => exact .refl _
      | false =>
          refine (Paired.lift (argument_rename node 0)).bind ?_
          intro pointer _ same
          subst same
          rw [Node.storage_rename]
          exact .refl _

theorem literalShape_paired (node : Node) (own : Storage) :
    Paired (fun shape other => other = (Ty.rename naming shape.1, Record.rename naming shape.2.1,
        shape.2.2))
      (literalShape node own) (literalShape (node.rename naming) own) := by
  refine (Paired.lift (knownType_rename node)).bind ?_
  intro type _ same
  subst same
  rw [Ty.record?_rename]
  cases type.record? with
  | none => exact .throw rfl
  | some shape =>
      simp only [Option.map_some]
      refine (Paired.refl (slotOf own "struct literal not on the stack")).bind ?_
      intro base _ same
      exact .pure (by rw [same])

theorem planMembers_paired (base : Int16) (members : List (Field × Nat)) (args : List Node)
    (stop : Nat) :
    Paired Eq (planMembers base stop members args)
      (planMembers base stop (members.map (Prod.map (Field.rename naming) id))
        (args.map (Node.rename naming))) := by
  induction members generalizing args stop with
  | nil => exact .refl _
  | cons member members ih =>
      obtain ⟨field, offset⟩ := member
      cases args with
      | nil => exact .refl _
      | cons arg args =>
          simp only [List.map_cons, Prod.map_apply, planMembers, id_eq, Node.storage_rename]
          rw [show (field.rename naming).type.size = field.type.size from field.type.size_rename]
          refine (Paired.refl _).next ?_
          intro _
          split
          · exact (Paired.refl _).next fun _ => (ih args _).next fun _ => .refl _
          · refine (Paired.refl _).next ?_
            intro place
            exact (Paired.refl _).next fun _ => (ih args _).next fun _ => .refl _

theorem planStructLiteral_paired (node : Node) (request : Request) :
    Paired Eq (planStructLiteral node request)
      (planStructLiteral (node.rename naming) request) := by
  refine (allocateFor_paired node request.onFrame).next ?_
  intro own
  refine (literalShape_paired node own).bind ?_
  intro shape _ same
  obtain ⟨type, shape, base⟩ := shape
  subst same
  have zipped : ((shape.rename naming).fields.zip (shape.rename naming).offsets) =
      (shape.fields.zip shape.offsets).map (Prod.map (Field.rename naming) id) := by
    rw [Ty.offsets_rename, ← List.zip_map, List.map_id]
    rfl
  simp only [zipped, Node.args_rename, Ty.size_rename]
  exact (planMembers_paired base _ node.args 0).next fun _ => .refl _

theorem copyMembers_rename (base : Int16) (args : List Node) (offsets : List Nat) :
    copyMembers base (args.map (Node.rename naming)) offsets = copyMembers base args offsets := by
  induction args generalizing offsets with
  | nil => rfl
  | cons arg args ih =>
      cases offsets with
      | nil => rfl
      | cons offset offsets => simp only [List.map_cons, copyMembers, Node.storage_rename, ih]

theorem emitStructLiteral_paired (node : Node) :
    Paired Eq (emitStructLiteral node) (emitStructLiteral (node.rename naming)) := by
  refine (Paired.lift (knownType_rename node)).bind ?_
  intro type _ same
  subst same
  rw [Node.storage_rename]
  refine (Paired.refl _).next ?_
  intro base
  rw [Ty.record?_rename, Node.args_rename]
  cases type.record? with
  | none => exact .throw rfl
  | some shape =>
      simp only [Option.map_some, Ty.offsets_rename, copyMembers_rename]
      exact .refl _

end Records

section Maps

theorem mapNumber_agree (symbols : Symbols) (node : Node) :
    Agrees Eq (mapNumber symbols node)
      (mapNumber (symbols.rename naming) (node.rename naming)) := by
  unfold mapNumber
  rw [Node.ident?_rename, Node.loc_rename]
  cases node.ident? with
  | none => exact .error rfl
  | some name =>
      have kinds : ((symbols.rename naming).get? name).bind (·.kind.map?) =
          (symbols.get? name).bind (·.kind.map?) := by
        rw [Symbols.get?_rename]
        cases symbols.get? name <;> rfl
      dsimp only
      rw [kinds]
      exact .refl _

theorem convert_paired (dst src : Storage) (node : Node) :
    Paired Eq (convert dst src node) (convert dst src (node.rename naming)) := by
  unfold convert
  split
  · exact .refl _
  · split
    · refine (Paired.lift (knownType_rename node)).bind ?_
      intro type _ same
      subst same
      rw [Ty.isSigned_rename]
      exact .refl _
    · exact .refl _

theorem move_paired (dst src : Storage) (node : Node) :
    Paired Eq (move dst src node) (move dst src (node.rename naming)) := by
  unfold move
  split
  · exact (Paired.refl _).next fun _ => convert_paired dst src node
  · exact convert_paired dst src node

theorem keySlot_paired (subscript : Node) :
    Paired Eq (keySlot subscript) (keySlot (subscript.rename naming)) := by
  unfold keySlot
  rw [Node.args_rename]
  rcases subscript.args with _ | ⟨map, _ | ⟨key, _ | _⟩⟩
  · exact .throw rfl
  · exact .throw rfl
  · refine (Paired.lift (knownType_rename map)).bind ?_
    intro type _ same
    subst same
    cases type with
    | map keyType value kind =>
        simp only [Ty.rename, Node.storage_rename, Ty.size_rename, Emit.storageFor_rename]
        split
        · exact .refl _
        · refine (Paired.refl _).next ?_
          intro slot
          exact (move_paired slot key.storage key).next fun _ => .refl _
    | record _ | function _ =>
        simp only [Ty.rename_record, Ty.rename_function]
        exact .throw rfl
    | _ => exact .throw rfl
  · exact .throw rfl

theorem emitLookup_paired (symbols : Symbols) (node : Node) (own : Storage) :
    Paired Eq (emitLookup symbols node own)
      (emitLookup (symbols.rename naming) (node.rename naming) own) := by
  refine (Paired.lift (argument_rename node 0)).bind ?_
  intro collection _ same
  subst same
  refine (Paired.lift (mapNumber_agree symbols collection)).next ?_
  intro map
  exact (keySlot_paired node).next fun key => .refl _

theorem emitUpdate_paired (symbols : Symbols) (target : Node) :
    Paired Eq (emitUpdate symbols target)
      (emitUpdate (symbols.rename naming) (target.rename naming)) := by
  refine (Paired.lift (argument_rename target 0)).bind ?_
  intro collection _ same
  subst same
  refine (Paired.lift (mapNumber_agree symbols collection)).next ?_
  intro map
  refine (keySlot_paired target).next ?_
  intro key
  rw [Node.storage_rename]
  exact .refl _

theorem subscriptParts_paired (node : Node) :
    Paired (fun parts other => other = (Node.rename naming parts.1, Node.rename naming parts.2))
      (subscriptParts node) (subscriptParts (node.rename naming)) := by
  unfold subscriptParts
  rw [Node.args_rename]
  rcases node.args with _ | ⟨collection, _ | ⟨index, _ | _⟩⟩
  · exact .throw rfl
  · exact .throw rfl
  · exact .pure rfl
  · exact .throw rfl

theorem emitArrayElement_paired (node : Node) (own : Storage) :
    Paired Eq (emitArrayElement node own) (emitArrayElement (node.rename naming) own) := by
  refine (subscriptParts_paired node).bind ?_
  intro parts _ same
  obtain ⟨array, index⟩ := parts
  subst same
  dsimp only
  rw [Node.num?_rename]
  cases index.num? with
  | none => exact .throw rfl
  | some position => exact (slotOfNode_paired array).next fun _ => .refl _

theorem emitPointerElement_paired (node : Node) (own : Storage) :
    Paired Eq (emitPointerElement node own) (emitPointerElement (node.rename naming) own) := by
  refine (subscriptParts_paired node).bind ?_
  intro parts _ same
  obtain ⟨pointer, index⟩ := parts
  subst same
  dsimp only
  rw [Node.num?_rename, Node.storage_rename, Node.storage_rename, Node.loc_rename]
  refine (Paired.refl _).next ?_
  intro _
  cases index.num? with
  | none => exact .refl _
  | some position =>
      dsimp only
      cases elementDistance? position own.size with
      | none => exact .throw rfl
      | some distance => exact .refl _

theorem planSubscript_paired (node : Node) (request : Request) :
    Paired Eq (planSubscript node request) (planSubscript (node.rename naming) request) := by
  refine (Paired.lift (argument_rename node 0)).bind ?_
  intro collection _ same
  subst same
  refine (Paired.lift (knownType_rename collection)).bind ?_
  intro type _ same
  subst same
  cases type with
  | map keyType value kind => exact .refl _
  | array element length =>
      refine (Paired.lift (argument_rename node 1)).bind ?_
      intro index _ same
      subst same
      rw [Node.num?_rename, Node.loc_rename]
      cases index.num? with
      | none => exact .throw rfl
      | some position => exact .refl _
  | pointer target =>
      refine .pure ?_
      rw [Plan.free, Plan.free, Node.args_rename, List.length_map]
  | record _ | function _ =>
      simp only [Ty.rename_record, Ty.rename_function]
      exact .throw rfl
  | _ => exact .throw rfl

theorem emitSubscript_paired (symbols : Symbols) (node : Node) (request : Request) :
    Paired Eq (emitSubscript symbols node request)
      (emitSubscript (symbols.rename naming) (node.rename naming) request) := by
  refine (Paired.lift (argument_rename node 0)).bind ?_
  intro collection _ same
  subst same
  refine (Paired.lift (knownType_rename collection)).bind ?_
  intro type _ same
  subst same
  rw [Ty.isMap_rename, Node.loc_rename]
  cases (request.target && !type.isMap) with
  | true => exact .throw rfl
  | false =>
      simp only [Bool.false_eq_true, if_false]
      cases type with
      | map keyType value kind =>
          refine (allocateFor_paired node request).next ?_
          intro own
          cases request.target with
          | true => exact .refl _
          | false => exact emitLookup_paired symbols node own
      | array element length =>
          exact (allocateFor_paired node request).next fun own => emitArrayElement_paired node own
      | pointer target =>
          exact (allocateFor_paired node request).next fun own => emitPointerElement_paired node own
      | record _ | function _ =>
          simp only [Ty.rename_record, Ty.rename_function]
          exact .throw rfl
      | _ => exact .throw rfl

theorem planAssign_paired (node : Node) (request : Request) :
    Paired Eq (planAssign node request) (planAssign (node.rename naming) request) := by
  refine (Paired.lift (argument_rename node 0)).bind ?_
  intro target _ same
  subst same
  refine (Paired.lift (knownType_rename target)).bind ?_
  intro targetType _ same
  subst same
  refine (Paired.lift (argument_rename node 1)).bind ?_
  intro value _ same
  subst same
  refine (Paired.lift (knownType_rename value)).bind ?_
  intro valueType _ same
  subst same
  rw [allocate_rename, Ty.size_rename, Ty.size_rename]
  exact .refl _

theorem emitAssign_paired (symbols : Symbols) (node : Node) :
    Paired Eq (emitAssign symbols node)
      (emitAssign (symbols.rename naming) (node.rename naming)) := by
  unfold emitAssign
  rw [Node.args_rename]
  rcases node.args with _ | ⟨target, _ | ⟨value, _ | _⟩⟩
  · exact .throw rfl
  · exact .throw rfl
  · simp only [List.map_cons, List.map_nil, Node.storage_rename, Node.applies_rename]
    refine (move_paired target.storage value.storage value).next ?_
    intro _
    cases target.applies "[]" with
    | true => exact emitUpdate_paired symbols target
    | false => exact .refl _
  · exact .throw rfl

theorem emitDelete_paired (symbols : Symbols) (node : Node) :
    Paired Eq (emitDelete symbols node)
      (emitDelete (symbols.rename naming) (node.rename naming)) := by
  refine (Paired.lift (argument_rename node 0)).bind ?_
  intro target _ same
  subst same
  refine (Paired.lift (argument_rename target 0)).bind ?_
  intro collection _ same
  subst same
  refine (Paired.lift (mapNumber_agree symbols collection)).next ?_
  intro map
  exact (keySlot_paired target).next fun _ => .refl _

end Maps

section Strings

theorem comparisonOperands_paired (node : Node) :
    Paired (fun operands other => other = (Node.rename naming operands.1,
        Node.rename naming operands.2.1, operands.2.2))
      (comparisonOperands node) (comparisonOperands (node.rename naming)) := by
  unfold comparisonOperands
  rw [Node.args_rename]
  rcases node.args with _ | ⟨left, _ | ⟨right, _ | _⟩⟩
  · exact .throw rfl
  · exact .throw rfl
  · simp only [List.map_cons, List.map_nil, Node.str?_rename]
    split <;> exact .pure rfl
  · exact .throw rfl

theorem comparandOf_paired (node : Node) :
    Paired Eq (comparandOf node) (comparandOf (node.rename naming)) := by
  unfold comparandOf
  rw [Node.str?_rename]
  cases node.str? with
  | none => exact (slotOfNode_paired node).next fun _ => .refl _
  | some value => exact .refl _

theorem emitStrcmp_paired (node : Node) (request : Request) :
    Paired Eq (emitStrcmp node request) (emitStrcmp (node.rename naming) request) := by
  refine (allocateFor_paired node request).next ?_
  intro own
  refine (comparisonOperands_paired node).bind ?_
  intro operands _ same
  obtain ⟨left, right, swapped⟩ := operands
  subst same
  refine (slotOfNode_paired left).next ?_
  intro base
  refine (comparandOf_paired right).next ?_
  intro comparand
  refine (Paired.lift (knownType_rename left)).bind ?_
  intro leftType _ same
  subst same
  refine (Paired.lift (knownType_rename right)).bind ?_
  intro rightType _ same
  subst same
  rw [Ty.size_rename, Ty.size_rename]
  exact .refl _

theorem emitMem_paired (node : Node) (request : Request) :
    Paired Eq (emitMem node request) (emitMem (node.rename naming) request) := by
  refine (allocateFor_paired node request).next ?_
  intro own
  refine (Paired.lift (argument_rename node 0)).bind ?_
  intro pointer _ same
  subst same
  rw [Node.storage_rename]
  exact .refl _

theorem emitStr_paired (node : Node) (request : Request) :
    Paired Eq (emitStr node request) (emitStr (node.rename naming) request) := by
  refine (allocateFor_paired node request).next ?_
  intro own
  refine (Paired.refl _).next ?_
  intro offset
  refine (Paired.refl _).next ?_
  intro _
  refine (Paired.lift (argument_rename node 0)).bind ?_
  intro pointer _ same
  subst same
  rw [Node.storage_rename]
  exact .refl _

end Strings

end AtSite

namespace Operator

theorem plan_paired (operator : Operator) (node : Node) (request : Request) :
    Paired Eq (operator.plan node request) (operator.plan (node.rename naming) request) := by
  have free (request : Request) :
      Plan.free (node.rename naming) request = Plan.free node request := by
    rw [Plan.free, Plan.free, Node.args_rename, List.length_map]
  cases operator with
  | dot => exact AtSite.planDot_paired node request
  | structLiteral => exact AtSite.planStructLiteral_paired node request
  | subscript => exact AtSite.planSubscript_paired node request
  | assign => exact AtSite.planAssign_paired node request
  | delete | strcmp => exact .refl _
  | deref | mem | str => exact .pure (free request.onFrame).symm
  | arrow => exact .pure (free request).symm

theorem emit_paired (operator : Operator) (symbols : Symbols) (node : Node) (request : Request) :
    Paired Eq (operator.emit symbols node request)
      (operator.emit (symbols.rename naming) (node.rename naming) request) := by
  cases operator with
  | dot => exact AtSite.emitDot_paired node request
  | deref => exact AtSite.emitDeref_paired node request
  | structLiteral => exact AtSite.emitStructLiteral_paired node
  | subscript => exact AtSite.emitSubscript_paired symbols node request
  | assign => exact AtSite.emitAssign_paired symbols node
  | delete => exact AtSite.emitDelete_paired symbols node
  | strcmp => exact AtSite.emitStrcmp_paired node request
  | mem => exact AtSite.emitMem_paired node request
  | str => exact AtSite.emitStr_paired node request
  | arrow => exact .refl _

end Operator

/-- What emission leaves of two trees, alike up to a renaming: the same stream,
and storages on the same nodes. -/
structure Emitted.Renamed {α : Type} (rename : α → α) (left right : Emitted α) : Prop where
  tree : right.tree = rename left.tree
  stream : right.stream = left.stream
  outcome : Agrees Eq left.outcome right.outcome

namespace Node

/-- A renamed operator is found in the same row of the table, or not at all. -/
theorem lookup_paired (node : Node) :
    Paired Eq (liftM (OperatorTable.language.lookup node) : AtSite Description)
      (liftM (OperatorTable.language.lookup (node.rename naming))) := by
  rcases @lookup_rename naming node with
    ⟨description, found, found'⟩ | ⟨cause, other, found, found', equal⟩
  · rw [found, found']
    exact .refl _
  · rw [found, found']
    intro _
    exact ⟨.error (congrArg Fault.diagnostic equal), rfl⟩

theorem planApplication_paired (node : Node) (request : Request) :
    Paired Eq (node.planApplication request) ((node.rename naming).planApplication request) := by
  refine (lookup_paired node).next ?_
  intro description
  refine (description.operator.plan_paired node request).next ?_
  intro plan
  rw [args_rename, List.length_map]
  split
  · exact .refl _
  · exact .throw rfl

theorem finishApplication_paired (symbols : Symbols) (node : Node) (request : Request) :
    Paired Eq (node.finishApplication symbols request)
      ((node.rename naming).finishApplication (symbols.rename naming) request) := by
  apply (lookup_paired node).next
  intro description
  exact description.operator.emit_paired symbols node request

theorem runAt_rename (naming : Renaming) {α : Type} {left right : AtSite α}
    (paired : Paired Eq left right) (node : Node) (stream : Stream) :
    Agrees Eq (node.runAt stream left).1 ((node.rename naming).runAt stream right).1 ∧
      ((node.rename naming).runAt stream right).2 =
        ((node.runAt stream left).2.1.rename naming, (node.runAt stream left).2.2) := by
  have both := paired ⟨stream, node.storage⟩
  unfold outcome at both
  unfold runAt
  rw [storage_rename]
  generalize left.run.run ⟨stream, node.storage⟩ = first at both ⊢
  generalize right.run.run ⟨stream, node.storage⟩ = second at both ⊢
  obtain ⟨result, site⟩ := first
  obtain ⟨result', site'⟩ := second
  obtain ⟨agree, same⟩ := both
  cases same
  exact ⟨agree, by rw [rename_withStorage]⟩

theorem emitAt_rename {left right : AtSite Unit} (paired : Paired Eq left right)
    (node : Node) (stream : Stream) :
    Emitted.Renamed (rename naming) (node.emitAt stream left)
      ((node.rename naming).emitAt stream right) := by
  obtain ⟨agree, same⟩ := runAt_rename naming paired node stream
  exact ⟨congrArg Prod.fst same, congrArg Prod.snd same, agree⟩

variable {symbols : Symbols}

theorem emitAll_rename {nodes : List Node} (each : ∀ node ∈ nodes, ∀ request stream,
      Emitted.Renamed (rename naming) (emit symbols node request stream)
        (emit (symbols.rename naming) (node.rename naming) request stream))
    (requests : List Request) (stream : Stream) :
    Emitted.Renamed (List.map (rename naming)) (emitAll symbols nodes requests stream)
      (emitAll (symbols.rename naming) (nodes.map (rename naming)) requests stream) := by
  induction nodes generalizing requests stream with
  | nil => exact ⟨rfl, rfl, .ok rfl⟩
  | cons node nodes ih =>
      cases requests with
      | nil => exact ⟨rfl, rfl, .ok rfl⟩
      | cons request requests =>
          have first := each node List.mem_cons_self request stream
          rw [List.map_cons, emitAll, emitAll]
          generalize emit symbols node request stream = left at first ⊢
          generalize emit (symbols.rename naming) (node.rename naming) request stream = right
            at first ⊢
          obtain ⟨tree, middle, outcome⟩ := left
          obtain ⟨tree', middle', outcome'⟩ := right
          obtain ⟨sameTree, sameStream, ends⟩ := first
          dsimp only at sameTree sameStream ends
          subst sameTree sameStream
          cases ends with
          | error equal => exact ⟨rfl, rfl, .error equal⟩
          | ok _ =>
              have others := ih (fun other member => each other (List.mem_cons_of_mem _ member))
                requests middle'
              exact ⟨congrArg (rename naming tree :: ·) others.tree, others.stream, others.outcome⟩

theorem emit_rename (node : Node) (request : Request) (stream : Stream) :
    Emitted.Renamed (rename naming) (emit symbols node request stream)
      (emit (symbols.rename naming) (node.rename naming) request stream) := by
  induction node using induct generalizing request stream with
  | leaf node leaf =>
      cases node with
      | apply _ _ _ => cases leaf
      | ident name info => exact emitAt_rename (AtSite.leaf_paired symbols _ request) _ stream
      | str value info => exact emitAt_rename (AtSite.leaf_paired symbols _ request) _ stream
      | num value unsigned info =>
          exact emitAt_rename (AtSite.leaf_paired symbols _ request) _ stream
  | apply operator args info ih =>
      obtain ⟨planned, same⟩ := runAt_rename naming
        (planApplication_paired (apply operator args info) request) _ stream
      rw [rename_apply] at planned same ⊢
      rw [emit, emit]
      generalize (apply operator args info).runAt stream
        ((apply operator args info).planApplication request) = left at planned same ⊢
      generalize (apply operator (args.map (rename naming)) (info.rename naming)).runAt stream
        ((apply operator (args.map (rename naming)) (info.rename naming)).planApplication request) =
          right at planned same ⊢
      obtain ⟨result, node, reserved⟩ := left
      obtain ⟨result', node', reserved'⟩ := right
      cases same
      cases planned with
      | error equal => exact ⟨rfl, rfl, .error equal⟩
      | ok equal =>
          subst equal
          dsimp only
          rename_i plan
          have inner := emitAll_rename ih plan.args reserved
          generalize emitAll symbols args plan.args reserved = middle at inner ⊢
          generalize emitAll (symbols.rename naming) (args.map (rename naming)) plan.args reserved =
            middle' at inner ⊢
          obtain ⟨trees, reached, outcome⟩ := middle
          obtain ⟨trees', reached', outcome'⟩ := middle'
          obtain ⟨sameTrees, sameStream, ends⟩ := inner
          dsimp only at sameTrees sameStream ends ⊢
          subst sameTrees sameStream
          rw [← rename_withArguments]
          cases ends with
          | error equal => exact ⟨rfl, rfl, .error equal⟩
          | ok _ => exact emitAt_rename (finishApplication_paired symbols _ plan.own) _ _

end Node

end TraceProbe
