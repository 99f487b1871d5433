import TraceProbe.Emission.Tree
import TraceProbe.Proofs.Actionable
import TraceProbe.Proofs.Emission.Moves

/-!
# Emission that succeeds

What an emission that ends without a fault must have gone through: the plan of
an operator, its arguments from left to right, and its own code.  A fault is one
of these.
-/

namespace TraceProbe

@[simp] theorem yields_lift_iff {α : Type} {step : Emit α} {site finish : Site} {result : α} :
    Yields (liftM step : AtSite α) site result finish ↔
      ∃ stream, Yields step site.stream result stream ∧
        { site with stream := stream } = finish := by
  have lifted : outcome (liftM step : AtSite α) site =
      ((outcome step site.stream).1, { site with stream := (outcome step site.stream).2 }) := rfl
  simp only [Yields, lifted, Prod.mk.injEq]
  constructor
  · rintro ⟨value, same⟩
    exact ⟨_, Prod.ext value rfl, same⟩
  · rintro ⟨stream, found, same⟩
    rw [found]
    exact ⟨rfl, same⟩

@[simp] theorem yields_liftDiagnostic_iff {α : Type} {given : Except Diagnostic α}
    {site finish : Site} {result : α} :
    Yields (liftM given : AtSite α) site result finish ↔
      given = .ok result ∧ site = finish := by
  have lifted : outcome (liftM given : AtSite α) site =
      (given.mapError Fault.diagnostic, site) := rfl
  simp only [Yields, lifted, Prod.mk.injEq]
  refine and_congr_left ?_
  intro _
  cases given with
  | error cause => constructor <;> intro same <;> cases same
  | ok value => constructor <;> intro same <;> cases same <;> rfl

namespace AtSite

theorem yields_freshPlace_iff {type : Ty} {request : Request} {stream finish : Stream}
    {place : Place} :
    Yields (Emit.freshPlace type request) stream place finish ↔
      match request.slot with
      | some offset => .slot offset = place ∧ stream = finish
      | none =>
          if type.isWord && !request.inFrame then
            .register (.virtual stream.nextReg) = place ∧
              { stream with nextReg := stream.nextReg + 1 } = finish
          else if 0 < type.size then
            ∃ offset, Yields (Emit.freshSlot type.size type.align) stream offset finish ∧
              .slot offset = place
          else .unassigned = place ∧ stream = finish := by
  unfold Emit.freshPlace
  cases request.slot with
  | some offset => simp
  | none =>
      simp only
      split
      · simp only [yields_bind_iff, Emit.yields_freshReg_iff, yields_pure_iff]
        constructor
        · rintro ⟨_, _, ⟨rfl, rfl⟩, same, rfl⟩
          exact ⟨same, rfl⟩
        · rintro ⟨same, rfl⟩
          exact ⟨_, _, ⟨rfl, rfl⟩, same, rfl⟩
      · split
        · simp only [yields_bind_iff, yields_pure_iff]
          constructor
          · rintro ⟨offset, _, found, same, rfl⟩
            exact ⟨offset, found, same⟩
          · rintro ⟨offset, found, same⟩
            exact ⟨offset, finish, found, same, rfl⟩
        · simp

theorem yields_allocate_iff {type : Ty} {request : Request} {site finish : Site}
    {storage : Storage} :
    Yields (allocate type request) site storage finish ↔
      if site.own.isAssigned then site.own = storage ∧ site = finish
      else ∃ place stream, Yields (Emit.freshPlace type request) site.stream place stream ∧
        ⟨place, type.size⟩ = storage ∧ ⟨stream, ⟨place, type.size⟩⟩ = finish := by
  unfold allocate
  simp only [yields_bind_iff, yields_getThe_iff]
  constructor
  · rintro ⟨_, _, ⟨rfl, rfl⟩, found⟩
    split at found
    · rename_i assigned
      rw [if_pos assigned]
      exact yields_pure_iff.mp found
    · rename_i free
      rw [if_neg free]
      simp only [yields_bind_iff, yields_modifyThe_iff, yields_lift_iff, yields_pure_iff] at found
      obtain ⟨_, _, rfl, place, _, ⟨stream, fresh, rfl⟩, _, _, rfl, same, rfl⟩ := found
      exact ⟨place, stream, fresh, same, rfl⟩
  · intro found
    refine ⟨site, site, ⟨rfl, rfl⟩, ?_⟩
    split at found
    · rename_i assigned
      rw [if_pos assigned]
      exact yields_pure_iff.mpr found
    · rename_i free
      rw [if_neg free]
      obtain ⟨place, stream, fresh, same, rfl⟩ := found
      simp only [yields_bind_iff, yields_modifyThe_iff, yields_lift_iff, yields_pure_iff]
      exact ⟨⟨⟩, _, rfl, place, _, ⟨stream, fresh, rfl⟩, ⟨⟩, _, rfl, same, rfl⟩

theorem yields_slotOf_iff {storage : Storage} {otherwise : String} {site finish : Site}
    {offset : Int16} :
    Yields (slotOf storage otherwise) site offset finish ↔
      storage.place = .slot offset ∧ site = finish := by
  obtain ⟨place, size⟩ := storage
  cases place <;> simp [slotOf, Storage.slot?]

theorem elementOffset_eq_ok_iff {position : UInt64} {size distance : Nat} :
    elementOffset position size = .ok distance ↔
      position.toNat * size < UInt64.size ∧ position.toNat * size = distance := by
  unfold elementOffset
  dsimp only
  split
  · rename_i inside
    simp [inside]
  · rename_i outside
    simp [outside]

theorem convert_of_move {dst src : Storage} {node : Node} {site finish : Site} {result : Unit}
    (found : Yields (move dst src node) site result finish) :
    Yields (convert dst src node) site result finish := by
  unfold move at found
  split at found
  · simp only [yields_bind_iff, yields_lift_iff, Emit.yields_reach_iff] at found
    obtain ⟨_, _, ⟨_, ⟨-, rfl⟩, rfl⟩, converted⟩ := found
    exact converted
  · exact found

theorem knownType_eq_ok_iff {node : Node} {type : Ty} :
    node.knownType = .ok type ↔ node.type? = some type := by
  unfold Node.knownType
  cases node.type? <;> simp

theorem yields_allocateFor_iff {node : Node} {request : Request} {site finish : Site}
    {storage : Storage} :
    Yields (allocateFor node request) site storage finish ↔
      ∃ type, node.type? = some type ∧ Yields (allocate type request) site storage finish := by
  simp only [allocateFor, yields_bind_iff, yields_liftExcept_iff, knownType_eq_ok_iff]
  constructor
  · rintro ⟨type, _, ⟨known, rfl⟩, found⟩
    exact ⟨type, known, found⟩
  · rintro ⟨type, known, found⟩
    exact ⟨type, site, ⟨known, rfl⟩, found⟩

end AtSite

namespace Node

/-- Emission without a fault, with the tree and the stream it leaves. -/
def Emits (symbols : Symbols) (node : Node) (request : Request) (stream : Stream) (tree : Node)
    (finish : Stream) : Prop :=
  emit symbols node request stream = ⟨tree, finish, .ok ()⟩

/-- Emission of several trees without a fault. -/
def EmitsAll (symbols : Symbols) (nodes : List Node) (requests : List Request) (stream : Stream)
    (trees : List Node) (finish : Stream) : Prop :=
  emitAll symbols nodes requests stream = ⟨trees, finish, .ok ()⟩

variable {symbols : Symbols} {request : Request} {stream finish : Stream} {tree : Node}

theorem emits_of_succeeds {node : Node}
    (succeeds : (emit symbols node request stream).outcome.toOption.isSome = true) :
    Emits symbols node request stream (emit symbols node request stream).tree
      (emit symbols node request stream).stream := by
  unfold Emits
  cases found : emit symbols node request stream with
  | mk tree finish outcome =>
      rw [found] at succeeds
      cases outcome with
      | error fault => cases succeeds
      | ok _ => rfl

theorem emitAt_eq_ok_iff {node : Node} {step : AtSite Unit} :
    node.emitAt stream step = ⟨tree, finish, .ok ()⟩ ↔
      ∃ own, Yields step ⟨stream, node.storage⟩ () ⟨finish, own⟩ ∧
        tree = node.withStorage own := by
  unfold emitAt runAt Yields outcome
  rcases found : step.run.run ⟨stream, node.storage⟩ with ⟨result, middle, own⟩
  constructor
  · intro same
    simp only [Emitted.mk.injEq] at same
    obtain ⟨rfl, rfl, rfl⟩ := same
    exact ⟨own, rfl, rfl⟩
  · rintro ⟨own', same, rfl⟩
    cases same
    rfl

theorem emits_leaf_iff {node : Node} (leaf : node.operator? = none) :
    Emits symbols node request stream tree finish ↔
      ∃ own, Yields (AtSite.leaf symbols node request) ⟨stream, node.storage⟩ () ⟨finish, own⟩ ∧
        tree = node.withStorage own := by
  unfold Emits
  cases node with
  | apply operator args info => cases leaf
  | ident name info => rw [emit, emitAt_eq_ok_iff]
  | str value info => rw [emit, emitAt_eq_ok_iff]
  | num value unsigned info => rw [emit, emitAt_eq_ok_iff]

theorem runAt_planApplication {operator : String} {args : List Node} {info : Info} :
    (apply operator args info).runAt stream ((apply operator args info).planApplication request) =
      let planned :=
      outcome ((apply operator args info).planApplication request) ⟨stream, info.storage⟩
      (planned.1, apply operator args { info with storage := planned.2.own },
          planned.2.stream) := rfl

theorem emits_apply_iff {operator : String} {args : List Node} {info : Info} :
    Emits symbols (apply operator args info) request stream tree finish ↔
      ∃ plan site trees middle own,
        Yields ((apply operator args info).planApplication request) ⟨stream, info.storage⟩ plan
          site ∧
        EmitsAll symbols args plan.args site.stream trees middle ∧
        Yields ((apply operator trees { info with storage := site.own }).finishApplication symbols
          plan.own) ⟨middle, site.own⟩ () ⟨finish, own⟩ ∧
        tree = apply operator trees { info with storage := own } := by
  unfold Emits EmitsAll
  rw [emit, runAt_planApplication]
  rcases planned : outcome ((apply operator args info).planApplication request)
    ⟨stream, info.storage⟩ with ⟨result, site⟩
  simp only [Yields, planned]
  cases result with
  | error fault => simp
  | ok plan =>
      rcases inner : emitAll symbols args plan.args site.stream with ⟨trees, middle, result⟩
      cases result with
      | error fault =>
          simp only [inner, Emitted.mk.injEq, reduceCtorEq, and_false, false_iff]
          rintro ⟨plan', site', trees', middle', own, same, others, -⟩
          cases same
          rw [inner] at others
          cases others
      | ok value =>
          simp only [inner, withArguments, emitAt_eq_ok_iff]
          constructor
          · rintro ⟨own, finished, rfl⟩
            exact ⟨plan, site, trees, middle, own, rfl, inner, finished, rfl⟩
          · rintro ⟨plan', site', trees', middle', own, same, others, finished, rfl⟩
            cases same
            rw [inner] at others
            cases others
            exact ⟨own, finished, rfl⟩

theorem alike_of_emits {node : Node} (emits : Emits symbols node request stream tree finish) :
    tree.operator? = node.operator? ∧ tree.type? = node.type? := by
  cases node with
  | apply operator args info =>
      obtain ⟨_, _, _, _, _, -, -, -, rfl⟩ := emits_apply_iff.mp emits
      exact ⟨rfl, rfl⟩
  | ident _ _ | str _ _ | num _ _ _ =>
      obtain ⟨_, -, rfl⟩ := (emits_leaf_iff rfl).mp emits
      exact ⟨rfl, rfl⟩

/-- The fault of an application is one of its plan, its arguments or its own code. -/
theorem faults_emit_apply {operator : String} {args : List Node} {info : Info} {good : Fault → Prop}
    (planned : Faults good (outcome ((apply operator args info).planApplication request)
      ⟨stream, info.storage⟩).1)
    (inner : ∀ plan site, Yields ((apply operator args info).planApplication request)
      ⟨stream, info.storage⟩ plan site →
      Faults good (emitAll symbols args plan.args site.stream).outcome)
    (finished : ∀ plan site trees middle,
      Yields ((apply operator args info).planApplication request)
      ⟨stream, info.storage⟩ plan site → EmitsAll symbols args plan.args site.stream trees middle →
        Faults good
        (outcome ((apply operator trees { info with storage := site.own }).finishApplication
          symbols plan.own) ⟨middle, site.own⟩).1) :
    Faults good (emit symbols (apply operator args info) request stream).outcome := by
  rw [emit, runAt_planApplication]
  rcases found : outcome ((apply operator args info).planApplication request)
    ⟨stream, info.storage⟩ with ⟨result, site⟩
  rw [found] at planned
  cases result with
  | error fault => exact planned.passed_on
  | ok plan =>
      have arguments := inner plan site found
      rcases emitted : emitAll symbols args plan.args site.stream with ⟨trees, middle, result⟩
      rw [emitted] at arguments
      simp only [emitted]
      cases result with
      | error fault => exact arguments
      | ok value => exact finished plan site trees middle found emitted

theorem emitsAll_cons_iff {node : Node} {nodes : List Node} {requests : List Request}
    {trees : List Node} :
    EmitsAll symbols (node :: nodes) (request :: requests) stream trees finish ↔
      ∃ first middle others, Emits symbols node request stream first middle ∧
        EmitsAll symbols nodes requests middle others finish ∧ trees = first :: others := by
  unfold Emits EmitsAll
  rw [emitAll]
  rcases head : emit symbols node request stream with ⟨first, middle, outcome⟩
  cases outcome with
  | error fault => simp
  | ok value =>
      rcases tail : emitAll symbols nodes requests middle with ⟨others, last, outcome⟩
      simp only [Emitted.mk.injEq]
      constructor
      · rintro ⟨rfl, rfl, rfl⟩
        exact ⟨first, middle, others, ⟨rfl, rfl, trivial⟩, tail, rfl⟩
      · rintro ⟨_, _, others', ⟨rfl, rfl, -⟩, same, rfl⟩
        rw [tail] at same
        cases same
        exact ⟨rfl, rfl, rfl⟩

theorem emitsAll_nil_iff {requests : List Request} {trees : List Node} :
    EmitsAll symbols [] requests stream trees finish ↔ trees = [] ∧ finish = stream := by
  unfold EmitsAll
  cases requests <;> simp [emitAll, eq_comm]

end Node

end TraceProbe
