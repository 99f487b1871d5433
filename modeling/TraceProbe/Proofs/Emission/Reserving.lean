import TraceProbe.Proofs.Emission.Subscripts
import TraceProbe.Proofs.Typing.Soundness

/-!
# Assignments and struct literals

Both reserve their own slot first and ask for arguments in it.  An assignment
puts its value there, at once or by a conversion; a struct literal clears what
lies between its members and has nothing left to do behind them.
-/

namespace TraceProbe

/-- What is known about the storage of an argument, by the request for it. -/
structure Node.Placed (request : Request) (tree : Node) : Prop extends tree.Stored where
  positive : request.slot = none → tree.storage.isAssigned = true → 0 < tree.storage.size
  obeyed : ∀ offset, request.slot = some offset → tree.storage.isAssigned = true →
    tree.storage.place = .slot offset

namespace Node

open Insn AtSite

variable {symbols : Symbols} {request : Request} {stream middle : Stream} {own : Storage}
  {plan : Plan} {site finish : Site} {info : Info} {target value : Node}

theorem reserved_assign
    (found : Yields ((apply "=" [target, value] info).planApplication request)
      ⟨stream, {}⟩ plan site) :
    ∃ targetType valueType slot, target.type? = some targetType ∧ value.type? = some valueType ∧
      site.own = ⟨.slot slot, targetType.size⟩ ∧ stream.Extends site.stream [] ∧
      Owns targetType request.slot stream site.stream site.own ∧
      plan.args = [(Request.inSlot slot).asTarget,
        if valueType.size = targetType.size then Request.inSlot slot else .frame] := by
  have found := planned_by rfl found
  have first : (apply "=" [target, value] info).argument 0 = .ok target := rfl
  have second : (apply "=" [target, value] info).argument 1 = .ok value := rfl
  simp only [Operator.plan, planAssign, first, second, yields_bind_iff, yields_liftExcept_iff,
    yields_slotOf_iff, yields_pure_iff] at found
  obtain ⟨_, _, ⟨same, rfl⟩, targetType, _, ⟨known, rfl⟩, _, _, ⟨same', rfl⟩, valueType, _,
    ⟨known', rfl⟩, storage, after, allocated, slot, _, ⟨placed, rfl⟩, rfl, rfl⟩ := found
  cases same
  cases same'
  obtain ⟨owned, extended, owns, -⟩ := owns_of_allocate allocated
  have assigned : storage.isAssigned = true := by simp [Storage.isAssigned, placed]
  have whole : after.own = ⟨.slot slot, targetType.size⟩ := by
    rw [owned, ← owns.sized assigned, ← placed]
  exact ⟨targetType, valueType, slot, knownType_eq_ok_iff.mp known, knownType_eq_ok_iff.mp known',
    whole, extended, owned ▸ owns, rfl⟩

theorem Placed.whole {tree : Node} {asked : Request} {slot : Int16} {type : Ty}
    (placed : tree.Placed asked) (chosen : asked.slot = some slot) (known : tree.type? = some type)
    (real : type ≠ .void) (assigned : tree.storage.isAssigned = true) :
    tree.storage = ⟨.slot slot, type.size⟩ := by
  rw [← placed.obeyed slot chosen assigned, ← placed.sized type known real assigned]

/-- The value of an assignment is converted into its slot, unless it is there. -/
theorem converted {slot : Int16} {targetType valueType : Ty} {asked : Request}
    (known : value.type? = some valueType) (real : valueType ≠ .void) (placed : value.Placed asked)
    (chosen : asked = if valueType.size = targetType.size then Request.inSlot slot else .frame)
    (found : Yields (convert ⟨.slot slot, targetType.size⟩ value.storage value) ⟨middle, own⟩ ()
      finish) :
    finish.own = own ∧ ∃ moves, middle.Moved finish.stream moves ∧
      (∀ move ∈ moves, move.srcs = [value.storage] ∧
        move.dst = some ⟨.slot slot, targetType.size⟩) ∧ (moves ≠ [] → asked.slot = none) := by
  obtain ⟨same, code, moved⟩ := moved_convert found
  by_cases sizes : valueType.size = targetType.size
  · rw [if_pos sizes] at chosen
    subst chosen
    have assigned : value.storage.isAssigned = true :=
      (moved.pieces _ List.mem_cons_self).assigned _ List.mem_cons_self
    rw [placed.whole rfl known real assigned, sizes] at found
    obtain rfl := convert_of_eq found
    exact ⟨rfl, [], .refl middle, fun _ member => (by cases member), fun none => absurd rfl none⟩
  · rw [if_neg sizes] at chosen
    subst chosen
    refine ⟨same, _, moved, ?_, fun _ => rfl⟩
    intro move member
    obtain rfl := List.mem_singleton.mp member
    exact ⟨rfl, rfl⟩

theorem yields_assign {site : Site} (targets : target.applies "[]" = true)
    (found : Yields ((apply "=" [target, value] info).finishApplication symbols request) site ()
      finish) :
    ∃ between, Yields (convert target.storage value.storage value) site () between ∧
      Yields (emitUpdate symbols target) between () finish := by
  have found := finished_by rfl found
  simp only [Operator.emit, emitAssign, args, targets, if_true, yields_bind_iff] at found
  obtain ⟨_, between, converts, updated⟩ := found
  exact ⟨between, convert_of_move converts, updated⟩

theorem finishes_assign {sure : Prop} {slot : Int16} {targetType valueType : Ty} {asked : Request}
    (targets : target.applies "[]" = true) (known : value.type? = some valueType)
    (real : valueType ≠ .void) (placed : value.Placed asked)
    (chosen : asked = if valueType.size = targetType.size then Request.inSlot slot else .frame)
    (knownTarget : target.type? = some targetType) (realTarget : targetType ≠ .void)
    (placedTarget : target.Placed (Request.inSlot slot).asTarget)
    (found : Yields ((apply "=" [target, value] info).finishApplication symbols request)
      ⟨middle, own⟩ () finish) :
    finish.own = own ∧ ∃ moves, middle.Moved finish.stream moves ∧
      (∀ move ∈ moves, ∀ src ∈ move.srcs, Readable sure [target, value] middle finish.stream src) ∧
      (∀ move ∈ moves, ∀ dst, move.dst = some dst →
        dst = ⟨.slot slot, targetType.size⟩ ∧ asked.slot = none ∨
          NewSlot middle finish.stream dst) := by
  obtain ⟨between, converts, updated⟩ := yields_assign targets found
  obtain ⟨number, key, start, reached, -, stored, placedValue, rfl⟩ := emitUpdate_code updated
  have assigned : target.storage.isAssigned = true := by simp [Storage.isAssigned, placedValue]
  have whole := placedTarget.whole rfl knownTarget realTarget assigned
  rw [whole] at converts placedValue
  cases placedValue
  obtain ⟨same, moves, moved, each, absent⟩ := converted known real placed chosen converts
  obtain ⟨same', map, keyNode, keySize, moves', arguments, keyed⟩ := keyed_of_keySlot stored
  have called : reached.stream.Moved (reached.stream.append (updateCode number key slot))
      [⟨none, [⟨.slot key, keySize⟩, target.storage], updateCode number key slot⟩] := by
    rw [whole]
    exact Stream.moved_one (Stream.extends_append rfl)
      (.update number key keySize slot targetType.size)
  have operand : Operand [target, value] keyNode.storage := by
    refine operand_of_args List.mem_cons_self ?_
    rw [arguments]
    exact List.mem_cons_of_mem _ List.mem_cons_self
  refine ⟨same'.trans same, _, (moved.trans keyed.moved).trans called, ?_, ?_⟩
  · intro move member src among
    rcases List.mem_append.mp member with early | last
    · rcases List.mem_append.mp early with first | second
      · rw [(each move first).1] at among
        obtain rfl := List.mem_singleton.mp among
        exact readable_operand (operand_of_mem (List.mem_cons_of_mem _ List.mem_cons_self))
      · exact keyed.reads operand move second src among
    · obtain rfl := List.mem_singleton.mp last
      rcases List.mem_cons.mp among with rfl | other
      · exact keyed.readable operand moved.extended called.extended
      · obtain rfl := List.mem_singleton.mp other
        exact readable_operand (operand_of_mem List.mem_cons_self)
  · intro move member dst filled
    rcases List.mem_append.mp member with early | last
    · rcases List.mem_append.mp early with first | second
      · rw [(each move first).2] at filled
        cases filled
        exact .inl ⟨rfl, absent (List.ne_nil_of_mem first)⟩
      · exact .inr (keyed.writes moved.extended called.extended move second dst filled)
    · obtain rfl := List.mem_singleton.mp last
      cases filled

/-- A piece that clears a range behind a base. -/
def Clears (base : Int16) (start stop : Nat) (move : Move) : Prop :=
  move.srcs = [] ∧ ∃ place, movedOffset base start = .ok place ∧
    move.dst = some ⟨.slot place, stop - start⟩

/-- Pieces that clear ranges between members, the last up to a given end. -/
def Gaps (base : Int16) (size : Nat) (moves : List Move) : Prop :=
  ∀ move ∈ moves, ∃ start stop, start ≤ stop ∧ stop ≤ size ∧ Clears base start stop move

/-- A gap is cleared by one block. -/
theorem yields_clearGap {base : Int16} {start stop : Nat}
    (found : Yields (clearGap base start stop) ⟨stream, own⟩ () site) :
    (start < stop ∧ ∃ place, movedOffset base start = .ok place ∧
      ⟨stream.append (Block.clear place (stop - start)), own⟩ = site) ∨
    (stop ≤ start ∧ ⟨stream, own⟩ = site) := by
  unfold clearGap at found
  split at found
  · rename_i gap
    simp only [yields_bind_iff, yields_liftExcept_iff, yields_lift_iff, Emit.yields_clear_iff]
      at found
    obtain ⟨place, _, ⟨moved, rfl⟩, _, ⟨-, rfl⟩, same⟩ := found
    exact .inl ⟨gap, place, moved, same⟩
  · rename_i none
    exact .inr ⟨Nat.not_lt.mp none, (yields_pure_iff.mp found).2⟩

theorem moved_clearGap {base : Int16} {start stop : Nat}
    (found : Yields (clearGap base start stop) ⟨stream, own⟩ () site) :
    site.own = own ∧ ∃ moves, stream.Moved site.stream moves ∧
      ∀ move ∈ moves, start ≤ stop ∧ Clears base start stop move := by
  obtain ⟨gap, place, moved, rfl⟩ | ⟨-, rfl⟩ := yields_clearGap found
  · refine ⟨rfl, _,
      Stream.moved_one (Stream.extends_append (boundLabels_of_inert (Block.inert_zeros _ _)))
      (.clear place (stop - start)), ?_⟩
    intro move member
    obtain rfl := List.mem_singleton.mp member
    exact ⟨Nat.le_of_lt gap, rfl, place, moved, rfl⟩
  · exact ⟨rfl, [], .refl stream, fun _ member => by cases member⟩

/-- The place of a member in a struct literal. -/
def Member (base : Int16) (members : List (Field × Nat)) (index : Nat) (asked : Request) : Prop :=
  ∃ field distance place, members[index]? = some (field, distance) ∧
    movedOffset base distance = .ok place ∧ asked = Request.inSlot place

/-- What the plan of a struct literal appends and asks for. -/
theorem moved_planMembers {base : Int16} {stop last : Nat} {members : List (Field × Nat)}
    {args : List Node} {requests : List Request}
    (free : ∀ arg ∈ args, arg.storage.isAssigned = false)
    (found : Yields (planMembers base stop members args) ⟨stream, own⟩ (requests, last) site) :
    site.own = own ∧
      (∀ index asked, requests[index]? = some asked → Member base members index asked) ∧
      ∃ moves, stream.Moved site.stream moves ∧
        (∀ move ∈ moves, ∃ start stop, Clears base start stop move) ∧
        ∀ size, Field.Laid size stop members → last ≤ size ∧ Gaps base size moves := by
  induction args generalizing stop members requests stream own with
  | nil =>
      have none : planMembers base stop members [] = pure ([], stop) := by
        cases members <;> rfl
      rw [none] at found
      obtain ⟨same, rfl⟩ := yields_pure_iff.mp found
      cases same
      exact ⟨rfl, fun _ _ found => (by simp at found), [], .refl stream,
        fun _ member => (by cases member), fun size laid =>
          ⟨laid.le_size, fun _ member => by cases member⟩⟩
  | cons arg args ih =>
      cases members with
      | nil =>
          obtain ⟨same, rfl⟩ := yields_pure_iff.mp found
          cases same
          exact ⟨rfl, fun _ _ found => (by simp at found), [], .refl stream,
            fun _ member => (by cases member),
            fun size laid => ⟨laid.le_size, fun _ member => by cases member⟩⟩
      | cons member members =>
          obtain ⟨field, offset⟩ := member
          have unassigned := free arg List.mem_cons_self
          simp only [planMembers, unassigned, Bool.false_eq_true, if_false, yields_bind_iff,
            yields_liftExcept_iff, yields_pure_iff, Prod.mk.injEq] at found
          obtain ⟨_, between, cleared, place, _, ⟨reached, rfl⟩, _, _, ⟨rfl, rfl⟩,
            ⟨others, stop'⟩, _, rest, ⟨rfl, rfl⟩, rfl⟩ := found
          obtain ⟨same, moves, moved, gaps⟩ := moved_clearGap cleared
          obtain ⟨same', places, moves', moved', each, later⟩ :=
            ih (fun other member => free other (List.mem_cons_of_mem _ member)) rest
          refine ⟨same'.trans same, ?_, _, moved.trans moved', ?_, ?_⟩
          · intro index asked there
            cases index with
            | zero =>
                cases there
                exact ⟨field, offset, place, rfl, reached, rfl⟩
            | succ index => exact places index asked there
          · intro move member
            rcases List.mem_append.mp member with first | second
            · exact ⟨stop, offset, (gaps move first).2⟩
            · exact each move second
          · intro size laid
            obtain ⟨behind, rest⟩ := laid
            obtain ⟨ends, gaps'⟩ := later size rest
            refine ⟨ends, ?_⟩
            intro move member
            rcases List.mem_append.mp member with first | second
            · have bound := rest.le_size
              exact ⟨stop, offset, (gaps move first).1, by omega, (gaps move first).2⟩
            · exact gaps' move second

/-- Members that are in their places are not moved. -/
theorem copyMembers_in_place {base : Int16} {trees : List Node} {offsets : List Nat}
    (placed : ∀ (index : Nat) (tree : Node) (distance : Nat), trees[index]? = some tree →
      offsets[index]? = some distance → ∀ place, movedOffset base distance = .ok place →
        tree.storage.isAssigned = true → tree.storage.place = .slot place)
    (found : Yields (copyMembers base trees offsets) ⟨stream, own⟩ () site) :
    site = ⟨stream, own⟩ := by
  induction trees generalizing offsets with
  | nil =>
      cases offsets <;> exact (yields_pure_iff.mp found).2.symm
  | cons tree trees ih =>
      cases offsets with
      | nil => exact (yields_pure_iff.mp found).2.symm
      | cons distance offsets =>
          simp only [copyMembers, yields_bind_iff, yields_liftExcept_iff, yields_lift_iff,
            Emit.yields_reach_iff] at found
          obtain ⟨place, _, ⟨reached, rfl⟩, _, _, ⟨_, ⟨-, rfl⟩, rfl⟩, _, _, ⟨between, copied, rfl⟩,
            rest⟩ := found
          have stays : between = stream := by
            have here := placed 0 tree distance rfl rfl place reached
            rcases same : tree.storage with ⟨where_, size⟩
            rw [same] at here copied
            cases where_ with
            | unassigned => exact absurd copied Emit.not_yields_copyToSlot_unassigned
            | register reg => cases here rfl
            | slot start =>
                cases here rfl
                rw [Emit.yields_copyToSlot_slot_iff, Block.copy, if_pos rfl] at copied
                exact copied.symm
          subst stays
          exact ih (fun index => placed (index + 1)) rest

theorem assigned_of_copyMembers {base : Int16} {trees : List Node} {offsets : List Nat}
    (lengths : trees.length ≤ offsets.length)
    (found : Yields (copyMembers base trees offsets) ⟨stream, own⟩ () site) :
    ∀ tree ∈ trees, tree.storage.isAssigned = true := by
  induction trees generalizing offsets stream own with
  | nil => exact fun _ member => (by cases member)
  | cons tree trees ih =>
      cases offsets with
      | nil => exact absurd lengths (by simp)
      | cons distance offsets =>
          simp only [copyMembers, yields_bind_iff, yields_liftExcept_iff, yields_lift_iff,
            Emit.yields_reach_iff] at found
          obtain ⟨_, _, ⟨-, rfl⟩, _, _, ⟨_, ⟨-, rfl⟩, rfl⟩, _, _, ⟨_, copied, rfl⟩, rest⟩ := found
          intro other member
          rcases List.mem_cons.mp member with rfl | later
          · rcases same : other.storage with ⟨place, size⟩
            rw [same] at copied
            cases place with
            | unassigned => exact absurd copied Emit.not_yields_copyToSlot_unassigned
            | register _ | slot _ => rfl
          · exact ih (Nat.le_of_succ_le_succ lengths) rest other later

/-- The plan of a struct literal reserves its slot, clears the gaps in front of its
members and then the one behind them. -/
theorem plan_structLiteral {args : List Node} {type : Ty}
    (typed : (apply ":struct" args info).type? = some type)
    (found : Yields ((apply ":struct" args info).planApplication request) ⟨stream, {}⟩ plan site) :
    ∃ shape base middle between stop, type = .record shape ∧ stream.Extends middle [] ∧
      Owns type request.slot stream middle ⟨.slot base, type.size⟩ ∧
      Yields (planMembers base 0 (shape.fields.zip shape.offsets) args)
        ⟨middle, ⟨.slot base, type.size⟩⟩
        (plan.args, stop) between ∧ Yields (clearGap base stop type.size) between () site := by
  have found := planned_by rfl found
  have known : (apply ":struct" args info).knownType = .ok type := knownType_eq_ok_iff.mpr typed
  simp only [Operator.plan, planStructLiteral, literalShape, known, yields_bind_iff,
    yields_liftExcept_iff] at found
  obtain ⟨storage, ⟨middle, own'⟩, allocated, ⟨_, shape, base⟩, _, ⟨_, _, ⟨same, rfl⟩, shaped⟩,
    ⟨requests, stop⟩, between, places, _, last, cleared, planned⟩ := found
  cases same
  obtain ⟨same, extended, owns, -⟩ := owns_of_allocateFor typed allocated
  obtain rfl : own' = storage := same
  split at shaped
  · exact absurd shaped not_yields_throw
  · rename_i shape' record
    simp only [yields_bind_iff, yields_slotOf_iff, yields_pure_iff, Prod.mk.injEq] at shaped
    obtain ⟨_, _, ⟨placed, rfl⟩, ⟨rfl, rfl, rfl⟩, rfl⟩ := shaped
    obtain ⟨rfl, rfl⟩ := yields_pure_iff.mp planned
    have whole : own' = ⟨own'.place, type.size⟩ := by
      rw [← owns.sized (by simp [Storage.isAssigned, placed])]
    rw [placed] at whole
    subst whole
    exact ⟨shape', _, middle, between, stop, Ty.eq_of_record? record, extended,
      owns, places, cleared⟩

/-- What the plan of a struct literal reserves, clears and asks for. -/
theorem reserved_structLiteral {args : List Node} {type : Ty}
    (typed : (apply ":struct" args info).type? = some type)
    (free : ∀ arg ∈ args, arg.storage.isAssigned = false)
    (found : Yields ((apply ":struct" args info).planApplication request) ⟨stream, {}⟩ plan site) :
    ∃ shape base moves, type = .record shape ∧ site.own = ⟨.slot base, type.size⟩ ∧
      stream.Moved site.stream moves ∧
      Owns type request.slot stream site.stream site.own ∧
      (∀ index asked, plan.args[index]? = some asked →
        Member base (shape.fields.zip shape.offsets) index asked) ∧
      (∀ move ∈ moves, ∃ start stop, Clears base start stop move) ∧
      (shape.union = false → Gaps base type.size moves) := by
  obtain ⟨shape, base, middle, ⟨between, own⟩, stop, isRecord, extended, owns, places, cleared⟩ :=
    plan_structLiteral typed found
  obtain ⟨same, asked, moves, moved, each, gaps⟩ := moved_planMembers free places
  obtain rfl : own = ⟨.slot base, type.size⟩ := same
  obtain ⟨same, moves', moved', each'⟩ := moved_clearGap cleared
  refine ⟨shape, base, _, isRecord, same, (moved.trans moved').later extended,
    same ▸ owns.grown (moved.trans moved').extended, asked, ?_, ?_⟩
  · intro move member
    rcases List.mem_append.mp member with first | second
    · exact each move first
    · exact ⟨_, _, (each' move second).2⟩
  · intro struct
    have laid := Record.laid_of_struct struct
    rw [← isRecord] at laid
    obtain ⟨ends, inner⟩ := gaps type.size laid
    intro move member
    rcases List.mem_append.mp member with first | second
    · exact inner move first
    · exact ⟨_, _, (each' move second).1, Nat.le_refl _, (each' move second).2⟩

/-- What is appended for a struct literal copies its members. -/
theorem copied_of_structLiteral {trees : List Node} {shape : Record} {base : Int16} {size : Nat}
    (typed : (apply ":struct" trees info).type? = some (.record shape))
    (whole : (apply ":struct" trees info).storage = ⟨.slot base, size⟩)
    (found : Yields ((apply ":struct" trees info).finishApplication symbols request)
      ⟨middle, own⟩ () finish) : Yields (copyMembers base trees shape.offsets)
        ⟨middle, own⟩ () finish := by
  have found := finished_by rfl found
  have known : (apply ":struct" trees info).knownType = .ok (.record shape) :=
    knownType_eq_ok_iff.mpr typed
  simp only [Operator.emit, emitStructLiteral, known, whole, yields_bind_iff, yields_liftExcept_iff,
    yields_slotOf_iff] at found
  obtain ⟨_, _, ⟨same, rfl⟩, start, _, ⟨same', rfl⟩, copied⟩ := found
  cases same
  cases same'
  exact copied

/-- Nothing is appended for a struct literal whose arguments are in their
places. -/
theorem finished_structLiteral {trees : List Node} {shape : Record} {base : Int16} {size : Nat}
    {requests : List Request} {places : List (Field × Nat)}
    (typed : (apply ":struct" trees info).type? = some (.record shape))
    (whole : (apply ":struct" trees info).storage = ⟨.slot base, size⟩)
    (members : places = shape.fields.zip shape.offsets) (lengths : requests.length = trees.length)
    (asked : ∀ index asked, requests[index]? = some asked → Member base places index asked)
    (placed : ∀ (index : Nat) (tree : Node) (asked : Request), trees[index]? = some tree →
      requests[index]? = some asked → tree.Placed asked)
    (found : Yields ((apply ":struct" trees info).finishApplication symbols request)
      ⟨middle, own⟩ () finish) :
    finish = ⟨middle, own⟩ := by
  refine copyMembers_in_place ?_ (copied_of_structLiteral typed whole found)
  intro index tree distance here there place reached assigned
  have inside : index < requests.length := by
    rw [lengths]
    exact (List.getElem?_eq_some_iff.mp here).1
  have request := List.getElem?_eq_getElem inside
  obtain ⟨field, distance', place', member, reached', same⟩ := asked index _ request
  rw [members, List.getElem?_zip_eq_some] at member
  rw [there] at member
  cases member.2
  rw [reached] at reached'
  cases reached'
  exact (placed index tree _ here request).obeyed place (by rw [same]; rfl) assigned

end Node

end TraceProbe
