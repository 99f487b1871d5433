import TraceProbe.Proofs.Emission.Elements

/-!
# Bytes and strings

What is appended for reads of bytes and strings, and for comparisons.
-/

namespace TraceProbe

open Insn

theorem Ty.ne_void_of_isString {type : Ty} (string : type.isString = true) : type ≠ .void := by
  rintro rfl
  cases string

namespace Comparand

variable {comparand : Comparand} {dst : Reg} {base : Int16} {done : Label} {position left : Nat}
  {code : List Insn}

theorem noLabels_subtract (found : comparand.subtract dst position = .ok code) :
    boundLabels code = [] := by
  cases comparand with
  | slot offset =>
      obtain ⟨place, -, found⟩ := ok_of_bind found
      cases found
      rfl
  | literal bytes =>
      cases found
      rfl

theorem noLabels_compareFrom
    (found : comparand.compareFrom dst base done position left = .ok code) :
    boundLabels code = [] := by
  induction left generalizing position code with
  | zero =>
      cases found
      rfl
  | succ left ih =>
      rw [compareFrom] at found
      obtain ⟨place, -, found⟩ := ok_of_bind found
      obtain ⟨difference, subtracted, found⟩ := ok_of_bind found
      have compared : boundLabels (load Width.byte.bits dst .frame place :: difference) = [] :=
        show boundLabels difference = [] from noLabels_subtract subtracted
      simp only at found
      split at found
      · cases found
        exact compared
      · obtain ⟨rest, continued, found⟩ := ok_of_bind found
        cases found
        have leaving : boundLabels (comparand.leave dst done) = [] := by cases comparand <;> rfl
        rw [boundLabels_append, boundLabels_append, compared, leaving, ih continued]
        rfl

end Comparand

namespace Node

open AtSite

variable {symbols : Symbols} {request : Request} {middle finish : Stream} {own : Storage}
  {sure : Prop} {type : Ty} {literal : List Ty → Ty → Prop} {info : Info} {source : Node}
  {rest : List Node}

/-- A read of bytes goes to storage of its type. -/
theorem yields_mem (typed : (apply "mem" (source :: rest) info).type? = some type)
    (found : Yields ((apply "mem" (source :: rest) info).finishApplication symbols request)
      ⟨middle, {}⟩ () ⟨finish, own⟩) :
    ∃ stream, middle.Extends stream [] ∧ Owns type request.slot middle stream own ∧
      ReadBehind (source :: rest) own stream finish := by
  have found := finished_by rfl found
  have first : (apply "mem" (source :: rest) info).argument 0 = .ok source := rfl
  simp only [Operator.emit, emitMem, first, yields_bind_iff, yields_liftExcept_iff,
    yields_lift_iff] at found
  obtain ⟨storage, ⟨stream, own'⟩, allocated, _, _, ⟨same, rfl⟩, _, _, ⟨_, loaded, rfl⟩, _, read,
    same'⟩ := found
  cases same
  obtain ⟨same, extended, owns, -⟩ := owns_of_allocateFor typed allocated
  obtain rfl : own' = storage := same
  cases same'
  obtain ⟨code, loads, rfl⟩ := Emit.loads_of_yields loaded
  exact ⟨stream, extended, owns, _, _, code, .value (.inr rfl) loads,
    operands_of_mem List.mem_cons_self, read⟩

theorem finishes_mem (typed : (apply "mem" (source :: rest) info).type? = some type)
    (found : Yields ((apply "mem" (source :: rest) info).finishApplication symbols request)
      ⟨middle, {}⟩ () ⟨finish, own⟩) :
    ∃ moves, Finishes sure type request.slot (source :: rest) middle finish own moves := by
  obtain ⟨stream, extended, owns, read⟩ := yields_mem typed found
  exact finishes_read read extended owns

/-- A string is read into a buffer that is cleared first. -/
theorem yields_str (typed : (apply "str" (source :: rest) info).type? = some type)
    (found : Yields ((apply "str" (source :: rest) info).finishApplication symbols request)
      ⟨middle, {}⟩ () ⟨finish, own⟩) :
    ∃ stream offset code, middle.Extends stream [] ∧ Owns type request.slot middle stream own ∧
      own = ⟨.slot offset, own.size⟩ ∧ Emit.Loads .r3 source.storage code ∧
      finish = stream.append (Block.clear offset own.size ++ (code ++ (Block.address .r1 offset ++
        [movImm .r2 (Int32.ofNat own.size), callOf .probeReadStr]))) := by
  have found := finished_by rfl found
  have first : (apply "str" (source :: rest) info).argument 0 = .ok source := rfl
  simp only [Operator.emit, emitStr, first, yields_bind_iff, yields_liftExcept_iff,
    yields_lift_iff, yields_slotOf_iff, Emit.yields_clear_iff, Emit.yields_code_iff,
    Emit.yields_insn_iff] at found
  obtain ⟨storage, ⟨stream, own'⟩, allocated, offset, _, ⟨placed, rfl⟩, _, _,
    ⟨_, ⟨-, rfl⟩, rfl⟩, _, _, ⟨same, rfl⟩, _, _, ⟨_, loaded, rfl⟩, _, _, ⟨_, rfl, rfl⟩, _, _,
    ⟨_, rfl, rfl⟩, _, rfl, same'⟩ :=
    found
  cases same
  obtain ⟨same, extended, owns, -⟩ := owns_of_allocateFor typed allocated
  obtain rfl : own' = storage := same
  cases same'
  obtain ⟨code, loads, rfl⟩ := Emit.loads_of_yields loaded
  refine ⟨stream, offset, code, extended, owns, by rw [← placed], loads, ?_⟩
  simp only [Emit.append_append, List.append_assoc, List.cons_append, List.nil_append]

theorem finishes_str (typed : (apply "str" (source :: rest) info).type? = some type)
    (found : Yields ((apply "str" (source :: rest) info).finishApplication symbols request)
      ⟨middle, {}⟩ () ⟨finish, own⟩) :
    ∃ moves, Finishes sure type request.slot (source :: rest) middle finish own moves := by
  obtain ⟨stream, offset, code, extended, owns, whole, loads, rfl⟩ := yields_str typed found
  have cleared : stream.Moved (stream.append (Block.clear offset own.size))
      [⟨some ⟨.slot offset, own.size⟩, [], Block.clear offset own.size⟩] :=
    Stream.moved_one (Stream.extends_append (boundLabels_of_inert (Block.inert_zeros _ _)))
      (.clear offset own.size)
  have noLabels : boundLabels (code ++ (Block.address .r1 offset ++
      [movImm .r2 (Int32.ofNat own.size), callOf .probeReadStr])) = [] := by
    rw [boundLabels_append, loads.noLabels]
    rfl
  have moved := cleared.trans
    (Stream.moved_one (Stream.extends_append noLabels) (.readText offset own.size loads))
  rw [Emit.append_append, ← whole] at moved
  refine ⟨_, moved.later extended, owns.grown moved.extended, ?_, ?_,
    fun _ _ => ⟨_, List.mem_cons_self, rfl⟩⟩
  · intro move member src among
    rcases List.mem_cons.mp member with rfl | last
    · cases among
    · obtain rfl := List.mem_singleton.mp last
      exact readable_operand (operands_of_mem List.mem_cons_self src among)
  · intro move member dst same
    rcases List.mem_cons.mp member with rfl | last
    · exact .inl (Option.some.inj same).symm
    · obtain rfl := List.mem_singleton.mp last
      exact .inl (Option.some.inj same).symm

theorem comparisonOperands_eq {left right first second : Node} {swapped : Bool} {site after : Site}
    (found : Yields (comparisonOperands (apply "strcmp" [left, right] info)) site
      (first, second, swapped) after) :
    (first = left ∧ second = right ∨ first = right ∧ second = left) ∧ after = site := by
  simp only [comparisonOperands, args] at found
  split at found
  · obtain ⟨same, rfl⟩ := yields_pure_iff.mp found
    cases same
    exact ⟨.inr ⟨rfl, rfl⟩, rfl⟩
  · obtain ⟨same, rfl⟩ := yields_pure_iff.mp found
    cases same
    exact ⟨.inl ⟨rfl, rfl⟩, rfl⟩

/-- The second operand of a comparison is in the frame, or a literal. -/
theorem comparandOf_eq {node : Node} {comparand : Comparand} {site after : Site}
    (found : Yields (comparandOf node) site comparand after) :
    after = site ∧ ((∃ offset, node.storage = ⟨.slot offset, node.storage.size⟩ ∧
        comparand = .slot offset) ∨
      ∃ value, node.str? = some value ∧ comparand = .literal (value.toUTF8.toList ++ [0])) := by
  unfold comparandOf at found
  split at found
  · rename_i value text
    obtain ⟨rfl, rfl⟩ := yields_pure_iff.mp found
    exact ⟨rfl, .inr ⟨value, text, rfl⟩⟩
  · simp only [yields_bind_iff, yields_pure_iff] at found
    obtain ⟨offset, _, sited, rfl, rfl⟩ := found
    obtain ⟨slot, rfl⟩ := slot_of_storage sited
    exact ⟨rfl, .inl ⟨offset, slot, rfl⟩⟩

/-- What the operands of a comparison are known to be. -/
structure Compared (node : Node) : Prop where
  stored : node.Stored
  positive : node.storage.isAssigned = true → 0 < node.storage.size
  string : ∃ type, node.type? = some type ∧ type.isString = true

theorem Compared.size_of_slot {node : Node} (compared : node.Compared) {type : Ty} {offset : Int16}
    (known : node.type? = some type) (slot : node.storage = ⟨.slot offset, node.storage.size⟩) :
    node.storage.size = type.size ∧ 0 < type.size := by
  obtain ⟨other, same, string⟩ := compared.string
  rw [known] at same
  cases same
  have assigned := assigned_of_slot slot
  have sized := compared.stored.sized type known (Ty.ne_void_of_isString string) assigned
  exact ⟨sized, sized ▸ compared.positive assigned⟩

/-- The second operand of a comparison is stored in a string of its own, or it is
a literal. -/
theorem Compared.comparand {node : Node} (compared : node.Compared) {type : Ty}
    {comparand : Comparand} {length : Nat} (known : node.type? = some type)
    (short : length ≤ type.size)
    (found : (∃ offset, node.storage = ⟨.slot offset, node.storage.size⟩ ∧
        comparand = .slot offset) ∨
      ∃ value, node.str? = some value ∧ comparand = .literal (value.toUTF8.toList ++ [0])) :
    0 < type.size ∧ ∃ others, comparand.Stored length others ∧
      ∀ src ∈ others, src = node.storage := by
  rcases found with ⟨offset, slot, rfl⟩ | ⟨value, text, rfl⟩
  · obtain ⟨sized, positive⟩ := compared.size_of_slot known slot
    refine ⟨positive, [node.storage], ?_, fun src member => List.mem_singleton.mp member⟩
    rw [slot]
    exact .slot offset (by rw [sized]; exact short)
  · have typed := compared.stored.literal value text
    rw [known] at typed
    cases typed
    exact ⟨size_literalType_pos value, [], .literal _, fun src member => by cases member⟩

/-- A comparison gets storage, compares from the first byte on, and stores what
is left in a register. -/
theorem yields_strcmp {left right : Node}
    (typed : (apply "strcmp" [left, right] info).type? = some type)
    (found : Yields ((apply "strcmp" [left, right] info).finishApplication symbols request)
      ⟨middle, {}⟩ () ⟨finish, own⟩) :
    ∃ (stream : Stream) (first second : Node) (swapped : Bool) (base : Int16)
      (comparand : Comparand)
      (firstType secondType : Ty) (done : Label) (code code' : List Insn),
      middle.Extends stream [] ∧ Owns type request.slot middle stream own ∧
      (first = left ∧ second = right ∨ first = right ∧ second = left) ∧
      first.storage = ⟨.slot base, first.storage.size⟩ ∧ first.type? = some firstType ∧
      second.type? = some secondType ∧
      ((∃ offset, second.storage = ⟨.slot offset, second.storage.size⟩ ∧ comparand = .slot offset) ∨
        ∃ value, second.str? = some value ∧ comparand = .literal (value.toUTF8.toList ++ [0])) ∧
      comparand.compareFrom (own.register?.getD .r0) base done 0
        (min firstType.size secondType.size) =
        .ok code ∧
      Emit.Stores (own.register?.getD .r0) own code' ∧
      stream.Extends finish (code ++ (label done ::
        ((if swapped then [alu64Imm Opcode.neg (own.register?.getD .r0) 0] else []) ++
          code'))) := by
  have found := finished_by rfl found
  simp only [Operator.emit, emitStrcmp, yields_bind_iff, yields_liftExcept_iff, yields_lift_iff,
    Emit.yields_code_iff, Emit.yields_freshLabel_iff, Emit.yields_bind_label_iff] at found
  obtain ⟨storage, ⟨stream, own'⟩, allocated, ⟨first, second, swapped⟩, _, chosen, base, _, sited,
    comparand, _, against, firstType, _, ⟨known, rfl⟩, secondType, _, ⟨known', rfl⟩, done, _,
    ⟨_, ⟨isDone, rfl⟩, rfl⟩, code, _, ⟨compares, rfl⟩, _, _, ⟨_, rfl, rfl⟩, _, _,
    ⟨_, ⟨free, rfl⟩, rfl⟩, found⟩ := found
  obtain ⟨same, extended, owns, -⟩ := owns_of_allocateFor typed allocated
  obtain rfl : own' = storage := same
  obtain ⟨operands, rfl⟩ := comparisonOperands_eq chosen
  obtain ⟨slot, rfl⟩ := slot_of_storage sited
  obtain ⟨rfl, second'⟩ := comparandOf_eq against
  let dst := own'.register?.getD .r0
  have tail : ∃ code', Emit.Stores dst own' code' ∧ own = own' ∧
      finish =
        (Emit.bound ({ stream with labels := stream.labels.push false }.append code) done).append
        ((if swapped then [alu64Imm Opcode.neg dst 0] else []) ++ code') := by
    cases swapped with
    | true =>
        simp only [if_true, yields_bind_iff, yields_lift_iff, Emit.yields_insn_iff] at found
        obtain ⟨_, _, ⟨_, rfl, rfl⟩, _, put, same⟩ := found
        cases same
        obtain ⟨code', stores, rfl⟩ := Emit.stores_of_yields put
        exact ⟨code', stores, rfl, Emit.append_append _ _ _⟩
    | false =>
        obtain ⟨_, put, same⟩ := yields_lift_iff.mp found
        cases same
        obtain ⟨code', stores, rfl⟩ := Emit.stores_of_yields put
        exact ⟨code', stores, rfl, rfl⟩
  obtain ⟨code', stores, rfl, rfl⟩ := tail
  have noLabels : boundLabels ((if swapped then [alu64Imm Opcode.neg dst 0] else []) ++ code') =
      [] := by
    rw [boundLabels_append, stores.noLabels]
    cases swapped <;> rfl
  have grown := ((Stream.extends_freshLabel.trans
    (Stream.extends_append (Comparand.noLabels_compareFrom compares))).trans
      (Stream.extends_bound free)).trans (Stream.extends_append noLabels)
  exact ⟨stream, first, second, swapped, base, comparand, firstType, secondType, done, code, code',
    extended, owns, operands, slot, knownType_eq_ok_iff.mp known, knownType_eq_ok_iff.mp known',
    second', compares, stores, by simpa using grown⟩

theorem finishes_strcmp {left right : Node}
    (typed : (apply "strcmp" [left, right] info).type? = some type)
    (compared : ∀ tree ∈ [left, right], tree.Compared)
    (found : Yields ((apply "strcmp" [left, right] info).finishApplication symbols request)
      ⟨middle, {}⟩ () ⟨finish, own⟩) :
    ∃ moves, Finishes sure type request.slot [left, right] middle finish own moves := by
  obtain ⟨stream, first, second, swapped, base, comparand, firstType, secondType, done, code, code',
    extended, owns, operands, slot, knownFirst, knownSecond, second', compares, stores, grown⟩ :=
      yields_strcmp typed found
  have members : first ∈ [left, right] ∧ second ∈ [left, right] := by
    rcases operands with ⟨rfl, rfl⟩ | ⟨rfl, rfl⟩ <;> simp
  obtain ⟨sized, positive⟩ := (compared first members.1).size_of_slot knownFirst slot
  have short : min firstType.size secondType.size ≤ secondType.size := Nat.min_le_right _ _
  obtain ⟨positive', others, stored, among⟩ :=
    (compared second members.2).comparand knownSecond short second'
  have short : min firstType.size secondType.size ≤ first.storage.size := by
    rw [sized]
    exact Nat.min_le_left _ _
  have piece := Piece.compare swapped (Nat.lt_min.mpr ⟨positive, positive'⟩) short stored compares
    stores
  rw [← slot] at piece
  have moved : stream.Moved finish [⟨some own, first.storage :: others, _⟩] :=
    Stream.moved_one grown piece
  refine ⟨_, .one extended owns moved ?_⟩
  intro src member
  rcases List.mem_cons.mp member with rfl | later
  · exact readable_operand (operand_of_mem members.1)
  · rw [among src later]
    exact readable_operand (operand_of_mem members.2)

end Node

end TraceProbe
