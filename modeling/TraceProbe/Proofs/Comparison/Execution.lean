import TraceProbe.Proofs.Comparison.Runs
import TraceProbe.Proofs.Emission.Trees

/-!
# Executed comparisons

A comparison of two strings in the frame, or of one with a literal, leaves the
difference of its operands in its destination, whichever operand is the literal
and whatever the destination is.
-/

namespace TraceProbe

open Symbolic Comparison

/-- The signed number that a storage holds. -/
def Machine.integer {World : Type} (machine : Machine World) (storage : Storage) : Int :=
  match storage.place with
  | .register reg => (machine.regs reg).toInt64.toInt
  | .slot offset =>
      Int.bmod (fromLittleEndian (machine.slot offset storage.size)) (256 ^ storage.size)
  | .unassigned => 0

namespace Node

/-- What may be compared: a literal, or bytes in the frame. -/
inductive Comparable (node : Node) : Prop
  | literal {value : String} : node.str? = some value →
      node.type? = some (literalType value) → Comparable node
  | slot {type : Ty} {offset : Int16} : node.str? = none → node.type? = some type →
      node.storage.place = .slot offset → 0 < type.size → offset.toInt + type.size ≤ 0 →
      Comparable node

/-- The bytes of an operand, with the zero behind a literal. -/
def bytes {World : Type} (machine : Machine World) (node : Node) : List UInt8 :=
  match node.str?, node.storage.slot?, node.type? with
  | some value, _, _ => value.toUTF8.toList ++ [0]
  | none, some offset, some type => machine.slot offset type.size
  | _, _, _ => []

end Node

namespace AtSite

open Node Insn

variable {World : Type} (env : Environment World) {machine finish : Machine World}
  {left right first second node : Node} {info : Info} {request : Request} {stream : Stream}
  {own : Storage} {site middle : Site} {type : Ty} {base offset : Int16} {dst : Reg}

/-- A destination for an integer: a virtual register, or a slot of four bytes. -/
def Destination (own : Storage) : Prop :=
  (∃ number, own = ⟨.register (.virtual number), 4⟩) ∨ ∃ offset, own = ⟨.slot offset, 4⟩

theorem destination_of_allocateFor (typed : node.type? = some .int)
    (allocated : Yields (allocateFor node request) ⟨stream, {}⟩ own middle) :
    middle.own = own ∧ middle.stream.code = stream.code ∧ Destination own := by
  obtain ⟨same, extended, -⟩ := owns_of_allocateFor typed allocated
  refine ⟨same, extended.code.trans (List.append_nil _), ?_⟩
  obtain ⟨type, known, allocated⟩ := yields_allocateFor_iff.mp allocated
  obtain rfl := Option.some.inj (typed.symm.trans known)
  have free : Storage.isAssigned {} = false := rfl
  have size : Ty.int.size = 4 := rfl
  rw [yields_allocate_iff] at allocated
  simp only [free, Bool.false_eq_true, if_false] at allocated
  obtain ⟨place, fresh, found, rfl, -⟩ := allocated
  rw [yields_freshPlace_iff] at found
  cases slot : request.slot with
  | some offset =>
      rw [slot] at found
      exact .inr ⟨offset, by rw [← found.1, size]⟩
  | none =>
      rw [slot] at found
      simp only at found
      split at found
      · exact .inl ⟨_, by rw [← found.1, size]⟩
      · rw [if_pos (by decide)] at found
        obtain ⟨offset, -, rfl⟩ := found
        exact .inr ⟨offset, by rw [size]⟩

/-- The register in which a result is computed. -/
def resultReg (own : Storage) : Reg :=
  own.register?.getD .r0

theorem Destination.resultReg_ne (destination : Destination own) :
    resultReg own ≠ .frame ∧ resultReg own ≠ .r1 := by
  rcases destination with ⟨number, rfl⟩ | ⟨offset, rfl⟩
  · exact ⟨Reg.noConfusion, Reg.noConfusion⟩
  · exact ⟨show Reg.r0 ≠ .frame by decide, show Reg.r0 ≠ .r1 by decide⟩

/-- The code that puts a result into its destination. -/
def storeCode (own : Storage) : List Insn :=
  match own.place with
  | .slot offset => [.store Width.word.bits .frame (resultReg own) offset]
  | _ => []

theorem Destination.yields_storeReg (destination : Destination own) (stream : Stream) :
    Yields (Emit.storeReg own (resultReg own)) stream () (stream.append (storeCode own)) := by
  rcases destination with ⟨number, rfl⟩ | ⟨offset, rfl⟩
  · exact Emit.yields_storeReg_register_iff.mpr (by simp [resultReg, Storage.register?, storeCode])
  · exact Emit.yields_storeReg_slot_iff.mpr ⟨.word, rfl, rfl⟩

theorem toInt_ofInt {value : Int} (low : -2 ^ 31 ≤ value) (high : value < 2 ^ 31) :
    (UInt64.ofInt value).toInt64.toInt = value := by
  rw [toInt_toInt64, toNat_ofInt]
  split <;> omega

/-- A small result is the number that its destination holds in the end. -/
theorem Destination.runs_store (destination : Destination own) {value : Int}
    (result : machine.regs (resultReg own) = UInt64.ofInt value) (low : -2 ^ 31 ≤ value)
    (high : value < 2 ^ 31) :
    ∃ finish, Runs env (storeCode own) machine finish ∧ finish.integer own = value := by
  rcases destination with ⟨number, rfl⟩ | ⟨offset, rfl⟩
  · refine ⟨machine, .nil machine, ?_⟩
    have here : machine.regs (.virtual number) = UInt64.ofInt value := result
    show (machine.regs (.virtual number)).toInt64.toInt = value
    rw [here, toInt_ofInt low high]
  · have here : machine.regs .r0 = UInt64.ofInt value := result
    let stored := machine.store .word (machine.address .frame offset) (machine.regs .r0)
    refine ⟨stored, run_store env machine [] .word .frame .r0 offset, ?_⟩
    have bytes : stored.slot offset 4 = littleEndian 4 (UInt64.ofInt value).toNat := by
      rw [← here]
      exact Memory.read_write machine.memory (machine.address .frame offset)
        (show (littleEndian 4 _).length ≤ 2 ^ 32 by rw [length_littleEndian]; decide)
    show Int.bmod (fromLittleEndian (stored.slot offset 4)) (256 ^ 4) = value
    rw [bytes, fromLittleEndian_littleEndian, toNat_ofInt, Int.bmod_def]
    split <;> omega

/-- The first operand of a comparison is in the frame. -/
theorem exists_slot (fits : first.Comparable) (value : first.str? = none) :
    ∃ (type : Ty) (base : Int16), first.type? = some type ∧ 0 < type.size ∧
      base.toInt + type.size ≤ 0 ∧ (∀ site, Yields (slotOfNode first) site base site) ∧
      ∀ {World : Type} (machine : Machine World), (first.bytes machine).length = type.size ∧
        machine.Holds base (first.bytes machine) := by
  cases fits with
  | literal text typed => cases value.symm.trans text
  | @slot type base plain typed placed positive inside =>
      have found : first.storage.slot? = some base := by rw [Storage.slot?, placed]
      refine ⟨type, base, typed, positive, inside,
        fun site => yields_slotOf_iff.mpr ⟨placed, rfl⟩, fun {World} machine => ?_⟩
      have bytes : first.bytes machine = machine.slot base type.size := by
        rw [Node.bytes, plain, found, typed]
      rw [bytes]
      exact ⟨Machine.length_slot _ _ _, by rw [Machine.length_slot]; exact inside,
        by rw [Machine.length_slot]⟩

/-- The second operand of a comparison is in the frame or a literal. -/
theorem exists_comparand (fits : second.Comparable) :
    ∃ (type : Ty) (comparand : Comparand), second.type? = some type ∧ 0 < type.size ∧
      (∀ site, Yields (comparandOf second) site comparand site) ∧
      (∀ dst, ∀ position < type.size, ∃ code, comparand.subtract dst position = .ok code) ∧
      ∀ {World : Type} (machine : Machine World), (second.bytes machine).length = type.size ∧
        comparand.Shows machine (second.bytes machine) := by
  cases fits with
  | @literal value text typed =>
      have length : (value.toUTF8.toList ++ [0]).length = (literalType value).size := by
        rw [List.length_append, length_toList, size_literalType]
        simp
      refine ⟨literalType value, .literal (value.toUTF8.toList ++ [0]), typed,
        size_literalType_pos value, fun site => ?_, fun dst position _ =>
          ⟨_, rfl⟩, fun {World} machine => ?_⟩
      · rw [comparandOf, text]
        rfl
      · have bytes : second.bytes machine = value.toUTF8.toList ++ [0] := by rw [Node.bytes, text]
        rw [bytes]
        exact ⟨length, .literal _⟩
  | slot plain typed placed positive inside =>
      obtain ⟨type, base, typed, positive, inside, sited, bytes⟩ :=
        exists_slot (.slot plain typed placed positive inside) plain
      refine ⟨type, .slot base, typed, positive, fun site => ?_, fun dst position within => ?_,
        fun {World} machine => ⟨(bytes machine).1, .slot (bytes machine).2⟩⟩
      · rw [comparandOf, plain]
        exact yields_bind_iff.mpr ⟨base, site, sited site, rfl⟩
      · obtain ⟨place, moved⟩ := movedOffset_inside inside within
        exact ⟨_, by rw [Comparand.subtract, moved]; rfl⟩

/-- What turns the sign of a result. -/
def turnCode (swapped : Bool) (dst : Reg) : List Insn :=
  if swapped then [.alu64Imm Opcode.neg dst 0] else []

theorem runs_turn (swapped : Bool) {value : Int} (result : machine.regs dst = UInt64.ofInt value) :
    ∃ finish, Runs env (turnCode swapped dst) machine finish ∧
      finish.regs dst = UInt64.ofInt (if swapped then -value else value) := by
  cases swapped with
  | false => exact ⟨machine, .nil machine, result⟩
  | true =>
      refine ⟨machine.set dst (-machine.regs dst), run_negate env machine [] dst, ?_⟩
      rw [Machine.regs_set_self, result, if_pos rfl]
      apply UInt64.toNat_inj.mp
      rw [UInt64.toNat_neg, toNat_ofInt, toNat_ofInt]
      show (2 ^ 64 - _) % 2 ^ 64 = _
      omega

/-- The operands in the order in which they are compared, the first of them in the
frame. -/
structure Arranged (left right first second : Node) (swapped : Bool) : Prop where
  yields : ∀ info site, Yields (comparisonOperands (.apply "strcmp" [left, right] info)) site
    (first, second, swapped) site
  inFrame : first.str? = none
  fits : first.Comparable
  fits' : second.Comparable
  operands : if swapped then first = right ∧ second = left else first = left ∧ second = right

theorem exists_arranged (leftFits : left.Comparable) (rightFits : right.Comparable)
    (inFrame : left.str? = none ∨ right.str? = none) :
    ∃ first second swapped, Arranged left right first second swapped := by
  cases text : left.str? with
  | none =>
      refine ⟨left, right, false, ⟨?_, text, leftFits, rightFits, ⟨rfl, rfl⟩⟩⟩
      intro info site
      simp [comparisonOperands, args, text]
  | some value =>
      have plain := inFrame.resolve_left (by rw [text]; exact Option.some_ne_none value)
      refine ⟨right, left, true, ⟨?_, plain, rightFits, leftFits, ⟨rfl, rfl⟩⟩⟩
      intro info site
      simp [comparisonOperands, args, text]

/-- The result of a comparison in either order. -/
theorem Arranged.difference {swapped : Bool} (arranged : Arranged left right first second swapped)
    (machine : Machine World) :
    (if swapped then -difference (first.bytes machine) (second.bytes machine)
      else difference (first.bytes machine) (second.bytes machine)) =
      difference (left.bytes machine) (right.bytes machine) := by
  have operands := arranged.operands
  cases swapped with
  | false =>
      obtain ⟨rfl, rfl⟩ : first = left ∧ second = right := operands
      rfl
  | true =>
      obtain ⟨rfl, rfl⟩ : first = right ∧ second = left := operands
      exact (difference_comm (first.bytes machine) (second.bytes machine)).symm

/-- The stream behind a comparison. -/
def compared (stream : Stream) (code : List Insn) (swapped : Bool) (own : Storage) : Stream :=
  ((Emit.bound ({ stream with labels := stream.labels.push false }.append code)
    ⟨stream.labels.size⟩).append (turnCode swapped (resultReg own))).append (storeCode own)

theorem code_compared (stream : Stream) (code : List Insn) (swapped : Bool) (own : Storage) :
    (compared stream code swapped own).code =
      stream.code ++ (code ++ [.label ⟨stream.labels.size⟩] ++
        (turnCode swapped (resultReg own) ++ storeCode own)) := by
  simp [compared, Emit.bound, Stream.code, Stream.append]

theorem yields_emitStrcmp {swapped : Bool} {comparand : Comparand} {firstType secondType : Ty}
    {code : List Insn} (arranged : Arranged left right first second swapped)
    (allocated : Yields (allocateFor (.apply "strcmp" [left, right] info) request) ⟨stream, {}⟩ own
      middle)
    (assigned : middle.own = own) (destination : Destination own)
    (sited : Yields (slotOfNode first) middle base middle)
    (against : Yields (comparandOf second) middle comparand middle)
    (typed : first.type? = some firstType) (typed' : second.type? = some secondType)
    (compares : comparand.compareFrom (resultReg own) base ⟨middle.stream.labels.size⟩ 0
      (min firstType.size secondType.size) = .ok code) :
    Yields (emitStrcmp (.apply "strcmp" [left, right] info) request) ⟨stream, {}⟩ ()
      ⟨compared middle.stream code swapped own, own⟩ := by
  simp only [emitStrcmp, yields_bind_iff, yields_liftExcept_iff, yields_lift_iff,
    Emit.yields_code_iff, Emit.yields_freshLabel_iff, Emit.yields_bind_label_iff]
  refine ⟨own, middle, allocated, (first, second, swapped), middle,
    arranged.yields info middle, base, middle, sited, comparand, middle, against, firstType, middle,
    ⟨knownType_eq_ok_iff.mpr typed, rfl⟩, secondType, middle, ⟨knownType_eq_ok_iff.mpr typed', rfl⟩,
    ⟨middle.stream.labels.size⟩, _, ⟨_, ⟨rfl, rfl⟩, rfl⟩, code, _, ⟨compares, rfl⟩, (), _,
    ⟨_, rfl, rfl⟩, (), _, ⟨_, ⟨?_, rfl⟩, rfl⟩, ?_⟩
  · exact Array.getElem?_push_size
  · have stores := destination.yields_storeReg
      ((Emit.bound ({ middle.stream with labels := middle.stream.labels.push false }.append code)
        ⟨middle.stream.labels.size⟩).append (turnCode swapped (resultReg own)))
    cases swapped with
    | false => exact yields_lift_iff.mpr ⟨_, stores, by rw [← assigned]; rfl⟩
    | true =>
        refine yields_bind_iff.mpr ⟨(), _,
          yields_lift_iff.mpr ⟨_, Emit.yields_insn_iff.mpr rfl, rfl⟩, ?_⟩
        exact yields_lift_iff.mpr ⟨_, stores, by rw [← assigned]; rfl⟩

/-- A comparison of two strings in the frame, or of one with a literal in either
place, has code.  Executed in any machine, the code leaves the difference of the
operands in the destination.  Its sign is their order as far as both arrays
reach, and as a whole if both end within their arrays; exchanged operands have
the opposite difference. -/
theorem strcmp_executes (leftFits : left.Comparable) (rightFits : right.Comparable)
    (inFrame : left.str? = none ∨ right.str? = none)
    (typed : (apply "strcmp" [left, right] info).type? = some .int)
    (allocated : Yields (allocateFor (.apply "strcmp" [left, right] info) request) ⟨stream, {}⟩ own
      middle) :
    ∃ finish added, Yields (emitStrcmp (.apply "strcmp" [left, right] info) request) ⟨stream, {}⟩ ()
        ⟨finish, own⟩ ∧
      finish.code = stream.code ++ added ∧
      ∀ {World : Type} (env : Environment World) (machine : Machine World),
        ∃ last, Runs env added machine last ∧
          last.integer own = difference (left.bytes machine) (right.bytes machine) ∧
          compare (last.integer own) 0 =
            strncmp (min (left.bytes machine).length (right.bytes machine).length)
              (left.bytes machine) (right.bytes machine) ∧
          (0 ∈ left.bytes machine → 0 ∈ right.bytes machine →
            compare (last.integer own) 0 = strcmp (left.bytes machine) (right.bytes machine)) ∧
          last.integer own = -difference (right.bytes machine) (left.bytes machine) := by
  obtain ⟨assigned, sameCode, destination⟩ := destination_of_allocateFor typed allocated
  obtain ⟨first, second, swapped, arranged⟩ := exists_arranged leftFits rightFits inFrame
  obtain ⟨firstType, base, known, positive, inside, sited, firstBytes⟩ :=
    exists_slot arranged.fits arranged.inFrame
  obtain ⟨secondType, comparand, known', positive', against, subtracts, secondBytes⟩ :=
    exists_comparand arranged.fits'
  let length := min firstType.size secondType.size
  obtain ⟨code, compares⟩ : ∃ code, comparand.compareFrom (resultReg own) base
      ⟨middle.stream.labels.size⟩ 0 length = .ok code :=
    Comparand.exists_compareFrom (show base.toInt + (length : Int) ≤ 0 by omega)
      (fun position within => subtracts _ position (by omega)) (Nat.le_of_eq (Nat.zero_add _))
  let added := code ++ [.label ⟨middle.stream.labels.size⟩] ++
    (turnCode swapped (resultReg own) ++ storeCode own)
  refine ⟨_, added, yields_emitStrcmp arranged allocated assigned destination (sited middle)
    (against middle) known known' compares, ?_, ?_⟩
  · rw [code_compared, sameCode]
  · intro World env machine
    have frame := destination.resultReg_ne
    have ended := Comparand.run_compareFrom env (firstBytes machine).2 (secondBytes machine).2
      frame.1 frame.2 (by omega)
      (by rw [(firstBytes machine).1, (secondBytes machine).1, Nat.zero_add]) compares
    obtain ⟨compared, runs, -, result⟩ := ended.runs_label env
    obtain ⟨turned, turns, result⟩ := runs_turn env swapped result
    rw [List.drop_zero, List.drop_zero, arranged.difference machine] at result
    have bounds := difference_bounds (left.bytes machine) (right.bytes machine)
    obtain ⟨last, stores, value⟩ := destination.runs_store env result (by omega) (by omega)
    refine ⟨last, runs.append (turns.append stores), value, ?_, ?_, ?_⟩
    · rw [value, sign_eq_strncmp]
    · intro ends ends'
      rw [value, sign_eq_strcmp ends ends']
    · rw [value, difference_comm (right.bytes machine)]

/-- A string of four bytes at the top of the frame. -/
def topString : Node :=
  .ident "s" { type := some (.array .char 4), storage := ⟨.slot (-8), 4⟩ }

/-- The literal `ab`, as it is typed. -/
def textOperand : Node :=
  .str "ab" { type := some (literalType "ab") }

/-- `strcmp("ab", s)` into a new slot. -/
theorem strcmp_executes_text :
    ∃ finish added, Yields (emitStrcmp (.apply "strcmp" [textOperand, topString]
        { type := some .int }) .frame) ⟨{ Stream.new 512 with used := 8 }, {}⟩ ()
        ⟨finish, ⟨.slot (-12), 4⟩⟩ ∧
      finish.code = [] ++ added ∧
      ∀ {World : Type} (env : Environment World) (machine : Machine World),
        ∃ last, Runs env added machine last ∧
          last.integer ⟨.slot (-12), 4⟩ =
            difference (textOperand.bytes machine) (topString.bytes machine) ∧
          compare (last.integer ⟨.slot (-12), 4⟩) 0 =
            strncmp (min (textOperand.bytes machine).length (topString.bytes machine).length)
              (textOperand.bytes machine) (topString.bytes machine) ∧
          (0 ∈ textOperand.bytes machine → 0 ∈ topString.bytes machine →
            compare (last.integer ⟨.slot (-12), 4⟩) 0 =
              strcmp (textOperand.bytes machine) (topString.bytes machine)) ∧
          last.integer ⟨.slot (-12), 4⟩ =
            -difference (topString.bytes machine) (textOperand.bytes machine) := by
  have allocated : Yields (allocateFor (.apply "strcmp" [textOperand, topString]
      { type := some .int }) .frame) ⟨{ Stream.new 512 with used := 8 }, {}⟩ ⟨.slot (-12), 4⟩
      ⟨{ Stream.new 512 with used := 12 }, ⟨.slot (-12), 4⟩⟩ := rfl
  exact strcmp_executes (.literal rfl rfl) (.slot rfl rfl rfl (by decide) (by decide))
    (.inr rfl) rfl allocated

end AtSite

end TraceProbe
