import TraceProbe.Proofs.Emission.Forms
import TraceProbe.Proofs.Machine.Discipline

/-!
# Registers of emitted code

A piece uses the scratch registers only behind its own instructions that set
them, and reads a virtual register only if the value that it reads is there.
-/

namespace TraceProbe

open Insn Emit AtSite

/-- Registers that survive helper calls, among them those that every piece
relies on. -/
structure Standing (filled : Reg → Prop) : Prop where
  frame : filled .frame
  context : filled .context
  lasting : ∀ reg, filled reg → reg ∉ Machine.argumentRegs.map Reg.machine

variable {filled : Reg → Prop} {reg : Reg} {src dst : Storage} {code : List Insn} {offset : Int16}
  {size : Nat}

/-- The register of a stored value is filled. -/
def Storage.Ready (filled : Reg → Prop) (src : Storage) : Prop :=
  ∀ reg, src.place = .register reg → filled reg

theorem fills_loads (loads : Loads reg src code) (frame : filled .frame)
    (ready : src.Ready filled) :
    Fills filled code fun other => other = reg ∨ filled other := by
  cases loads with
  | here size =>
      refine fills_nil.weaken (fun _ => id) ?_
      intro other known
      rcases known with rfl | known
      · exact ready _ rfl
      · exact known
  | move size different =>
      exact fills_of_straight rfl (by simpa using ready _ rfl) (by simp)
  | slot offset width =>
      exact fills_of_straight (by simp [straight_load]) (by simpa using frame) (by simp)

theorem fills_stores (stores : Stores reg dst code) (frame : filled .frame) (known : filled reg) :
    Fills filled code fun other => dst.place = .register other ∨ filled other := by
  cases stores with
  | here size =>
      refine fills_nil.weaken (fun _ => id) ?_
      intro other found
      rcases found with same | found
      · cases same
        exact known
      · exact found
  | move size different =>
      refine fills_of_straight rfl (by simpa using known) ?_
      intro other found
      rcases found with same | found
      · cases same
        simp
      · simp [found]
  | slot offset width =>
      exact fills_of_straight (by simp [straight_store]) (by simp [frame, known]) (by simp)

theorem fills_storeImms (frame : filled .frame) {code : List Insn}
    (each : ∀ insn ∈ code, ∃ width off imm, insn = storeImm (Width.bits width) .frame off imm) :
    Fills filled code filled := by
  induction code with
  | nil => exact fills_nil
  | cons insn code ih =>
      obtain ⟨width, off, imm, rfl⟩ := each insn List.mem_cons_self
      have first : Fills filled [storeImm width.bits .frame off imm] filled :=
        fills_of_straight (by simp [straight_storeImm]) (by simpa using frame) (by simp)
      exact first.append (ih fun other member => each other (List.mem_cons_of_mem _ member))

theorem fills_clear (frame : filled .frame) : Fills filled (Block.clear offset size) filled := by
  apply fills_storeImms frame
  intro insn member
  obtain ⟨width, _, same, _⟩ := Block.mem_zeros member
  exact ⟨width, _, 0, same⟩

theorem fills_fill (frame : filled .frame) {bytes : List UInt8} :
    Fills filled (Block.fill offset bytes) filled := by
  apply fills_storeImms frame
  intro insn member
  obtain ⟨width, _, imm, same, _⟩ := Block.mem_fills member
  exact ⟨width, _, imm, same⟩

theorem fills_transfers (frame : filled .frame) {first second : Int} {widths : List Width} :
    Fills filled (Block.transfers first second widths) filled := by
  induction widths generalizing first second with
  | nil => exact fills_nil
  | cons width widths ih =>
      have both : Fills filled [load width.bits .r0 .frame (Int16.ofInt second),
          store width.bits .frame .r0 (Int16.ofInt first)] filled :=
        fills_of_straight (by simp [straight_load, straight_store]) (by simp [frame])
          (fun other known => by simp [known])
      exact both.append ih

theorem fills_copies (copies : Copies offset src code) (frame : filled .frame)
    (ready : src.Ready filled) : Fills filled code filled := by
  cases copies with
  | register reg width =>
      exact fills_of_straight (by simp [straight_store])
        (by simpa [frame] using ready _ rfl) (by simp)
  | slot start size =>
      unfold Block.copy
      split
      · exact fills_nil
      · exact fills_transfers frame

theorem fills_points {srcs : List Storage} (points : Points srcs reg code)
    (standing : Standing filled) (ready : ∀ src ∈ srcs, src.Ready filled) :
    Fills filled code fun other => other = reg ∨ filled other := by
  obtain ⟨frame, context, -⟩ := standing
  cases points with
  | value _ loads => exact fills_loads loads frame (ready _ List.mem_cons_self)
  | moved distance loads =>
      refine (fills_loads loads frame (ready _ List.mem_cons_self)).append ?_
      exact fills_of_straight rfl (by simp) (fun other known => by simpa using known)
  | scaled size loads loads' =>
      refine (fills_loads loads frame (ready _ List.mem_cons_self)).append ?_
      have ready' := ready _ (List.mem_cons_of_mem _ List.mem_cons_self)
      refine (fills_loads loads' (.inr frame) fun other placed =>
        .inr (ready' other placed)).append ?_
      refine fills_of_straight rfl (by simp) ?_
      intro other known
      rcases known with rfl | known <;> simp [*]
  | frame offset =>
      exact fills_of_straight rfl (by simpa [Block.address] using frame) (by simp [Block.address])
  | context distance => exact fills_of_straight rfl (by simpa using context) (by simp)

/-- A call behind code that sets its arguments leaves what lasts, and its result. -/
theorem fills_call {more : Reg → Prop} (standing : Standing filled) {helper : Helper}
    (straight : code.all Insn.straight = true) (passes : discipline.Passes more code)
    (arguments : ∀ number ∈ Machine.argumentRegs.take helper.arity,
      discipline.after more code (.machine number))
    (kept : ∀ other, filled other → discipline.after more code other) :
    Fills more (code ++ [callOf helper]) fun other => other = .r0 ∨ filled other := by
  refine fills_of_straight (by simp [straight, straight_callOf]) ?_ ?_
  · refine Watch.passes_append.mpr ⟨passes, ?_, trivial⟩
    intro other member
    rw [uses_callOf] at member
    obtain ⟨number, among, rfl⟩ := List.mem_map.mp member
    exact arguments number among
  · intro other known
    rw [Watch.after_append, Watch.after_cons, Watch.after_nil, step_discipline, defines_callOf]
    exact known.imp_right fun known => ⟨kept other known, standing.lasting other known⟩

theorem fills_readCode (standing : Standing filled) :
    Fills (fun other => other = reg ∨ filled other) (readCode offset size reg) filled := by
  have address : Fills (fun other => other = reg ∨ filled other)
      (if reg = .r3 then [] else [move .r3 reg]) fun other => other = .r3 ∨ filled other := by
    split
    · rename_i same
      exact same ▸ fills_nil
    · exact fills_of_straight rfl (by simp) (fun other known => by
        rcases known with rfl | known <;> simp [*])
  have call : Fills (fun other => other = .r3 ∨ filled other)
      ((movImm .r2 (Int32.ofNat size) :: Block.address .r1 offset) ++ [callOf .probeRead])
        fun other => other = .r0 ∨ filled other :=
    fills_call standing rfl (by simp [Block.address, standing.frame])
      (by simp [Block.address, Helper.arity, Machine.argumentRegs, Reg.r1, Reg.r2, Reg.r3])
      (fun other known => by simp [Block.address, known])
  exact address.append (call.weaken (fun _ => id) fun _ => .inr)

theorem not_label_of_noLabels {code : List Insn} (free : boundLabels code = []) (name : Label) :
    .label name ∉ code := by
  intro member
  have bound : name ∈ boundLabels code := List.mem_filterMap.mpr ⟨_, member, rfl⟩
  rw [free] at bound
  cases bound

theorem fills_lookup (standing : Standing filled) {number : Nat} {key : Int16} {miss hit : Label}
    (different : miss ≠ hit) :
    Fills filled (lookupCode number key offset size miss hit) filled := by
  have call : Fills filled ((mapRef .r1 number :: Block.address .r2 key) ++ [callOf .mapLookupElem])
      fun other => other = .r0 ∨ filled other :=
    fills_call standing rfl (by simp [Block.address, standing.frame])
      (by simp [Block.address, Helper.arity, Machine.argumentRegs, Reg.r1, Reg.r2])
      (fun other known => by simp [Block.address, known])
  refine call.append (.branch steady_discipline different
    (not_label_of_noLabels (noLabels_readCode _ _ _))
    (not_label_of_noLabels (boundLabels_of_inert (Block.inert_zeros _ _))) ?_
    (fills_readCode standing) ?_)
  · intro defined known
    simpa using known .r0 (.inl rfl)
  · exact (fills_clear standing.frame).weaken (fun _ => .inr) fun _ => id

theorem fills_update (standing : Standing filled) {number : Nat} {key value : Int16} :
    Fills filled (updateCode number key value) filled := by
  have call : Fills filled ((mapRef .r1 number :: (Block.address .r2 key ++
      (Block.address .r3 value ++ [movImm .r4 0]))) ++ [callOf .mapUpdateElem])
        fun other => other = .r0 ∨ filled other :=
    fills_call standing rfl (by simp [Block.address, standing.frame])
      (by simp [Block.address, Helper.arity, Machine.argumentRegs, Reg.r1, Reg.r2, Reg.r3, Reg.r4])
      (fun other known => by simp [Block.address, known])
  exact call.weaken (fun _ => id) fun _ => .inr

theorem fills_delete (standing : Standing filled) {number : Nat} {key : Int16} :
    Fills filled (deleteCode number key) filled := by
  have call : Fills filled ((mapRef .r1 number :: Block.address .r2 key) ++ [callOf .mapDeleteElem])
      fun other => other = .r0 ∨ filled other :=
    fills_call standing rfl (by simp [Block.address, standing.frame])
      (by simp [Block.address, Helper.arity, Machine.argumentRegs, Reg.r1, Reg.r2])
      (fun other known => by simp [Block.address, known])
  exact call.weaken (fun _ => id) fun _ => .inr

section Comparison

variable {comparand : Comparand} {base : Int16} {done : Label} {position left : Nat}
  {start : Reg → Prop}

theorem Fills.or {behind away : Reg → Prop} (fills : Fills start code behind) :
    FillsOr done start code behind away :=
  Watch.Leads.breaks fills

/-- The registers that are filled once a position is loaded: the byte of a literal is
part of the code, that of another string is in `r1`. -/
def Comparand.Loaded (comparand : Comparand) (dst : Reg) (filled : Reg → Prop)
    (reg : Reg) : Prop :=
  reg = dst ∨ filled reg ∨ reg = .r1 ∧ ∃ offset, comparand = .slot offset

theorem Comparand.loaded_of_filled {dst reg : Reg} (among : reg = dst ∨ filled reg) :
    comparand.Loaded dst filled reg := by
  rcases among with same | known
  · exact .inl same
  · exact .inr (.inl known)

theorem fills_subtract {dst : Reg} {place : Int16} (frame : start .frame)
    (found : comparand.subtract dst position = .ok code) :
    Fills start (load Width.byte.bits dst .frame place :: code)
      (comparand.Loaded dst start) := by
  cases comparand with
  | slot offset =>
      obtain ⟨place, -, found⟩ := ok_of_bind found
      cases found
      apply fills_of_straight (by simp [straight_load]; rfl) (by simp [frame])
      intro other known
      rcases known with rfl | known | ⟨rfl, -⟩ <;> simp [*]
  | literal bytes =>
      cases found
      apply fills_of_straight (by simp [straight_load]; rfl) (by simp [frame])
      intro other known
      rcases known with rfl | known | ⟨-, offset, same⟩
      · simp
      · simp [known]
      · cases same

theorem fillsOr_jump {reg : Reg} (ready : start reg) (operation : UInt8)
    (exits : (jumpImm operation reg 0 done).exits = [.running, .seeking done])
    (uses : (jumpImm operation reg 0 done).uses = [reg]) :
    FillsOr done start [jumpImm operation reg 0 done] start start := by
  apply Watch.Breaks.jump steady_discipline rfl exits
  intro defined known other among
  have among : other ∈ (jumpImm operation reg 0 done).uses := among
  rw [uses, List.mem_singleton] at among
  rw [among]
  exact known reg ready

theorem fillsOr_leave {dst : Reg} :
    FillsOr done (comparand.Loaded dst filled) (comparand.leave dst done)
      (fun other => other = dst ∨ filled other) fun other => other = dst ∨ filled other := by
  have less (defined : Reg → Prop) (known : ∀ other, comparand.Loaded dst filled other →
      defined other) (other : Reg) (among : other = dst ∨ filled other) : defined other :=
    known other (Comparand.loaded_of_filled among)
  have leaves : FillsOr done (comparand.Loaded dst filled) [jumpImm Opcode.jne dst 0 done]
      (comparand.Loaded dst filled) (comparand.Loaded dst filled) :=
    fillsOr_jump (.inl rfl) Opcode.jne rfl rfl
  have differs := leaves.weaken (fun _ => id) less less
  cases comparand with
  | literal bytes => exact differs
  | slot offset =>
      have ends : FillsOr done ((Comparand.slot offset).Loaded dst filled)
          [jumpImm Opcode.jeq .r1 0 done] ((Comparand.slot offset).Loaded dst filled)
          ((Comparand.slot offset).Loaded dst filled) :=
        fillsOr_jump (.inr (.inr ⟨rfl, offset, rfl⟩)) Opcode.jeq rfl rfl
      have ends := ends.weaken (fun _ => id) (fun _ => id) less
      exact ends.append differs (by simp [jumpImm])

/-- A comparison uses what it has loaded before. -/
theorem fillsOr_compareFrom {dst : Reg} (frame : filled .frame)
    (enough : ∀ other, filled other → start other)
    (loaded : left = 0 → ∀ other, other = dst ∨ filled other → start other)
    (found : comparand.compareFrom dst base done position left = .ok code) :
    FillsOr done start code (fun other => other = dst ∨ filled other)
      fun other => other = dst ∨ filled other := by
  induction left generalizing position code start with
  | zero =>
      cases found
      exact (fills_nil.weaken (loaded rfl) fun _ => id).or
  | succ left ih =>
      rw [Comparand.compareFrom] at found
      obtain ⟨place, -, found⟩ := ok_of_bind found
      obtain ⟨difference, subtracted, found⟩ := ok_of_bind found
      have compared : Fills start (load Width.byte.bits dst .frame place :: difference)
          (comparand.Loaded dst filled) :=
        (fills_subtract frame subtracted).weaken enough fun _ => id
      simp only at found
      split at found
      · cases found
        exact (compared.weaken (fun _ => id) fun _ => Comparand.loaded_of_filled).or
      · obtain ⟨rest, continued, found⟩ := ok_of_bind found
        cases found
        have others : FillsOr done (fun other => other = dst ∨ filled other) rest
            (fun other => other = dst ∨ filled other) fun other => other = dst ∨ filled other :=
          ih (fun other => .inr) (fun _ other => id) continued
        have leaving : .label done ∉ comparand.leave dst done := by
          cases comparand <;> simp [Comparand.leave, jumpImm]
        have bound := not_label_of_noLabels (Comparand.noLabels_compareFrom continued) done
        exact (Watch.Breaks.append compared.or fillsOr_leave leaving).append others bound

theorem fills_compare {dst : Reg} (frame : filled .frame) (some : 0 < left)
    (found : comparand.compareFrom dst base done 0 left = .ok code) :
    Fills filled (code ++ [label done]) fun other => other = dst ∨ filled other := by
  apply Watch.Breaks.close steady_discipline
  apply fillsOr_compareFrom frame (fun _ => id) _ found
  intro none
  exact absurd none (Nat.ne_of_gt some)

end Comparison

section Storages

variable {own : Storage} {destination : Option Storage}

/-- Code that fills no register, for a value in the frame or none. -/
theorem Fills.nowhere (fills : Fills filled code filled)
    (free : ∀ storage, destination = some storage → ∀ reg, storage.place ≠ .register reg) :
    Fills filled code fun other => filled other ∨ ∃ storage, destination = some storage ∧
      storage.place = .register other := by
  refine fills.weaken (fun _ => id) ?_
  intro other known
  rcases known with known | ⟨storage, same, placed⟩
  · exact known
  · exact absurd placed (free storage same other)

theorem Fills.inSlot (fills : Fills filled code filled) :
    Fills filled code fun other => filled other ∨ ∃ storage,
      some (⟨.slot offset, size⟩ : Storage) = some storage ∧ storage.place = .register other := by
  apply fills.nowhere
  intro storage same reg placed
  cases same
  cases placed

/-- Code that fills the register of a value, if it has one, and perhaps another. -/
theorem Fills.stored (fills : Fills filled code fun other =>
      own.place = .register other ∨ other = reg ∨ filled other) :
    Fills filled code fun other => filled other ∨ ∃ storage, some own = some storage ∧
      storage.place = .register other := by
  refine fills.weaken (fun _ => id) ?_
  intro other known
  rcases known with known | ⟨storage, same, placed⟩
  · exact .inr (.inr known)
  · cases same
    exact .inl placed

theorem Fills.inRegister (fills : Fills filled code fun other => other = reg ∨ filled other) :
    Fills filled code fun other => filled other ∨ ∃ storage,
      some (⟨.register reg, size⟩ : Storage) = some storage ∧ storage.place = .register other := by
  apply Fills.stored
  apply fills.weaken (fun _ => id)
  intro other known
  rcases known with same | known
  · cases same
    exact .inl rfl
  · exact known

end Storages

theorem fills_wideningCode {signed : Bool} : Fills (fun other => other = .r0 ∨ filled other)
    (wideningCode .r0 size signed) fun other => other = .r0 ∨ filled other := by
  unfold wideningCode
  split
  · exact fills_of_straight rfl (by simp [signExtension]) (by simp [signExtension])
  · exact fills_nil

theorem fills_negation (swapped : Bool) : Fills (fun other => other = reg ∨ filled other)
    (if swapped then [alu64Imm Opcode.neg reg 0] else []) fun other =>
      other = reg ∨ filled other := by
  split
  · exact fills_of_straight rfl (by simp) (by simp)
  · exact fills_nil

/-- A helper reads text to the frame from the address in a register. -/
theorem fills_readText (standing : Standing filled) :
    Fills (fun other => other = .r3 ∨ filled other)
    (Block.address .r1 offset ++ [movImm .r2 (Int32.ofNat size)] ++ [callOf .probeReadStr])
      filled := by
  have call : Fills (fun other => other = .r3 ∨ filled other)
      ((Block.address .r1 offset ++ [movImm .r2 (Int32.ofNat size)]) ++ [callOf .probeReadStr])
        fun other => other = .r0 ∨ filled other :=
    fills_call standing rfl (by simp [Block.address, standing.frame])
      (by simp [Block.address, Helper.arity, Machine.argumentRegs, Reg.r1, Reg.r2, Reg.r3])
      (fun other known => by simp [Block.address, known])
  exact call.weaken (fun _ => id) fun _ => .inr

theorem fills_constantCode (frame : filled .frame) {width : Width} {value : UInt64} :
    Fills filled (constantCode width offset value) filled := by
  unfold constantCode
  split
  · exact fills_of_straight (by simp [straight_storeImm]) (by simpa using frame) (by simp)
  · exact fills_of_straight (by simp [straight_store]; rfl) (by simp [frame])
      fun other known => by simp [known]

theorem Piece.fills {dst : Option Storage} {srcs : List Storage} (piece : Piece dst srcs code)
    (standing : Standing filled) (ready : ∀ src ∈ srcs, src.Ready filled) :
    Fills filled code fun other => filled other ∨ ∃ storage, dst = some storage ∧
      storage.place = .register other := by
  have frame := standing.frame
  cases piece with
  | numberRegister reg size imm => exact (fills_of_straight rfl (by simp) (by simp)).inRegister
  | wideRegister reg size value => exact (fills_of_straight rfl (by simp) (by simp)).inRegister
  | numberSlot offset width value => exact (fills_constantCode frame).inSlot
  | fill offset bytes => exact (fills_fill frame).inSlot
  | clear offset size => exact (fills_clear frame).inSlot
  | contextRegister reg width offset =>
      exact (fills_of_straight (by simp [straight_load]) (by simpa using standing.context)
        (by simp)).inRegister
  | contextSlot slot width offset =>
      exact (fills_of_straight (by simp [straight_load, straight_store])
        (by simp [standing.context, frame]) fun other known => by simp [known]).inSlot
  | load size loads => exact (fills_loads loads frame (ready _ List.mem_cons_self)).inRegister
  | copy copies => exact (fills_copies copies frame (ready _ List.mem_cons_self)).inSlot
  | convert signed loads stores =>
      exact ((fills_loads loads frame (ready _ List.mem_cons_self)).append
        (fills_wideningCode.append (fills_stores stores (.inr frame) (.inl rfl)))).stored
  | read offset size points =>
      exact ((fills_points points standing ready).append (fills_readCode standing)).inSlot
  | readText offset size loads =>
      exact ((fills_loads loads frame (ready _ List.mem_cons_self)).append
        (fills_readText standing)).inSlot
  | lookup number key keySize offset size different =>
      exact (fills_lookup standing different).inSlot
  | update number key keySize value valueSize =>
      exact (fills_update standing).nowhere fun _ same => by cases same
  | delete number key keySize =>
      exact (fills_delete standing).nowhere fun _ same => by cases same
  | compare swapped some short among compares stores =>
      have whole := (fills_compare frame some compares).append
        ((fills_negation swapped).append (fills_stores stores (.inr frame) (.inl rfl)))
      rw [List.append_assoc, List.singleton_append] at whole
      exact whole.stored

end TraceProbe
