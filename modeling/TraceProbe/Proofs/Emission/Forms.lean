import TraceProbe.Proofs.Emission.Texts
import TraceProbe.Proofs.Machine.Blocks
import TraceProbe.Proofs.Machine.Footprint

/-!
# Forms of emitted instructions

All instructions of pieces have one of a few forms.  They set the scratch
registers and the register of the storage that is filled, access the frame where
stored values are, and jump to no label but those of their piece.
-/

namespace TraceProbe

/-- Registers that no value lives in. -/
def Reg.Scratch (reg : Reg) : Prop :=
  ∃ number, reg = .machine number ∧ number < 5

namespace Insn

open Opcode

/-- What code may do: the registers that it may set and use, the positions of the
frame that it may read and write, and the labels that it may jump to. -/
structure Grant where
  sets : Reg → Prop
  uses : Reg → Prop
  reads : Int → Prop
  writes : Int → Prop
  targets : Label → Prop

/-- What all code may do: set the scratch registers, use what it sets, and use the
frame pointer and the context. -/
structure Grant.Ample (grant : Grant) : Prop where
  scratch : ∀ number : UInt8, number < 5 → grant.sets (.machine number)
  own : ∀ reg, grant.sets reg → grant.uses reg
  frame : grant.uses .frame
  context : grant.uses .context

/-- The forms of emitted instructions.  Helpers that fill memory are called by
several instructions together. -/
inductive Form (grant : Grant) : Insn → Prop
  | arithmetic {code : UInt8} {dst src : Reg} (imm : Int32) :
      role code = .arithmetic → grant.sets dst → grant.uses src →
      Form grant (plain code dst src 0 imm)
  | load {width : Width} {dst : Reg} {off : Int16} :
      grant.sets dst → (∀ position, Slot off width.bytes position → grant.reads position) →
        Form grant (load width.bits dst .frame off)
  | context (width : Width) {dst : Reg} (off : Int16) :
      grant.sets dst → Form grant (load width.bits dst .context off)
  | store {width : Width} {src : Reg} {off : Int16} :
      grant.uses src → (∀ position, Slot off width.bytes position → grant.writes position) →
        Form grant (store width.bits .frame src off)
  | storeImm {width : Width} {off : Int16} (imm : Int32) :
      (∀ position, Slot off width.bytes position → grant.writes position) →
        Form grant (storeImm width.bits .frame off imm)
  | wide {dst : Reg} (value : UInt64) : grant.sets dst → Form grant (wide dst value)
  | mapRef {dst : Reg} (map : Nat) : grant.sets dst → Form grant (mapRef dst map)
  | call {helper : Helper} : helper.fills = false → Form grant (callOf helper)
  | jump {operation : UInt8} {dst : Reg} (imm : Int32) {target : Label} :
      operation = jeq ∨ operation = jne → grant.uses dst → grant.targets target →
        Form grant (jumpImm operation dst imm target)
  | goto {target : Label} : grant.targets target → Form grant (goto target)
  | label (name : Label) : Form grant (label name)

theorem Form.mono {grant more : Grant} {insn : Insn} (form : Form grant insn)
    (sets : ∀ reg, grant.sets reg → more.sets reg) (uses : ∀ reg, grant.uses reg → more.uses reg)
    (reads : ∀ position, grant.reads position → more.reads position)
    (writes : ∀ position, grant.writes position → more.writes position)
    (targets : ∀ target, grant.targets target → more.targets target) : Form more insn := by
  cases form with
  | arithmetic imm role set use => exact .arithmetic imm role (sets _ set) (uses _ use)
  | load set inside => exact .load (sets _ set) fun position member => reads _ (inside _ member)
  | context width off set => exact .context width off (sets _ set)
  | store use inside => exact .store (uses _ use) fun position member => writes _ (inside _ member)
  | storeImm imm inside => exact .storeImm imm fun position member => writes _ (inside _ member)
  | wide value set => exact .wide value (sets _ set)
  | mapRef map set => exact .mapRef map (sets _ set)
  | call quiet => exact .call quiet
  | jump imm operation use target => exact .jump imm operation (uses _ use) (targets _ target)
  | goto target => exact .goto (targets _ target)
  | label name => exact .label name

/-- Calls of helpers that fill so many bytes at an offset, behind what sets up the
slot for them. -/
inductive Asks (offset : Int16) (size : Nat) : List Insn → Prop
  | read : Asks offset size
      (movImm .r2 (Int32.ofNat size) :: (Block.address .r1 offset ++ [callOf .probeRead]))
  | readText : Asks offset size
      (Block.address .r1 offset ++ [movImm .r2 (Int32.ofNat size), callOf .probeReadStr])

/-- Code made of instructions of these forms and of such calls. -/
inductive Formed (grant : Grant) : List Insn → Prop
  | nil : Formed grant []
  | cons {insn : Insn} {rest : List Insn} :
      Form grant insn → Formed grant rest → Formed grant (insn :: rest)
  | asks {offset : Int16} {size : Nat} {code rest : List Insn} :
      Asks offset size code → (∀ position, Slot offset size position → grant.writes position) →
        Formed grant rest → Formed grant (code ++ rest)

variable {grant : Grant} {insn : Insn} {code later : List Insn}

theorem Formed.append (first : Formed grant code) (second : Formed grant later) :
    Formed grant (code ++ later) := by
  induction first with
  | nil => exact second
  | cons form _ ih => exact .cons form ih
  | asks asked inside _ ih =>
      rw [List.append_assoc]
      exact .asks asked inside ih

theorem formed_of_each (each : ∀ insn ∈ code, Form grant insn) : Formed grant code := by
  induction code with
  | nil => exact .nil
  | cons insn code ih =>
      exact .cons (each insn List.mem_cons_self) (ih fun other member =>
        each other (List.mem_cons_of_mem _ member))

theorem Asks.form {offset : Int16} {size : Nat} (asked : Asks offset size code)
    (ample : grant.Ample)
    (member : insn ∈ code) : Form grant insn ∨ ∃ helper, insn = callOf helper := by
  have sets (number : UInt8) (small : number < 5) := ample.scratch number small
  have scratch : grant.uses .r0 := ample.own _ (sets 0 (by decide))
  have count : Form grant (movImm .r2 (Int32.ofNat size)) :=
    .arithmetic _ rfl (sets 2 (by decide)) scratch
  have address : ∀ insn ∈ Block.address .r1 offset, Form grant insn := by
    intro insn member
    rcases List.mem_pair.mp member with rfl | rfl
    · exact .arithmetic _ rfl (sets 1 (by decide)) ample.frame
    · exact .arithmetic _ rfl (sets 1 (by decide)) scratch
  cases asked with
  | read =>
      rcases List.mem_cons.mp member with rfl | member
      · exact .inl count
      · rcases List.mem_append.mp member with member | member
        · exact .inl (address insn member)
        · exact .inr ⟨_, List.mem_singleton.mp member⟩
  | readText =>
      rcases List.mem_append.mp member with member | member
      · exact .inl (address insn member)
      · rcases List.mem_pair.mp member with rfl | rfl
        · exact .inl count
        · exact .inr ⟨_, rfl⟩

theorem Formed.form (formed : Formed grant code) (ample : grant.Ample) (member : insn ∈ code) :
    Form grant insn ∨ ∃ helper, insn = callOf helper := by
  induction formed with
  | nil => cases member
  | cons form _ ih =>
      rcases List.mem_cons.mp member with rfl | later
      · exact .inl form
      · exact ih later
  | asks asked _ _ ih =>
      exact (List.mem_append.mp member).elim (asked.form ample) ih

/-- Instructions name no registers but those that they may set or use. -/
theorem Form.regs (form : Form grant insn) (ample : grant.Ample) {reg : Reg}
    (named : reg ∈ insn.regs) :
    grant.uses reg := by
  have scratch : grant.uses .r0 := ample.own _ (ample.scratch 0 (by decide))
  cases form with
  | arithmetic imm role set use =>
      rcases List.mem_pair.mp named with rfl | rfl
      · exact ample.own _ set
      · exact use
  | load set inside =>
      rcases List.mem_pair.mp named with rfl | rfl
      · exact ample.own _ set
      · exact ample.frame
  | context width off set =>
      rcases List.mem_pair.mp named with rfl | rfl
      · exact ample.own _ set
      · exact ample.context
  | store use inside =>
      rcases List.mem_pair.mp named with rfl | rfl
      · exact ample.frame
      · exact use
  | storeImm imm inside =>
      rcases List.mem_pair.mp named with rfl | rfl
      · exact ample.frame
      · exact scratch
  | wide value set | mapRef map set =>
      obtain rfl := List.mem_singleton.mp named
      exact ample.own _ set
  | call fills | goto target =>
      rcases List.mem_pair.mp named with rfl | rfl <;> exact scratch
  | jump imm operation use target =>
      rcases List.mem_pair.mp named with rfl | rfl
      · exact use
      · exact scratch
  | label name => cases named

theorem Form.writes? (form : Form grant insn) {reg : Reg} (written : insn.writes? = some reg) :
    grant.sets reg := by
  cases form with
  | arithmetic imm role set use =>
      simp only [Insn.writes?, role] at written
      cases written
      exact set
  | load set inside =>
      simp only [Insn.writes?, Insn.load, Symbolic.role_load] at written
      cases written
      exact set
  | context width off set =>
      simp only [Insn.writes?, Insn.load, Symbolic.role_load] at written
      cases written
      exact set
  | store use inside => simp [Insn.writes?, Insn.store, Symbolic.role_store] at written
  | storeImm imm inside => simp [Insn.writes?, Insn.storeImm, Symbolic.role_storeImm] at written
  | wide value set | mapRef map set =>
      cases written
      exact set
  | @call helper fills => cases helper <;> cases written
  | jump imm operation use target | goto target | label name => cases written

theorem Formed.regs (formed : Formed grant code) (ample : grant.Ample)
    (member : insn ∈ code) {reg : Reg} (named : reg ∈ insn.regs) : grant.uses reg := by
  rcases formed.form ample member with form | ⟨helper, rfl⟩
  · exact form.regs ample named
  · rcases List.mem_pair.mp named with rfl | rfl <;> exact ample.own _ (ample.scratch 0 (by decide))

theorem Formed.writes? (formed : Formed grant code) (ample : grant.Ample) (member : insn ∈ code)
    {reg : Reg} (written : insn.writes? = some reg) : grant.sets reg := by
  rcases formed.form ample member with form | ⟨helper, rfl⟩
  · exact form.writes? written
  · cases helper <;> cases written

end Insn

/-- A stored value lies below the frame pointer, if it is in the frame. -/
def Storage.Low (storage : Storage) : Prop :=
  ∀ position, storage.Covers position → position < 0

/-- An access within a range of the frame covers no more than the range. -/
theorem Storage.Low.covers {offset : Int16} {size : Nat} {width : Width} {place position : Int}
    (low : Storage.Low ⟨.slot offset, size⟩) (first : offset.toInt ≤ place)
    (last : place + width.bytes ≤ offset.toInt + size)
    (member : Slot (Int16.ofInt place) width.bytes position) :
    Storage.Covers ⟨.slot offset, size⟩ position := by
  have positive := width.bytes_pos
  have below := low (offset.toInt + size - 1) (covers_slot.mpr ⟨by omega, by omega⟩)
  have least := offset.le_toInt
  have same : (Int16.ofInt place).toInt = place := Int16.toInt_ofInt_of_le (by omega) (by omega)
  obtain ⟨from', to'⟩ := member
  exact covers_slot.mpr ⟨by omega, by omega⟩

namespace Block

open Insn

variable {start second : Int} {bytes : List UInt8} {widths : List Width} {insn : Insn}

theorem mem_zeros (member : insn ∈ zeros start widths) :
    ∃ width place, insn = storeImm (Width.bits width) .frame (Int16.ofInt place) 0 ∧
      start ≤ place ∧ place + width.bytes ≤ start + extent widths := by
  induction widths generalizing start with
  | nil => cases member
  | cons width widths ih =>
      rw [extent]
      rcases List.mem_cons.mp member with rfl | later
      · exact ⟨width, start, rfl, Int.le_refl _, by omega⟩
      · obtain ⟨width', place, same, low, high⟩ := ih later
        exact ⟨width', place, same, by omega, by omega⟩

theorem mem_fills (member : insn ∈ fills start bytes widths) :
    ∃ width place imm, insn = storeImm (Width.bits width) .frame (Int16.ofInt place) imm ∧
      start ≤ place ∧ place + width.bytes ≤ start + extent widths := by
  induction widths generalizing start bytes with
  | nil => cases member
  | cons width widths ih =>
      rw [extent]
      rcases List.mem_cons.mp member with rfl | later
      · exact ⟨width, start, _, rfl, Int.le_refl _, by omega⟩
      · obtain ⟨width', place, imm, same, low, high⟩ := ih later
        exact ⟨width', place, imm, same, by omega, by omega⟩

/-- The accesses of both ranges stay in them. -/
theorem mem_transfers (member : insn ∈ transfers start second widths) :
    ∃ width place, (insn = load (Width.bits width) .r0 .frame (Int16.ofInt place) ∧
        second ≤ place ∧ place + width.bytes ≤ second + extent widths) ∨
      insn = store (Width.bits width) .frame .r0 (Int16.ofInt place) ∧
        start ≤ place ∧ place + width.bytes ≤ start + extent widths := by
  induction widths generalizing start second with
  | nil => cases member
  | cons width widths ih =>
      rw [extent]
      rcases List.mem_cons.mp member with rfl | later
      · exact ⟨width, second, .inl ⟨rfl, Int.le_refl _, by omega⟩⟩
      · rcases List.mem_cons.mp later with rfl | later
        · exact ⟨width, start, .inr ⟨rfl, Int.le_refl _, by omega⟩⟩
        · obtain ⟨width', place, ⟨same, low, high⟩ | ⟨same, low, high⟩⟩ := ih later
          · exact ⟨width', place, .inl ⟨same, by omega, by omega⟩⟩
          · exact ⟨width', place, .inr ⟨same, by omega, by omega⟩⟩

end Block

namespace Piece

open Insn Emit AtSite

/-- The registers that a piece may set. -/
def Sets (dst : Option Storage) (reg : Reg) : Prop :=
  reg.Scratch ∨ ∃ own, dst = some own ∧ own.place = .register reg

/-- What a piece may do that fills a storage and reads others, if they lie in the
frame. -/
def grant (dst : Option Storage) (srcs : List Storage) (targets : Label → Prop) : Grant where
  sets := Sets dst
  uses reg := Sets dst reg ∨ reg = .frame ∨ reg = .context ∨ ∃ src ∈ srcs, src.place = .register reg
  reads position := (∀ src ∈ srcs, src.Low) → ∃ src ∈ srcs, src.Covers position
  writes position := (∀ own, dst = some own → own.Low) → ∃ own, dst = some own ∧ own.Covers position
  targets := targets

variable {dst : Option Storage} {srcs : List Storage} {targets : Label → Prop} {code : List Insn}

theorem ample : (grant dst srcs targets).Ample := by
  refine ⟨?_, fun _ => .inl, .inr (.inl rfl), .inr (.inr (.inl rfl))⟩
  intro number small
  exact .inl ⟨number, rfl, small⟩

theorem sets_scratch (number : UInt8) (small : number < 5) :
    (grant dst srcs targets).sets (.machine number) :=
  ample.scratch number small

theorem uses_scratch (number : UInt8) (small : number < 5) :
    (grant dst srcs targets).uses (.machine number) :=
  ample.own _ (sets_scratch number small)

section Within

variable {offset : Int16} {size : Nat} {width : Width} {place : Int}

theorem writes_within (first : offset.toInt ≤ place)
    (last : place + width.bytes ≤ offset.toInt + size)
    (position : Int) (member : Slot (Int16.ofInt place) width.bytes position) :
    (grant (some ⟨.slot offset, size⟩) srcs targets).writes position := by
  intro low
  exact ⟨_, rfl, (low _ rfl).covers first last member⟩

theorem reads_within (among : ⟨.slot offset, size⟩ ∈ srcs) (first : offset.toInt ≤ place)
    (last : place + width.bytes ≤ offset.toInt + size) (position : Int)
    (member : Slot (Int16.ofInt place) width.bytes position) :
    (grant dst srcs targets).reads position := by
  intro low
  exact ⟨_, among, (low _ among).covers first last member⟩

theorem formed_clear :
    Formed (grant (some ⟨.slot offset, size⟩) srcs targets) (Block.clear offset size) := by
  refine formed_of_each ?_
  intro insn member
  obtain ⟨width, place, rfl, low, high⟩ := Block.mem_zeros member
  rw [Block.extent_cut (by decide)] at high
  exact .storeImm 0 (writes_within low high)

theorem formed_fill {bytes : List UInt8} :
    Formed (grant (some ⟨.slot offset, bytes.length⟩) srcs targets) (Block.fill offset bytes) := by
  refine formed_of_each ?_
  intro insn member
  obtain ⟨width, place, imm, rfl, low, high⟩ := Block.mem_fills member
  rw [Block.extent_cut (by decide)] at high
  exact .storeImm imm (writes_within low high)

theorem formed_copy {start : Int16} (among : ⟨.slot start, size⟩ ∈ srcs) :
    Formed (grant (some ⟨.slot offset, size⟩) srcs targets) (Block.copy offset start size) := by
  unfold Block.copy
  split
  · exact .nil
  · refine formed_of_each ?_
    intro insn member
    obtain ⟨width, place, ⟨rfl, low, high⟩ | ⟨rfl, low, high⟩⟩ := Block.mem_transfers member
    · rw [Block.extent_cut (by decide)] at high
      exact .load (sets_scratch 0 (by decide)) (reads_within among low high)
    · rw [Block.extent_cut (by decide)] at high
      exact .store (uses_scratch 0 (by decide)) (writes_within low high)

end Within

section Sources

variable {reg : Reg} {src : Storage} {offset : Int16} {size : Nat}

theorem formed_loads (loads : Loads reg src code) (set : (grant dst srcs targets).sets reg)
    (among : src ∈ srcs) : Formed (grant dst srcs targets) code := by
  cases loads with
  | here size => exact .nil
  | move size different =>
      exact .cons (.arithmetic 0 rfl set (.inr (.inr (.inr ⟨_, among, rfl⟩)))) .nil
  | slot offset width =>
      exact .cons (.load set fun position member => fun _ =>
        ⟨_, among, Storage.covers_slot.mpr member⟩) .nil

theorem formed_stores {own : Storage} (stores : Stores reg own code)
    (use : (grant (some own) srcs targets).uses reg) :
    Formed (grant (some own) srcs targets) code := by
  cases stores with
  | here size => exact .nil
  | move size different => exact .cons (.arithmetic 0 rfl (.inr ⟨_, rfl, rfl⟩) use) .nil
  | slot offset width =>
      exact .cons (.store use fun position member => fun _ =>
        ⟨_, rfl, Storage.covers_slot.mpr member⟩) .nil

theorem formed_address {number : UInt8} (small : number < 5) :
    Formed (grant dst srcs targets) (Block.address (.machine number) offset) := by
  apply Formed.cons
  · exact .arithmetic 0 rfl (sets_scratch number small) ample.frame
  apply Formed.cons
  · exact .arithmetic _ rfl (sets_scratch number small) (uses_scratch 0 (by decide))
  exact .nil

theorem formed_readCode (use : (grant (some ⟨.slot offset, size⟩) srcs targets).uses reg) :
    Formed (grant (some ⟨.slot offset, size⟩) srcs targets) (readCode offset size reg) := by
  have set : Formed (grant (some ⟨.slot offset, size⟩) srcs targets)
      (if reg = .r3 then [] else [move .r3 reg]) := by
    split
    · exact .nil
    · exact .cons (.arithmetic 0 rfl (sets_scratch 3 (by decide)) use) .nil
  have asks : Formed (grant (some ⟨.slot offset, size⟩) srcs targets)
      ((movImm .r2 (Int32.ofNat size) ::
        (Block.address .r1 offset ++ [callOf .probeRead])) ++ []) :=
    .asks .read (fun position member _ => ⟨_, rfl, Storage.covers_slot.mpr member⟩) .nil
  rw [List.append_nil] at asks
  exact set.append asks

theorem formed_points (points : Points srcs reg code) :
    Formed (grant dst srcs targets) code ∧ (grant dst srcs targets).uses reg := by
  have r0 : (grant dst srcs targets).sets .r0 := sets_scratch 0 (by decide)
  have r3 : (grant dst srcs targets).sets .r3 := sets_scratch 3 (by decide)
  have add {distance : Int32} : Formed (grant dst srcs targets)
      [alu64Imm Opcode.add .r3 distance] :=
    .cons (.arithmetic _ rfl r3 (.inl r0)) .nil
  cases points with
  | @value src reg code result loads =>
      have set : (grant dst [src] targets).sets
          reg := by rcases result with rfl | rfl <;> assumption
      exact ⟨formed_loads loads set List.mem_cons_self, .inl set⟩
  | moved distance loads => exact ⟨(formed_loads loads r3 List.mem_cons_self).append add, .inl r3⟩
  | scaled size loads loads' =>
      refine ⟨(formed_loads loads r3 List.mem_cons_self).append ((formed_loads loads' r0
        (List.mem_cons_of_mem _ List.mem_cons_self)).append ?_), .inl r3⟩
      exact .cons (.arithmetic _ rfl r0 (.inl r0)) (.cons (.arithmetic 0 rfl r3 (.inl r0)) .nil)
  | frame offset => exact ⟨formed_address (by decide), .inl r3⟩
  | context distance =>
      exact ⟨.cons (.arithmetic 0 rfl r3 (.inr (.inr (.inl rfl)))) add, .inl r3⟩

end Sources

theorem sets_result {own : Storage} :
    (grant (some own) srcs targets).sets (own.register?.getD .r0) := by
  obtain ⟨place, size⟩ := own
  cases place with
  | register reg => exact .inr ⟨_, rfl, rfl⟩
  | slot _ | unassigned => exact sets_scratch 0 (by decide)

theorem reads_byte {base place : Int16} {size distance : Nat} (among : ⟨.slot base, size⟩ ∈ srcs)
    (inside : distance < size) (reached : movedOffset base distance = .ok place) (position : Int)
    (member : Slot place Width.byte.bytes position) : (grant dst srcs targets).reads position := by
  intro low
  have below := low _ among (base.toInt + size - 1) (Storage.covers_slot.mpr ⟨by omega, by omega⟩)
  have least := base.le_toInt
  have same := toInt_of_movedOffset (by omega) reached
  have one : (Width.byte.bytes : Int) = 1 := rfl
  obtain ⟨first, last⟩ := member
  exact ⟨_, among, Storage.covers_slot.mpr ⟨by omega, by omega⟩⟩

/-- The instructions of a comparison. -/
theorem formed_compareFrom {comparand : Comparand} {reg : Reg} {base : Int16} {done : Label}
    {position left length size : Nat} {others : List Storage}
    (set : (grant dst (⟨.slot base, size⟩ :: others) targets).sets reg) (target : targets done)
    (long : length ≤ size) (stored : comparand.Stored length others)
    (inside : position + left ≤ length)
    (found : comparand.compareFrom reg base done position left = .ok code) :
    Formed (grant dst (⟨.slot base, size⟩ :: others) targets) code := by
  have r1 : (grant dst (⟨.slot base, size⟩ :: others) targets).sets .r1 :=
    sets_scratch 1 (by decide)
  induction left generalizing position code with
  | zero =>
      cases found
      exact .nil
  | succ left ih =>
      rw [Comparand.compareFrom] at found
      obtain ⟨place, reached, found⟩ := ok_of_bind found
      obtain ⟨difference, subtracted, found⟩ := ok_of_bind found
      have among : ⟨.slot base, size⟩ ∈ Storage.mk (.slot base) size :: others := List.mem_cons_self
      have compared : Formed (grant dst (⟨.slot base, size⟩ :: others) targets)
          (Insn.load Width.byte.bits reg .frame place :: difference) := by
        refine .cons (.load set (reads_byte among (show position < size by omega) reached)) ?_
        cases stored with
        | @slot offset size' long' =>
            obtain ⟨place', reached', same⟩ := ok_of_bind subtracted
            cases same
            exact .cons (.load r1 (reads_byte (List.mem_cons_of_mem _ List.mem_cons_self)
              (show position < size' by omega) reached'))
                (.cons (.arithmetic 0 rfl set (.inl r1)) .nil)
        | literal bytes =>
            cases subtracted
            exact .cons (.arithmetic _ rfl set (uses_scratch 0 (by decide))) .nil
      simp only at found
      split at found
      · cases found
        exact compared
      · obtain ⟨rest, continued, found⟩ := ok_of_bind found
        cases found
        have leaving : Formed (grant dst (⟨.slot base, size⟩ :: others) targets)
            (comparand.leave reg done) := by
          cases stored with
          | slot offset _ =>
              exact .cons (.jump 0 (.inl rfl) (.inl r1) target)
                (.cons (.jump 0 (.inr rfl) (.inl set) target) .nil)
          | literal bytes => exact .cons (.jump 0 (.inr rfl) (.inl set) target) .nil
        exact (compared.append leaving).append (ih (by omega) continued)

/-- The difference is put where it belongs, possibly with the other sign. -/
theorem formed_difference (srcs : List Storage) {own : Storage} (swapped : Bool)
    (stores : Stores (own.register?.getD .r0) own code) :
    Formed (grant (some own) srcs targets)
      ((if swapped then [alu64Imm Opcode.neg (own.register?.getD .r0) 0] else []) ++ code) := by
  have set := @sets_result srcs targets own
  have stored : Formed (grant (some own) srcs targets) code := formed_stores stores (.inl set)
  refine .append ?_ stored
  split
  · exact .cons (.arithmetic 0 rfl set (uses_scratch 0 (by decide))) .nil
  · exact .nil

/-- The instructions of a piece, which jumps to its own labels only. -/
theorem formed (piece : Piece dst srcs code) (own : ∀ name, .label name ∈ code → targets name) :
    Formed (grant dst srcs targets) code := by
  have r0 : (grant dst srcs targets).sets .r0 := sets_scratch 0 (by decide)
  have r3 : (grant dst srcs targets).sets .r3 := sets_scratch 3 (by decide)
  have result {reg : Reg} {size : Nat} :
      (grant (some ⟨.register reg, size⟩) srcs targets).sets reg :=
    .inr ⟨_, rfl, rfl⟩
  have inSlot {offset : Int16} {size : Nat} (position : Int) (member : Slot offset size position) :
      (grant (some ⟨.slot offset, size⟩) srcs targets).writes position :=
    fun _ => ⟨_, rfl, Storage.covers_slot.mpr member⟩
  have call {number : UInt8} {map : Nat} {code : List Insn} (small : number < 5)
      (formed : Formed (grant dst srcs targets) code) :
      Formed (grant dst srcs targets) (.mapRef (.machine number) map :: code) :=
    .cons (.mapRef map (sets_scratch number small)) formed
  cases piece with
  | numberRegister reg size imm => exact .cons (.arithmetic imm rfl result (.inl r0)) .nil
  | wideRegister reg size value => exact .cons (.wide value result) .nil
  | numberSlot offset width value =>
      unfold constantCode
      split
      · exact .cons (.storeImm _ inSlot) .nil
      · exact .cons (.wide value r0) (.cons (.store (.inl r0) inSlot) .nil)
  | fill offset bytes => exact formed_fill
  | clear offset size => exact formed_clear
  | contextRegister reg width offset => exact .cons (.context width offset result) .nil
  | contextSlot slot' width offset =>
      exact .cons (.context width offset r0) (.cons (.store (.inl r0) inSlot) .nil)
  | load size loads => exact formed_loads loads result List.mem_cons_self
  | copy copies =>
      cases copies with
      | register reg width =>
          exact .cons (.store (.inr (.inr (.inr ⟨_, List.mem_cons_self, rfl⟩))) inSlot) .nil
      | slot start size => exact formed_copy List.mem_cons_self
  | @convert _ src _ _ signed loads stores =>
      refine (formed_loads loads r0 List.mem_cons_self).append
        (.append ?_ (formed_stores stores (.inl r0)))
      unfold wideningCode
      split
      · exact .cons (.arithmetic _ rfl r0 (.inl r0)) (.cons (.arithmetic _ rfl r0 (.inl r0)) .nil)
      · exact .nil
  | read offset size points =>
      obtain ⟨formed, use⟩ := formed_points points
      exact formed.append (formed_readCode use)
  | readText offset size loads =>
      have asks := Formed.asks (.readText : Asks offset size _) inSlot (.nil)
      rw [List.append_nil] at asks
      exact (formed_loads loads r3 List.mem_cons_self).append asks
  | @lookup number key keySize offset size miss hit different =>
      have target (name : Label) (member : name = miss ∨ name = hit) : targets name := by
        refine own name ?_
        rcases member with rfl | rfl <;> simp [lookupCode]
      refine call (by decide) ((formed_address (by decide)).append (.cons (.call rfl) ?_))
      refine .cons (.jump 0 (.inl rfl) (.inl r0) (target _ (.inl rfl))) ?_
      refine (formed_readCode (.inl r0)).append ?_
      refine .cons (.goto (target _ (.inr rfl))) (.cons (.label miss) ?_)
      exact formed_clear.append (.cons (.label hit) .nil)
  | update number key keySize value valueSize =>
      exact call (by decide)
        ((formed_address (by decide)).append ((formed_address (by decide)).append
        (.cons (.arithmetic _ rfl (sets_scratch 4 (by decide)) (.inl r0))
          (.cons (.call rfl) .nil))))
  | delete number key keySize =>
      exact call (by decide) ((formed_address (by decide)).append (.cons (.call rfl) .nil))
  | @compare storage comparand base done length compared stored size others swapped room long among
      compares stores =>
      exact (formed_compareFrom sets_result (own done (by simp)) long among
        (by omega) compares).append
        (.cons (.label done) (formed_difference _ _ stores))

end Piece

end TraceProbe
