import Mathlib.Order.Bounds.Defs
import TraceProbe.Emission.Basic
import TraceProbe.Proofs.Stream.Growth
import TraceProbe.Proofs.Ty.Alignment

/-!
# Reserved slots

A stream answers calls one after the other.  Some of them ask for a slot of the
frame, directly or for a value that is to be stored there, and a slot is
refused if the frame would grow beyond its limit.  However sizes, alignments
and refusals are mixed, the slots of one stream are aligned, lie in the frame
and do not overlap: each one takes positions below all that were in use, and
one rounding settles both where the slot begins and where the next one ends.
-/

namespace TraceProbe

namespace Emit

variable {stream : Stream} {size alignment : Nat}

theorem outcome_freshSlot_of_full (full : stream.limit < frameEnd stream.used size alignment) :
    outcome (freshSlot size alignment) stream =
      (.error (.diagnostic (.resourceLimit s!"stack exhausted: {
        frameEnd stream.used size alignment} bytes needed, {stream.limit} available" {})),
        stream) := by
  simp only [freshSlot, outcome_bind, outcome_get]
  rw [if_pos full]
  rfl

theorem outcome_freshSlot_of_fits (small : stream.limit ≤ 32767)
    (fits : frameEnd stream.used size alignment ≤ stream.limit) :
    ∃ offset : Int16, offset.toInt = -(frameEnd stream.used size alignment : Int) ∧
      outcome (freshSlot size alignment) stream =
        (.ok offset, { stream with used := frameEnd stream.used size alignment }) := by
  obtain ⟨offset, known⟩ := exists_slotOffset? (Nat.le_trans fits small)
  exact ⟨offset, Stream.toInt_of_slotOffset? (Nat.le_trans fits small) known,
    yields_freshSlot_iff.mpr ⟨fits, known, rfl⟩⟩

/-- The frame ends at the next multiple of the alignment behind the new bytes. -/
theorem isLeast_frameEnd (used size alignment : Nat) :
    IsLeast {last | min (max alignment 1) 8 ∣ last ∧ used + max size 1 ≤ last}
      (frameEnd used size alignment) := by
  constructor
  · exact ⟨dvd_alignUp (by omega), le_alignUp _ _⟩
  · intro last both
    exact alignUp_le both.1 both.2

end Emit

namespace Stream

/-- What may be done to a stream. -/
inductive Call where
  | code (insns : List Insn)
  | freshLabel
  | bind (label : Label)
  | freshReg
  | freshSlot (size alignment : Nat)
  | storageFor (storage : Storage) (type : Ty) (request : Request)
  /-- Storage for an operator that has some already, or none. -/
  | allocate (own : Storage) (type : Ty) (request : Request)

namespace Call

/-- The outcome of a step, with the place that its value names. -/
def placed {α : Type} (place : α → Place) (found : Except Fault α × Stream) :
    Except Fault Place × Stream :=
  (found.1.map place, found.2)

/-- The place that answers a call, and the stream behind it. -/
def run : Call → Stream → Except Fault Place × Stream
  | code insns, stream => placed (fun _ => .unassigned) (outcome (Emit.code insns) stream)
  | freshLabel, stream => placed (fun _ => .unassigned) (outcome Emit.freshLabel stream)
  | bind label, stream => placed (fun _ => .unassigned) (outcome (Emit.bind label) stream)
  | freshReg, stream => placed .register (outcome Emit.freshReg stream)
  | freshSlot size alignment, stream =>
      placed .slot (outcome (Emit.freshSlot size alignment) stream)
  | storageFor storage type request, stream =>
      placed Storage.place (outcome (Emit.storageFor storage type request) stream)
  | allocate own type request, stream =>
      let found := outcome (AtSite.allocate type request) ⟨stream, own⟩
      (found.1.map Storage.place, found.2.stream)

/-- Size and alignment of the slot that a call asks for.  A value needs none if
it has a place, its parent chose one, it goes into a register or takes no
room. -/
def asks? : Call → Option (Nat × Nat)
  | freshSlot size alignment => some (size, alignment)
  | storageFor storage type request | allocate storage type request =>
      if storage.isAssigned || request.slot.isSome || (type.isWord && !request.inFrame) ||
        type.size = 0 then none
      else some (type.size, type.align)
  | code _ | freshLabel | bind _ | freshReg => none

end Call

/-- A call, the streams before and after it, and its answer. -/
structure Entry where
  call : Call
  before : Stream
  answer : Except Fault Place
  after : Stream

/-- The entry of a call on a stream. -/
def Call.entry (call : Call) (stream : Stream) : Entry :=
  ⟨call, stream, (call.run stream).1, (call.run stream).2⟩

/-- The entries of calls that are made one after the other, whether or not some
of them are refused. -/
def history (stream : Stream) : List Call → List Entry
  | [] => []
  | call :: calls => call.entry stream :: history (call.run stream).2 calls

namespace Entry

/-- What becomes of a call for a slot in a frame of a given limit. -/
structure Answered (entry : Entry) (limit size alignment : Nat) : Prop where
  /-- Refused are exactly the slots for which the frame would grow too large. -/
  refused : (∃ fault, entry.answer = .error fault) ↔
    limit < Emit.frameEnd entry.before.used size alignment
  unchanged : ∀ fault, entry.answer = .error fault →
    (∃ text, fault = .diagnostic (.resourceLimit text {})) ∧ entry.after = entry.before
  granted : ∀ place, entry.answer = .ok place → ∃ offset : Int16, place = .slot offset ∧
    entry.after.used = Emit.frameEnd entry.before.used size alignment ∧
    offset.toInt = -(entry.after.used : Int) ∧ -(limit : Int) ≤ offset.toInt ∧ offset.toInt < 0 ∧
    ((min (max alignment 1) 8 : Nat) : Int) ∣ offset.toInt

/-- The positions of the slot that a call was given. -/
def Takes (entry : Entry) (position : Int) : Prop :=
  ∃ size alignment offset, entry.call.asks? = some (size, alignment) ∧
    entry.answer = .ok (.slot offset) ∧ Slot offset (max size 1) position

/-- Two calls were not given a position in common. -/
def Apart (first second : Entry) : Prop :=
  ∀ position, first.Takes position → ¬ second.Takes position

end Entry

variable {stream : Stream} {call : Call} {calls : List Call} {size alignment : Nat}

section Places

variable {storage : Storage} {type : Ty} {request : Request}

theorem outcome_storageFor_of_assigned (assigned : storage.isAssigned = true) :
    outcome (Emit.storageFor storage type request) stream = (.ok storage, stream) := by
  rw [Emit.storageFor, if_pos assigned]
  rfl

theorem outcome_storageFor_of_free (free : storage.isAssigned = false) :
    outcome (Emit.storageFor storage type request) stream =
      ((outcome (Emit.freshPlace type request) stream).1.map (⟨·, type.size⟩),
        (outcome (Emit.freshPlace type request) stream).2) := by
  rw [Emit.storageFor, if_neg (by rw [free]; exact Bool.false_ne_true)]
  exact outcome_bind_pure _ _ _

theorem outcome_allocate_of_assigned (assigned : storage.isAssigned = true) :
    outcome (AtSite.allocate type request) ⟨stream, storage⟩ =
      (.ok storage, ⟨stream, storage⟩) := by
  simp only [AtSite.allocate, outcome_bind, outcome_getThe, if_pos assigned, outcome_pure]

/-- The size of a value is known even if no place is found. -/
theorem outcome_allocate_of_free (free : storage.isAssigned = false) :
    outcome (AtSite.allocate type request) ⟨stream, storage⟩ =
      match outcome (Emit.freshPlace type request) stream with
      | (.ok place, finish) => (.ok ⟨place, type.size⟩, ⟨finish, ⟨place, type.size⟩⟩)
      | (.error fault, finish) => (.error fault, ⟨finish, ⟨storage.place, type.size⟩⟩) := by
  have lifted (site : Site) : outcome (liftM (Emit.freshPlace type request) : AtSite Place) site =
      ((outcome (Emit.freshPlace type request) site.stream).1,
        { site with stream := (outcome (Emit.freshPlace type request) site.stream).2 }) := rfl
  simp only [AtSite.allocate, outcome_bind, outcome_getThe, free, Bool.false_eq_true, if_false,
    outcome_modifyThe, lifted, outcome_pure]
  rcases outcome (Emit.freshPlace type request) stream with ⟨fault | place, finish⟩ <;> rfl

theorem run_allocate (own : Storage) (type : Ty) (request : Request) (stream : Stream) :
    (Call.allocate own type request).run stream =
      (Call.storageFor own type request).run stream := by
  cases assigned : own.isAssigned with
  | true =>
      simp only [Call.run, Call.placed, outcome_storageFor_of_assigned assigned,
        outcome_allocate_of_assigned assigned]
  | false =>
      simp only [Call.run, Call.placed, outcome_storageFor_of_free assigned,
        outcome_allocate_of_free assigned]
      rcases outcome (Emit.freshPlace type request) stream with ⟨fault | place, finish⟩ <;> rfl

theorem run_storageFor_of_asks
    (asks : (Call.storageFor storage type request).asks? = some (size, alignment)) :
    (Call.storageFor storage type request).run stream =
      (Call.freshSlot size alignment).run stream := by
  simp only [Call.asks?, Bool.or_eq_true, decide_eq_true_eq, not_or,
    Option.ite_none_left_eq_some] at asks
  obtain ⟨⟨⟨⟨free, chosen⟩, frame⟩, room⟩, same⟩ := asks
  cases same
  simp only [Bool.not_eq_true, Option.isSome_eq_false_iff, Option.isNone_iff_eq_none] at free chosen
  have placed : outcome (Emit.freshPlace type request) stream =
      ((outcome (Emit.freshSlot type.size type.align) stream).1.map .slot,
        (outcome (Emit.freshSlot type.size type.align) stream).2) := by
    rw [Emit.freshPlace, chosen, if_neg frame, if_pos (Nat.pos_of_ne_zero room)]
    exact outcome_bind_pure _ _ _
  simp only [Call.run, Call.placed, outcome_storageFor_of_free free, placed]
  rcases outcome (Emit.freshSlot type.size type.align) stream with ⟨fault | offset, finish⟩ <;> rfl

theorem frame_storageFor_of_not_asks (asks : (Call.storageFor storage type request).asks? = none) :
    ((Call.storageFor storage type request).run stream).2.used = stream.used ∧
      ((Call.storageFor storage type request).run stream).2.limit = stream.limit := by
  cases assigned : storage.isAssigned with
  | true =>
      simp only [Call.run, Call.placed, outcome_storageFor_of_assigned assigned]
      trivial
  | false =>
      simp only [Call.run, Call.placed, outcome_storageFor_of_free assigned]
      cases chosen : request.slot with
      | some offset =>
        rw [Emit.freshPlace, chosen]
        exact ⟨rfl, rfl⟩
      | none =>
        rw [Emit.freshPlace, chosen]
        by_cases frame : (type.isWord && !request.inFrame) = true
        · rw [if_pos frame]
          exact ⟨rfl, rfl⟩
        · rw [if_neg frame]
          have empty : type.size = 0 := by simpa [Call.asks?, assigned, chosen, frame] using asks
          rw [if_neg (Nat.not_lt.mpr (Nat.le_of_eq empty))]
          exact ⟨rfl, rfl⟩

end Places

/-- However a slot is asked for, it is reserved in the same way. -/
theorem run_of_asks (asks : call.asks? = some (size, alignment)) :
    call.run stream = (Call.freshSlot size alignment).run stream := by
  cases call with
  | freshSlot size' alignment' =>
      cases asks
      rfl
  | storageFor storage type request => exact run_storageFor_of_asks asks
  | allocate own type request =>
      rw [run_allocate]
      exact run_storageFor_of_asks asks
  | code _ | freshLabel | bind _ | freshReg => cases asks

theorem frame_of_not_asks (asks : call.asks? = none) :
    (call.run stream).2.used = stream.used ∧ (call.run stream).2.limit = stream.limit := by
  cases call with
  | freshSlot size alignment => cases asks
  | storageFor storage type request => exact frame_storageFor_of_not_asks asks
  | allocate own type request =>
      rw [run_allocate]
      exact frame_storageFor_of_not_asks asks
  | bind label =>
      by_cases free : stream.labels[label.index]? = some false
      · rw [Call.run, Emit.outcome_bind_of_free free]
        exact ⟨rfl, rfl⟩
      · obtain ⟨fault, same⟩ := Emit.outcome_bind_of_not_free free
        rw [Call.run, same]
        exact ⟨rfl, rfl⟩
  | code _ | freshLabel | freshReg => exact ⟨rfl, rfl⟩

theorem run_of_full (asks : call.asks? = some (size, alignment))
    (full : stream.limit < Emit.frameEnd stream.used size alignment) :
    ∃ text, call.run stream = (.error (.diagnostic (.resourceLimit text {})), stream) := by
  rw [run_of_asks asks, Call.run, Emit.outcome_freshSlot_of_full full]
  exact ⟨_, rfl⟩

theorem run_of_fits (small : stream.limit ≤ 32767) (asks : call.asks? = some (size, alignment))
    (fits : Emit.frameEnd stream.used size alignment ≤ stream.limit) :
    ∃ offset : Int16, offset.toInt = -(Emit.frameEnd stream.used size alignment : Int) ∧
      call.run stream =
        (.ok (.slot offset), { stream with used := Emit.frameEnd stream.used size alignment }) := by
  obtain ⟨offset, place, found⟩ := Emit.outcome_freshSlot_of_fits small fits
  rw [run_of_asks asks, Call.run, found]
  exact ⟨offset, place, rfl⟩

theorem answered_entry (small : stream.limit ≤ 32767) (asks : call.asks? = some (size, alignment)) :
    (call.entry stream).Answered stream.limit size alignment := by
  rcases Nat.lt_or_ge stream.limit (Emit.frameEnd stream.used size alignment) with full | fits
  · obtain ⟨text, same⟩ := run_of_full asks full
    have entry : call.entry stream =
        ⟨call, stream, .error (.diagnostic (.resourceLimit text {})), stream⟩ := by
      rw [Call.entry, same]
    rw [entry]
    refine ⟨⟨fun _ => full, fun _ => ⟨_, rfl⟩⟩, ?_, fun _ granted => (by cases granted)⟩
    intro _ refused
    cases refused
    exact ⟨⟨text, rfl⟩, rfl⟩
  · obtain ⟨offset, place, same⟩ := run_of_fits small asks fits
    have entry : call.entry stream = ⟨call, stream, .ok (.slot offset),
        { stream with used := Emit.frameEnd stream.used size alignment }⟩ := by
      rw [Call.entry, same]
    obtain ⟨multiple, room⟩ := (Emit.isLeast_frameEnd stream.used size alignment).1
    rw [entry]
    refine ⟨⟨?_, fun full => absurd fits (Nat.not_le.mpr full)⟩,
      fun _ refused => (by cases refused), ?_⟩
    · rintro ⟨_, refused⟩
      cases refused
    · intro _ granted
      cases granted
      refine ⟨offset, rfl, rfl, place, ?_, ?_, ?_⟩
      · omega
      · omega
      · rw [place, Int.dvd_neg]
        exact Int.natCast_dvd_natCast.mpr multiple

theorem frame_run (small : stream.limit ≤ 32767) (call : Call) :
    stream.used ≤ (call.run stream).2.used ∧ (call.run stream).2.limit = stream.limit := by
  cases asks : call.asks? with
  | none =>
      obtain ⟨used, limit⟩ := @frame_of_not_asks stream call asks
      exact ⟨Nat.le_of_eq used.symm, limit⟩
  | some asked =>
      obtain ⟨size, alignment⟩ := asked
      have room := le_frameEnd stream.used size alignment
      rcases Nat.lt_or_ge stream.limit (Emit.frameEnd stream.used size alignment) with full | fits
      · obtain ⟨fault, same⟩ := run_of_full asks full
        rw [same]
        exact ⟨Nat.le_refl _, rfl⟩
      · obtain ⟨offset, -, same⟩ := run_of_fits small asks fits
        rw [same]
        exact ⟨Nat.le_trans (Nat.le_add_right _ _) room, rfl⟩

/-- A slot takes positions between the frame before and the frame after. -/
theorem handed_of_takes (small : stream.limit ≤ 32767) {position : Int}
    (takes : (call.entry stream).Takes position) : Handed stream (call.run stream).2 position := by
  obtain ⟨size, alignment, offset, asks, granted, low, high⟩ := takes
  obtain ⟨offset', same, ended, place, -⟩ := (answered_entry small asks).granted _ granted
  cases same
  have room := (Emit.isLeast_frameEnd stream.used size alignment).1.2
  have used : (call.run stream).2.used = Emit.frameEnd stream.used size alignment := ended
  have start : offset.toInt = -((call.run stream).2.used : Int) := place
  exact ⟨by omega, by omega⟩

theorem exists_of_mem_history (small : stream.limit ≤ 32767) {entry : Entry}
    (member : entry ∈ stream.history calls) :
    ∃ (call : Call) (before : Stream), entry = call.entry before ∧
      stream.used ≤ before.used ∧ before.limit = stream.limit := by
  induction calls generalizing stream with
  | nil => cases member
  | cons call calls ih =>
      rcases List.mem_cons.mp member with rfl | later
      · exact ⟨call, stream, rfl, Nat.le_refl _, rfl⟩
      · obtain ⟨used, limit⟩ := frame_run small call
        obtain ⟨call', before, same, more, kept⟩ := ih (limit ▸ small) later
        exact ⟨call', before, same, Nat.le_trans used more, kept.trans limit⟩

theorem pairwise_apart (small : stream.limit ≤ 32767) (calls : List Call) :
    (stream.history calls).Pairwise Entry.Apart := by
  induction calls generalizing stream with
  | nil => exact .nil
  | cons call calls ih =>
      have small' : (call.run stream).2.limit ≤ 32767 := (frame_run small call).2 ▸ small
      refine .cons ?_ (ih small')
      intro entry member position first second
      obtain ⟨call', before, rfl, more, limit⟩ := exists_of_mem_history small' member
      have above := (handed_of_takes small first).1
      have below := (handed_of_takes (limit ▸ small') second).2
      omega

/-- Over every sequence of calls on a stream whose limit an offset can reach, a
slot is refused exactly if the frame would grow beyond the limit.  Slots that
are granted are aligned, lie within the limit and do not overlap.  Nothing else
takes room, and storage that has a place keeps it. -/
theorem slots_apart_and_aligned (stream : Stream) (small : stream.limit ≤ 32767)
    (calls : List Call) :
    (∀ entry ∈ stream.history calls, ∀ size alignment, entry.call.asks? = some (size, alignment) →
      entry.Answered stream.limit size alignment ∧
        IsLeast {last | min (max alignment 1) 8 ∣ last ∧ entry.before.used + max size 1 ≤ last}
          (Emit.frameEnd entry.before.used size alignment)) ∧
      (stream.history calls).Pairwise Entry.Apart ∧
      (∀ entry ∈ stream.history calls, entry.call.asks? = none →
        entry.after.used = entry.before.used) ∧
      ∀ entry ∈ stream.history calls, ∀ storage type request, storage.isAssigned = true →
        outcome (Emit.storageFor storage type request) entry.before = (.ok storage, entry.before) ∧
          outcome (AtSite.allocate type request) ⟨entry.before, storage⟩ =
            (.ok storage, ⟨entry.before, storage⟩) := by
  refine ⟨fun entry member size alignment asks => ⟨?_, Emit.isLeast_frameEnd _ _ _⟩,
    pairwise_apart small calls, ?_, fun entry _ storage type request assigned =>
      ⟨outcome_storageFor_of_assigned assigned, outcome_allocate_of_assigned assigned⟩⟩
  · obtain ⟨call, before, rfl, -, limit⟩ := exists_of_mem_history small member
    rw [← limit]
    exact answered_entry (limit ▸ small) asks
  · intro entry member asks
    obtain ⟨call, before, rfl, -, -⟩ := exists_of_mem_history small member
    exact (frame_of_not_asks asks).1

/-- A frame of 32 bytes is filled in three ways, and then has no room for one
byte more. -/
theorem slots_apart_and_aligned_full :
    (new 32).limit ≤ 32767 ∧
      ((new 32).history [.freshSlot 1 1, .storageFor {} .u64 .frame,
        .allocate {} (.array .char 16) {}, .freshSlot 1 1]).map (·.answer.toOption) =
          [some (.slot (-1)), some (.slot (-16)), some (.slot (-32)), none] ∧
      ((new 32).history [.freshSlot 1 1, .storageFor {} .u64 .frame,
        .allocate {} (.array .char 16) {}, .freshSlot 1 1]).Pairwise Entry.Apart := by
  refine ⟨by decide, rfl, ?_⟩
  obtain ⟨-, apart, -⟩ := slots_apart_and_aligned (new 32) (by decide)
    [.freshSlot 1 1, .storageFor {} .u64 .frame, .allocate {} (.array .char 16) {},
      .freshSlot 1 1]
  exact apart

end Stream

end TraceProbe
