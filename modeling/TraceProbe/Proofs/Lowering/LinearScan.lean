import TraceProbe.Proofs.Lowering.Intervals
import TraceProbe.Proofs.Results
import Mathlib.Data.List.Perm.Basic

/-!
# The linear scan

The scan gives different machine registers to intervals that share a position.
Machine registers are never lost: at every time each of them is either free or
held by one live interval.
-/

namespace TraceProbe

namespace Interval

/-- Whether two intervals share a position. -/
def Overlap (left right : Interval) : Prop :=
  left.first ≤ right.last ∧ right.first ≤ left.last

theorem Overlap.symm {left right : Interval} (overlap : Overlap left right) :
    Overlap right left :=
  ⟨overlap.2, overlap.1⟩

end Interval

namespace Allocation

/-- The machine registers of virtual ones. -/
def allocatable : List UInt8 := ({} : Allocation).free

theorem eq_of_mem_allocatable {number : UInt8} (member : number ∈ allocatable) :
    number = 6 ∨ number = 7 ∨ number = 8 := by
  simpa [allocatable] using member

/-- What holds between two intervals of the scan, when no later one starts
before a position. -/
structure Invariant (position : Nat) (done : List Interval) (state : Allocation) : Prop where
  registers : (state.active.map (·.2) ++ state.free).Perm allocatable
  assigned : ∀ interval ∈ done, ∃ register ∈ allocatable,
    state.assigned.lookup interval.register = some register
  live : ∀ interval ∈ done, ∀ register, state.assigned.lookup interval.register = some register →
    (interval.last, register) ∈ state.active ∨ interval.last < position
  apart : ∀ left ∈ done, ∀ right ∈ done, left.register ≠ right.register →
    Interval.Overlap left right →
      state.assigned.lookup left.register ≠ state.assigned.lookup right.register

theorem invariant_start : Invariant 0 [] {} where
  registers := List.Perm.refl _
  assigned := fun _ member => by cases member
  live := fun _ member => by cases member
  apart := fun _ member => by cases member

theorem foldl_free (ended : List (Nat × UInt8)) (free : List UInt8) :
    (ended.foldl (fun free entry => entry.2 :: free) free).Perm (ended.map (·.2) ++ free) := by
  induction ended generalizing free with
  | nil => exact List.Perm.refl _
  | cons entry ended ih =>
      refine (ih (entry.2 :: free)).trans ?_
      exact List.perm_middle

/-- Expiry moves registers from live intervals to the free ones. -/
theorem Invariant.expire {position start : Nat} {done : List Interval} {state : Allocation}
    (invariant : Invariant position done state) (later : position ≤ start) :
    Invariant start done (state.expire start) where
  registers := by
    refine List.Perm.trans ?_ invariant.registers
    have cut : (state.active.filter (fun entry => decide (start ≤ entry.1)) ++
        state.active.filter (fun entry => decide (entry.1 < start))).Perm state.active := by
      have parts := List.filter_append_perm (fun entry : Nat × UInt8 => decide (start ≤ entry.1))
        state.active
      simpa only [← decide_not, Nat.not_le] using parts
    have moved := (foldl_free (state.active.filter (fun entry => decide (entry.1 < start)))
      state.free).append_left
        ((state.active.filter (fun entry => decide (start ≤ entry.1))).map (·.2))
    refine moved.trans ?_
    rw [← List.append_assoc, ← List.map_append]
    exact (cut.map _).append_right _
  assigned := invariant.assigned
  live := by
    intro interval member register found
    rcases invariant.live interval member register found with active | ended
    · rcases Nat.lt_or_ge interval.last start with before | after
      · exact Or.inr before
      · left
        exact List.mem_filter.mpr ⟨active, decide_eq_true after⟩
    · exact Or.inr (Nat.lt_of_lt_of_le ended later)
  apart := invariant.apart

theorem lookup_cons_ne {register other : Nat} {value : UInt8} {assigned : Assignment}
    (different : other ≠ register) :
    List.lookup other ((register, value) :: assigned) = assigned.lookup other := by
  rw [List.lookup_cons, beq_false_of_ne different]

/-- An interval takes the first register that is free at its start. -/
theorem exists_free_of_place {state next : Allocation} {interval : Interval}
    (placed : state.place interval = .ok next) :
    ∃ register rest, (state.expire interval.first).free = register :: rest ∧
      { state.expire interval.first with
        active := (state.expire interval.first).active ++ [(interval.last, register)]
        free := rest
        assigned := (interval.register, register) :: (state.expire interval.first).assigned } =
            next := by
  rw [place] at placed
  cases free : (state.expire interval.first).free with
  | nil => simp [free] at placed
  | cons register rest =>
      simp only [free, Except.ok.injEq] at placed
      exact ⟨register, rest, rfl, placed⟩

/-- Placing an interval that starts where all later ones do or before. -/
theorem Invariant.place {position : Nat} {done : List Interval} {state next : Allocation}
    {interval : Interval} (invariant : Invariant position done state)
    (later : position ≤ interval.first)
    (fresh : ∀ earlier ∈ done, earlier.register ≠ interval.register)
    (placed : state.place interval = .ok next) :
    Invariant interval.first (interval :: done) next := by
  have expired := invariant.expire later
  obtain ⟨register, rest, free, rfl⟩ := exists_free_of_place placed
  generalize state.expire interval.first = state at expired free
  have registers := expired.registers
  rw [free] at registers
  have distinct : (state.active.map (·.2) ++ register :: rest).Nodup :=
    registers.nodup_iff.mpr (by decide)
  have notActive : ∀ entry ∈ state.active, entry.2 ≠ register := by
    intro entry member same
    have both := List.disjoint_of_nodup_append distinct (List.mem_map.mpr ⟨entry, member, same⟩)
    exact both List.mem_cons_self
  have known : register ∈ allocatable :=
    registers.mem_iff.mp (List.mem_append_right _ List.mem_cons_self)
  have here : List.lookup interval.register
      ((interval.register, register) :: state.assigned) = some register :=
    List.lookup_cons_self
  have there : ∀ earlier ∈ done, List.lookup earlier.register
      ((interval.register, register) :: state.assigned) =
        state.assigned.lookup earlier.register :=
    fun earlier member => lookup_cons_ne (fresh earlier member)
  -- An earlier interval that reaches the new one still holds its register.
  have held : ∀ earlier ∈ done, Interval.Overlap earlier interval →
      state.assigned.lookup earlier.register ≠ some register := by
    intro earlier member overlap found
    rcases expired.live earlier member register found with active | ended
    · exact notActive _ active rfl
    · exact absurd overlap.2 (Nat.not_le.mpr ended)
  refine ⟨?_, ?_, ?_, ?_⟩
  · refine List.Perm.trans ?_ registers
    rw [List.map_append, List.append_assoc]
    exact List.Perm.refl _
  · intro other member
    rcases List.mem_cons.mp member with rfl | earlier
    · exact ⟨register, known, here⟩
    · rw [there other earlier]
      exact expired.assigned other earlier
  · intro other member found same
    rcases List.mem_cons.mp member with rfl | earlier
    · rw [here] at same
      cases same
      exact Or.inl (List.mem_append_right _ List.mem_cons_self)
    · rw [there other earlier] at same
      rcases expired.live other earlier found same with active | ended
      · exact Or.inl (List.mem_append_left _ active)
      · exact Or.inr ended
  · intro left leftMember right rightMember different overlap
    rcases List.mem_cons.mp leftMember with rfl | leftEarlier
    · rcases List.mem_cons.mp rightMember with rfl | rightEarlier
      · exact absurd rfl different
      · rw [here, there right rightEarlier]
        exact (held right rightEarlier overlap.symm).symm
    · rcases List.mem_cons.mp rightMember with rfl | rightEarlier
      · rw [here, there left leftEarlier]
        exact held left leftEarlier overlap
      · rw [there left leftEarlier, there right rightEarlier]
        exact expired.apart left leftEarlier right rightEarlier different overlap

/-- The intervals that are left for the scan: in the order of their starts, behind
all that are done, and of other registers. -/
structure Ahead (position : Nat) (done todo : List Interval) : Prop where
  sorted : todo.Pairwise fun left right => left.first ≤ right.first
  later : ∀ interval ∈ todo, position ≤ interval.first
  distinct : (todo.map (·.register)).Nodup
  fresh : ∀ earlier ∈ done, ∀ interval ∈ todo, earlier.register ≠ interval.register

theorem Ahead.next {position : Nat} {done todo : List Interval} {interval : Interval}
    (ahead : Ahead position done (interval :: todo)) :
    Ahead interval.first (interval :: done) todo := by
  obtain ⟨starts, sorted⟩ := List.pairwise_cons.mp ahead.sorted
  obtain ⟨other, distinct⟩ := List.nodup_cons.mp ahead.distinct
  refine ⟨sorted, starts, distinct, ?_⟩
  intro earlier member next inside
  rcases List.mem_cons.mp member with rfl | before
  · intro same
    exact other (List.mem_map.mpr ⟨next, inside, same.symm⟩)
  · exact ahead.fresh earlier before next (List.mem_cons_of_mem _ inside)

theorem ahead_ofInsns (code : List Insn) : Ahead 0 [] (Interval.ofInsns code) where
  sorted := Interval.sorted_ofInsns code
  later := fun _ _ => Nat.zero_le _
  distinct := Interval.distinct_ofInsns code
  fresh := fun _ member => by cases member

theorem invariant_scan (todo : List Interval) {position : Nat} {done : List Interval}
    {state final : Allocation} (invariant : Invariant position done state)
    (ahead : Ahead position done todo) (scanned : todo.foldlM Allocation.place state = .ok final) :
    ∃ last, Invariant last (todo.reverse ++ done) final := by
  -- Induction on the intervals that are left.
  induction todo generalizing position done state with
  | nil =>
      cases scanned
      exact ⟨position, invariant⟩
  | cons interval todo ih =>
      rw [List.foldlM_cons] at scanned
      obtain ⟨next, placed, scanned⟩ := ok_of_bind scanned
      have following := invariant.place (ahead.later interval List.mem_cons_self)
        (fun earlier member => ahead.fresh earlier member interval List.mem_cons_self) placed
      obtain ⟨last, finished⟩ := ih following ahead.next scanned
      refine ⟨last, ?_⟩
      rw [List.reverse_cons, List.append_assoc]
      exact finished

end Allocation

/-- What lowering needs of an assignment: every mentioned virtual register has a
machine register, and two that are both mentioned up to an instruction and from
it on have different ones. -/
structure Assignment.Separates (assignment : Assignment) (code : List Insn) : Prop where
  assigned : ∀ insn ∈ code, ∀ number, .virtual number ∈ insn.regs →
    ∃ register ∈ Allocation.allocatable, assignment.lookup number = some register
  apart : ∀ before insn after, code = before ++ insn :: after →
    ∀ left right, left ≠ right →
      (∃ earlier ∈ before ++ [insn], .virtual left ∈ earlier.regs) →
      (∃ later ∈ insn :: after, .virtual left ∈ later.regs) →
      (∃ earlier ∈ before ++ [insn], .virtual right ∈ earlier.regs) →
      (∃ later ∈ insn :: after, .virtual right ∈ later.regs) →
        assignment.lookup left ≠ assignment.lookup right

namespace Interval

/-- The one interval of a register that is mentioned up to an instruction and
from it on holds the position of the instruction. -/
theorem exists_around {code before after : List Insn} {insn : Insn}
    (split : code = before ++ insn :: after) {register : Nat}
    (sooner : ∃ earlier ∈ before ++ [insn], .virtual register ∈ earlier.regs)
    (later : ∃ later ∈ insn :: after, .virtual register ∈ later.regs) :
    ∃ interval ∈ ofInsns code, interval.register = register ∧
      interval.first ≤ before.length ∧ before.length ≤ interval.last := by
  obtain ⟨earlier, early, mentionedEarly⟩ := sooner
  obtain ⟨late, ahead, mentionedLate⟩ := later
  obtain ⟨front, middle, splitEarly⟩ := List.append_of_mem early
  obtain ⟨between, rest, splitLate⟩ := List.append_of_mem ahead
  have first : code = front ++ earlier :: (middle ++ after) := by
    rw [split, ← List.singleton_append, ← List.append_assoc, splitEarly]
    simp
  have second : code = (before ++ between) ++ late :: rest := by
    rw [split, splitLate, List.append_assoc]
  obtain ⟨interval, member, same, low, -⟩ := covers_ofInsns first mentionedEarly
  obtain ⟨interval', member', same', -, high⟩ := covers_ofInsns second mentionedLate
  have one : interval = interval' := by
    have distinct := distinct_ofInsns code
    exact List.inj_on_of_nodup_map distinct member member' (same.trans same'.symm)
  have frontLength : front.length ≤ before.length := by
    have lengths := congrArg List.length splitEarly
    simp only [List.length_append, List.length_cons, List.length_nil] at lengths
    omega
  subst one
  refine ⟨interval, member, same, Nat.le_trans low frontLength, ?_⟩
  rw [List.length_append] at high
  omega

end Interval

/-- Every interval has a machine register, and intervals that share a position have
different ones. -/
structure Assignment.Suits (assignment : Assignment) (intervals : List Interval) : Prop where
  assigned : ∀ interval ∈ intervals, ∃ register ∈ Allocation.allocatable,
    assignment.lookup interval.register = some register
  apart : ∀ left ∈ intervals, ∀ right ∈ intervals, left.register ≠ right.register →
    Interval.Overlap left right → assignment.lookup left.register ≠ assignment.lookup right.register

theorem suits_of_scan {intervals : List Interval} {final : Allocation}
    (ahead : Allocation.Ahead 0 [] intervals)
    (scanned : intervals.foldlM Allocation.place {} = .ok final) :
    final.assigned.Suits intervals := by
  obtain ⟨last, invariant⟩ :=
    Allocation.invariant_scan intervals Allocation.invariant_start ahead scanned
  have done : ∀ interval ∈ intervals, interval ∈ intervals.reverse ++ [] := by
    intro interval member
    simpa using member
  exact ⟨fun interval member => invariant.assigned interval (done interval member),
    fun left member right member' =>
      invariant.apart left (done left member) right (done right member')⟩

theorem suits_of_assignRegisters {code : List Insn} {assignment : Assignment}
    (assigned : assignRegisters code = .ok assignment) :
    assignment.Suits (Interval.ofInsns code) := by
  obtain ⟨final, scanned, rfl⟩ := ok_of_map assigned
  exact suits_of_scan (Allocation.ahead_ofInsns code) scanned

theorem separates_of_assignRegisters {code : List Insn} {assignment : Assignment}
    (assigned : assignRegisters code = .ok assignment) : assignment.Separates code := by
  have suits := suits_of_assignRegisters assigned
  constructor
  · intro insn member number mentioned
    obtain ⟨before, after, split⟩ := List.append_of_mem member
    obtain ⟨interval, inside, rfl, -⟩ := Interval.covers_ofInsns split mentioned
    exact suits.assigned interval inside
  · intro before insn after split left right different leftEarly leftLate rightEarly rightLate
    obtain ⟨leftInterval, leftMember, rfl, leftFirst, leftLast⟩ :=
      Interval.exists_around split leftEarly leftLate
    obtain ⟨rightInterval, rightMember, rfl, rightFirst, rightLast⟩ :=
      Interval.exists_around split rightEarly rightLate
    exact suits.apart leftInterval leftMember rightInterval rightMember different
      ⟨Nat.le_trans leftFirst rightLast, Nat.le_trans rightFirst leftLast⟩

end TraceProbe
