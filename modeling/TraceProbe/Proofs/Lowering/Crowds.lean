import TraceProbe.Proofs.Lowering.Totality

/-!
# Crowded positions

An interval reaches from the first mention of its register to the last one.  The
scan fails only at a position that more intervals share than there are machine
registers, and where there is such a position it cannot succeed.  It goes by the
intervals alone, not by the order in which a table lists them.
-/

namespace TraceProbe

namespace Insn

variable {code : List Insn} {register position : Nat}

/-- The instruction at a position mentions a virtual register. -/
def Mentions (code : List Insn) (register position : Nat) : Prop :=
  ∃ before insn after, code = before ++ insn :: after ∧ before.length = position ∧
    .virtual register ∈ insn.regs

/-- A position lies between the first and the last mention of a virtual register. -/
def LiveAt (code : List Insn) (register position : Nat) : Prop :=
  ∃ first last, Mentions code register first ∧ Mentions code register last ∧
    first ≤ position ∧ position ≤ last

end Insn

namespace Interval

open Insn (Mentions LiveAt)

section Ends

variable {mentioned : Nat → Nat → Prop} {intervals : List Interval} {position : Nat}

/-- Intervals begin and end with a mention. -/
def Ends (mentioned : Nat → Nat → Prop) (intervals : List Interval) : Prop :=
  ∀ interval ∈ intervals, mentioned interval.register interval.first ∧
    mentioned interval.register interval.last

theorem Ends.mention (ends : Ends mentioned intervals) {register : Nat}
    (here : mentioned register position) :
    Ends mentioned (mention intervals register position) := by
  unfold Interval.mention
  cases found : extend? register position intervals with
  | none =>
      intro interval member
      rcases List.mem_cons.mp member with rfl | later
      · exact ⟨here, here⟩
      · exact ends interval later
  | some extended =>
      obtain ⟨before, interval, after, rfl, rfl, rfl⟩ := exists_of_extend? found
      intro other member
      simp only [Option.getD_some, List.mem_append, List.mem_cons] at member
      rcases member with earlier | rfl | later
      · exact ends other (by simp [earlier])
      · exact ⟨(ends interval (by simp)).1, here⟩
      · exact ends other (by simp [later])

theorem Ends.mentions (ends : Ends mentioned intervals) {registers : List Nat}
    (here : ∀ register ∈ registers, mentioned register position) :
    Ends mentioned (registers.foldl (Interval.mention · · position) intervals) := by
  induction registers generalizing intervals with
  | nil => exact ends
  | cons register registers ih =>
      exact ih (ends.mention (here register List.mem_cons_self))
        fun other member => here other (List.mem_cons_of_mem _ member)

theorem Ends.collect {code : List Insn} (ends : Ends mentioned intervals)
    (each : ∀ register place, Mentions code register place →
      mentioned register (position + place)) :
    Ends mentioned (collect intervals position code) := by
  induction code generalizing intervals position with
  | nil => exact ends
  | cons insn code ih =>
      refine ih (ends.mentions ?_) ?_
      · intro register member
        exact each register 0 ⟨[], insn, code, rfl, rfl, virtual_mem_iff.mp member⟩
      · intro register place mentions
        obtain ⟨before, other, after, rfl, rfl, member⟩ := mentions
        rw [Nat.add_right_comm]
        exact each register _ ⟨insn :: before, other, after, rfl, rfl, member⟩

end Ends

variable {code : List Insn} {register position : Nat}

theorem mentions_of_mem {interval : Interval} (member : interval ∈ ofInsns code) :
    Mentions code interval.register interval.first ∧
      Mentions code interval.register interval.last := by
  have ends : Ends (Mentions code) (collect [] 0 code) :=
    Ends.collect (fun _ none => by cases none) fun register place mentions => by rwa [Nat.zero_add]
  exact ends interval (mem_ofInsns_iff.mp member)

theorem exists_of_mentions (mentions : Mentions code register position) :
    ∃ interval ∈ ofInsns code, interval.register = register ∧ interval.first ≤ position ∧
      position ≤ interval.last := by
  obtain ⟨before, insn, after, split, rfl, member⟩ := mentions
  exact covers_ofInsns split member

theorem liveAt_iff : LiveAt code register position ↔
    ∃ interval ∈ ofInsns code, interval.register = register ∧ interval.first ≤ position ∧
      position ≤ interval.last := by
  constructor
  · rintro ⟨first, last, begins, ends, behind, ahead⟩
    obtain ⟨interval, member, rfl, low, -⟩ := exists_of_mentions begins
    obtain ⟨other, member', same, -, high⟩ := exists_of_mentions ends
    obtain rfl : other = interval :=
      List.inj_on_of_nodup_map (distinct_ofInsns code) member' member same
    exact ⟨other, member, rfl, Nat.le_trans low behind, Nat.le_trans ahead high⟩
  · rintro ⟨interval, member, rfl, low, high⟩
    obtain ⟨begins, ends⟩ := mentions_of_mem member
    exact ⟨_, _, begins, ends, low, high⟩

/-- Intervals of different registers that share a position. -/
structure Crowd (intervals : List Interval) (position : Nat) (crowd : List Interval) : Prop where
  distinct : (crowd.map (·.register)).Nodup
  among : ∀ interval ∈ crowd, interval ∈ intervals
  shared : ∀ interval ∈ crowd, interval.first ≤ position ∧ position ≤ interval.last

theorem exists_crowd_iff {count : Nat} :
    (∃ crowd, Crowd (ofInsns code) position crowd ∧ crowd.length = count) ↔
      ∃ registers : List Nat, registers.Nodup ∧ registers.length = count ∧
        ∀ register ∈ registers, LiveAt code register position := by
  constructor
  · rintro ⟨crowd, crowded, rfl⟩
    refine ⟨crowd.map (·.register), crowded.distinct, List.length_map _, ?_⟩
    intro register member
    obtain ⟨interval, inside, rfl⟩ := List.mem_map.mp member
    exact liveAt_iff.mpr ⟨interval, crowded.among interval inside, rfl,
      crowded.shared interval inside⟩
  · rintro ⟨registers, distinct, rfl, live⟩
    have each : ∀ register ∈ registers, ∃ interval ∈ ofInsns code, interval.register = register ∧
        interval.first ≤ position ∧ position ≤ interval.last :=
      fun register member => liveAt_iff.mp (live register member)
    choose! interval among same shared using each
    have back : (registers.map interval).map (·.register) = registers := by
      rw [List.map_map]
      exact (List.map_congr_left same).trans (List.map_id _)
    refine ⟨registers.map interval, ⟨back.symm ▸ distinct, ?_, ?_⟩, List.length_map _⟩
    · intro other member
      obtain ⟨register, inside, rfl⟩ := List.mem_map.mp member
      exact among register inside
    · intro other member
      obtain ⟨register, inside, rfl⟩ := List.mem_map.mp member
      exact shared register inside

end Interval

namespace Allocation

open TraceProbe.Interval (Crowd)

/-- The live intervals of a scan, with their machine registers. -/
structure Held (position : Nat) (done : List Interval) (state : Allocation)
    (holders : List (Interval × UInt8)) : Prop where
  active : state.active = holders.map fun holder => (holder.1.last, holder.2)
  distinct : (holders.map (·.1.register)).Nodup
  among : ∀ holder ∈ holders, holder.1 ∈ done
  begun : ∀ interval ∈ done, interval.first ≤ position

theorem held_start : Held 0 [] {} [] := by
  refine ⟨rfl, List.nodup_nil, ?_, ?_⟩
  · intro _ member
    cases member
  · intro _ member
    cases member

section Scan

variable {position : Nat} {done todo : List Interval} {state next : Allocation}
  {holders : List (Interval × UInt8)} {interval : Interval}

theorem Held.expire (held : Held position done state holders) {start : Nat}
    (later : position ≤ start) :
    Held start done (state.expire start) (holders.filter (start ≤ ·.1.last)) where
  active := by
    rw [Allocation.expire, held.active, List.filter_map]
    rfl
  distinct := held.distinct.sublist (List.filter_sublist.map _)
  among := fun holder member => held.among holder (List.mem_filter.mp member).1
  begun := fun interval member => Nat.le_trans (held.begun interval member) later

theorem Held.place (held : Held position done state holders)
    (ahead : Ahead position done (interval :: todo)) (placed : state.place interval = .ok next) :
    ∃ holders, Held interval.first (interval :: done) next holders := by
  have expired := held.expire (ahead.later interval List.mem_cons_self)
  obtain ⟨register, rest, -, rfl⟩ := exists_free_of_place placed
  have other : ∀ holder ∈ holders.filter (interval.first ≤ ·.1.last),
      holder.1.register ≠ interval.register :=
    fun holder member => ahead.fresh _ (expired.among holder member) interval List.mem_cons_self
  refine ⟨holders.filter (interval.first ≤ ·.1.last) ++ [(interval, register)], ?_, ?_, ?_, ?_⟩
  · simp only [expired.active, List.map_append, List.map_cons, List.map_nil]
  · rw [List.map_append, List.map_singleton]
    refine List.nodup_append.mpr ⟨expired.distinct, List.nodup_singleton _, ?_⟩
    intro first member second single same
    obtain ⟨holder, inside, rfl⟩ := List.mem_map.mp member
    exact other holder inside (same.trans (List.mem_singleton.mp single))
  · intro holder member
    rcases List.mem_append.mp member with earlier | last
    · exact List.mem_cons_of_mem _ (expired.among holder earlier)
    · rw [List.mem_singleton.mp last]
      exact List.mem_cons_self
  · intro earlier member
    rcases List.mem_cons.mp member with rfl | before
    · exact Nat.le_refl _
    · exact expired.begun earlier before

/-- Where no register is free, the new interval and those that hold a register are a
crowd. -/
theorem crowd_of_place (invariant : Invariant position done state)
    (held : Held position done state holders) (ahead : Ahead position done (interval :: todo))
    (ordered : interval.first ≤ interval.last) {fault : Diagnostic}
    (failed : state.place interval = .error fault) :
    ∃ crowd, Crowd (interval :: done) interval.first crowd ∧ crowd.length = capacity + 1 := by
  have start := ahead.later interval List.mem_cons_self
  have expired := held.expire start
  have registers := (invariant.expire start).registers
  have count : (holders.filter (interval.first ≤ ·.1.last)).length = capacity := by
    have lengths := registers.length_eq
    rwa [(place_error failed).1, List.append_nil, List.length_map, expired.active,
      List.length_map] at lengths
  refine ⟨interval :: (holders.filter (interval.first ≤ ·.1.last)).map (·.1), ⟨?_, ?_, ?_⟩, ?_⟩
  · rw [List.map_cons, List.map_map]
    refine List.nodup_cons.mpr ⟨?_, expired.distinct⟩
    intro member
    obtain ⟨holder, inside, same⟩ := List.mem_map.mp member
    exact ahead.fresh _ (expired.among holder inside) interval List.mem_cons_self same
  · intro other member
    rcases List.mem_cons.mp member with rfl | holding
    · exact List.mem_cons_self
    · obtain ⟨holder, inside, rfl⟩ := List.mem_map.mp holding
      exact List.mem_cons_of_mem _ (expired.among holder inside)
  · intro other member
    rcases List.mem_cons.mp member with rfl | holding
    · exact ⟨Nat.le_refl _, ordered⟩
    · obtain ⟨holder, inside, rfl⟩ := List.mem_map.mp holding
      exact ⟨expired.begun _ (expired.among holder inside),
        of_decide_eq_true (List.mem_filter.mp inside).2⟩
  · rw [List.length_cons, List.length_map, count]

/-- A scan that fails has met a crowd. -/
theorem crowd_of_scan (invariant : Invariant position done state)
    (held : Held position done state holders) (ahead : Ahead position done todo)
    (ordered : ∀ interval ∈ todo, interval.first ≤ interval.last) {fault : Diagnostic}
    (failed : todo.foldlM Allocation.place state = .error fault) :
    ∃ place crowd, Crowd (todo.reverse ++ done) place crowd ∧ crowd.length = capacity + 1 := by
  -- Induction on the intervals that are left.
  induction todo generalizing position done state holders with
  | nil => cases failed
  | cons interval todo ih =>
      rw [List.foldlM_cons] at failed
      rw [List.reverse_cons, List.append_assoc]
      rcases error_of_bind failed with unplaced | ⟨next, placed, failed⟩
      · obtain ⟨crowd, crowded, count⟩ :=
          crowd_of_place invariant held ahead (ordered interval List.mem_cons_self) unplaced
        exact ⟨interval.first, crowd, ⟨crowded.distinct,
          fun other member => List.mem_append_right _ (crowded.among other member),
          crowded.shared⟩, count⟩
      · have following := invariant.place (ahead.later interval List.mem_cons_self)
          (fun earlier member => ahead.fresh earlier member interval List.mem_cons_self) placed
        obtain ⟨holders', held'⟩ := held.place ahead placed
        exact ih following held' ahead.next
          (fun other member => ordered other (List.mem_cons_of_mem _ member)) failed

theorem length_of_suits {assignment : Assignment} {crowd : List Interval}
    (suits : assignment.Suits done) (crowded : Crowd done position crowd) :
    crowd.length ≤ capacity := by
  have apart : (crowd.map fun interval => assignment.lookup interval.register).Nodup := by
    refine List.Nodup.map_on ?_ (List.Nodup.of_map _ crowded.distinct)
    intro left member right member' same
    by_contra different
    have registers : left.register ≠ right.register :=
      fun equal => different (List.inj_on_of_nodup_map crowded.distinct member member' equal)
    obtain ⟨first, last⟩ := crowded.shared left member
    obtain ⟨first', last'⟩ := crowded.shared right member'
    exact suits.apart left (crowded.among left member) right (crowded.among right member') registers
      ⟨Nat.le_trans first last', Nat.le_trans first' last⟩ same
  have inside : (crowd.map fun interval => assignment.lookup interval.register) ⊆
      allocatable.map some := by
    intro found member
    obtain ⟨interval, among, rfl⟩ := List.mem_map.mp member
    obtain ⟨register, known, same⟩ := suits.assigned interval (crowded.among interval among)
    exact same ▸ List.mem_map_of_mem known
  simpa [allocatable, capacity] using apart.length_le_of_subset inside

end Scan

end Allocation

section Assignment

variable {code : List Insn}

theorem assignRegisters_ok_iff : (∃ assignment, assignRegisters code = .ok assignment) ↔
    ∀ position crowd, Interval.Crowd (Interval.ofInsns code) position crowd →
      crowd.length ≤ Allocation.capacity := by
  constructor
  · rintro ⟨assignment, assigned⟩ position crowd crowded
    exact Allocation.length_of_suits (suits_of_assignRegisters assigned) crowded
  · intro roomy
    cases scanned : (Interval.ofInsns code).foldlM Allocation.place {} with
    | ok final => exact ⟨final.assigned, by rw [assignRegisters, scanned]; rfl⟩
    | error fault =>
        have ordered : ∀ interval ∈ Interval.ofInsns code, interval.first ≤ interval.last :=
          fun interval member =>
            (Interval.collect_spec code Interval.collected_nil).1.ordered interval
            (Interval.mem_ofInsns_iff.mp member)
        obtain ⟨place, crowd, crowded, count⟩ := Allocation.crowd_of_scan Allocation.invariant_start
          Allocation.held_start (Allocation.ahead_ofInsns code) ordered scanned
        have few := roomy place crowd ⟨crowded.distinct,
          fun interval member => by simpa using crowded.among interval member, crowded.shared⟩
        omega

end Assignment

end TraceProbe
