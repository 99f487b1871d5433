import TraceProbe.Proofs.Lowering.Crowds
import TraceProbe.Proofs.Stream.Built

/-!
# Verdicts of lowering

A stream that binds its labels once is lowered exactly when no position is crowded
and every jump goes ahead and not too far; otherwise the fault says which of the two
is missing.  The result does not depend on the order in which tables of intervals,
registers and labels list their entries.
-/

namespace TraceProbe

section Tables

variable {α β : Type} [BEq α] [LawfulBEq α] {left right : List (α × β)} {key : α} {value : β}

theorem lookup_eq_some_iff_mem (distinct : (left.map (·.1)).Nodup) :
    left.lookup key = some value ↔ (key, value) ∈ left := by
  induction left with
  | nil => simp
  | cons entry left ih =>
      obtain ⟨name, content⟩ := entry
      obtain ⟨other, distinct⟩ := List.nodup_cons.mp distinct
      rw [List.lookup_cons, List.mem_cons]
      cases same : key == name with
      | true =>
          obtain rfl : key = name := eq_of_beq same
          have absent : (key, value) ∉ left :=
            fun member => other (List.mem_map.mpr ⟨_, member, rfl⟩)
          simp [absent, eq_comm]
      | false =>
          have different : key ≠ name := ne_of_beq_false same
          simp [ih distinct, different]

/-- Looking up does not depend on the order of entries with different keys. -/
theorem lookup_perm (distinct : (left.map (·.1)).Nodup) (perm : left.Perm right) (key : α) :
    left.lookup key = right.lookup key := by
  have distinct' : (right.map (·.1)).Nodup := (perm.map _).nodup_iff.mp distinct
  ext value
  rw [lookup_eq_some_iff_mem distinct, lookup_eq_some_iff_mem distinct', perm.mem_iff]

end Tables

/-- The scan over a table of intervals. -/
def Interval.assign (intervals : List Interval) : Except Diagnostic Assignment :=
  ((intervals.mergeSort before).foldlM Allocation.place {}).map (·.assigned)

/-- Intervals of different registers are sorted into one order, whatever the order of
their table. -/
theorem Interval.mergeSort_perm_eq {left right : List Interval}
    (distinct : (left.map (·.register)).Nodup) (perm : left.Perm right) :
    left.mergeSort before = right.mergeSort before := by
  have same : (left.mergeSort before).Perm (right.mergeSort before) :=
    (List.mergeSort_perm left before).trans (perm.trans (List.mergeSort_perm right before).symm)
  refine same.eq_of_pairwise ?_ (List.pairwise_mergeSort before_trans before_total left)
    (List.pairwise_mergeSort before_trans before_total right)
  intro first second member member' ordered ordered'
  refine List.inj_on_of_nodup_map distinct (List.mem_mergeSort.mp member)
    (perm.mem_iff.mpr (List.mem_mergeSort.mp member')) ?_
  simp only [before, Bool.or_eq_true, Bool.and_eq_true, decide_eq_true_eq] at ordered ordered'
  omega

namespace Allocation

theorem keys_of_scan {todo : List Interval} {state final : Allocation}
    (scanned : todo.foldlM Allocation.place state = .ok final) :
    final.assigned.map (·.1) = (todo.map (·.register)).reverse ++ state.assigned.map (·.1) := by
  induction todo generalizing state with
  | nil =>
      cases scanned
      rfl
  | cons interval todo ih =>
      rw [List.foldlM_cons] at scanned
      obtain ⟨next, placed, scanned⟩ := ok_of_bind scanned
      obtain ⟨register, rest, -, rfl⟩ := exists_free_of_place placed
      rw [ih scanned, List.map_cons, List.map_cons, List.reverse_cons, List.append_assoc]
      rfl

end Allocation

namespace Insn

/-- Lowering with tables that list their entries in orders of their own. -/
def lowerListed (intervals : List Interval) (relist : Assignment → Assignment)
    (labels : List (Label × Nat)) (code : List Insn) : Except Diagnostic (List MachineInsn) := do
  let assignment ← Interval.assign intervals
  let lowered ← (placeFrom slots 0 code).mapM (lowerAt (relist assignment) labels)
  return lowered.filterMap id

theorem map_fst_bindings (start : Nat) (code : List Insn) :
    ((placeFrom slots start code).filterMap binding?).map (·.1) = boundLabels code := by
  induction code generalizing start with
  | nil => rfl
  | cons insn code ih =>
      rw [placeFrom, List.filterMap_cons]
      cases insn <;> simp [binding?, boundLabels, ih]

theorem keys_labelSlots (code : List Insn) :
    (labelSlots (placeFrom slots 0 code)).map (·.1) = (boundLabels code).reverse := by
  rw [labelSlots, List.map_reverse, map_fst_bindings]

/-- Of its tables, an instruction asks only what stands under a key. -/
theorem lowerAt_congr {assignment other : Assignment} {labels others : List (Label × Nat)}
    (registers : ∀ number, assignment.lookup number = other.lookup number)
    (places : ∀ name, labels.lookup name = others.lookup name) :
    lowerAt assignment labels = lowerAt other others := by
  have named : ∀ reg, machineReg assignment reg = machineReg other reg := by
    intro reg
    cases reg with
    | machine number => rfl
    | «virtual» number => rw [machineReg, machineReg, registers]
  have far : ∀ slot target, jumpDistance labels slot target = jumpDistance others slot target := by
    intro slot target
    rw [jumpDistance, jumpDistance, places]
  funext entry
  obtain ⟨slot, insn⟩ := entry
  cases insn <;> simp only [lowerAt, named, far]

/-- Lowering does not depend on the order of its tables. -/
theorem lowerListed_eq_lower {code : List Insn} (once : (boundLabels code).Nodup)
    {intervals : List Interval} (listed : intervals.Perm (Interval.collect [] 0 code))
    {relist : Assignment → Assignment}
    (relisted : ∀ assignment, (relist assignment).Perm assignment)
    {labels : List (Label × Nat)} (named : labels.Perm (labelSlots (placeFrom slots 0 code))) :
    lowerListed intervals relist labels code = lower code := by
  have distinct : (intervals.map (·.register)).Nodup :=
    (listed.map _).nodup_iff.mpr (Interval.collect_spec code Interval.collected_nil).1.distinct
  have same : Interval.assign intervals = assignRegisters code := by
    rw [Interval.assign, Interval.mergeSort_perm_eq distinct listed]
    rfl
  have places : ∀ name, labels.lookup name = (labelSlots (placeFrom slots 0 code)).lookup name := by
    refine fun name => lookup_perm ?_ named name
    rw [(named.map _).nodup_iff, keys_labelSlots]
    exact List.nodup_reverse.mpr once
  rw [lowerListed, lower, same]
  cases assigned : assignRegisters code with
  | error fault => rfl
  | ok assignment =>
      obtain ⟨final, scanned, rfl⟩ := ok_of_map assigned
      have keys : (final.assigned.map (·.1)).Nodup := by
        rw [Allocation.keys_of_scan scanned, List.map_nil, List.append_nil]
        exact List.nodup_reverse.mpr (Interval.distinct_ofInsns code)
      have registers : ∀ number, (relist final.assigned).lookup number =
          final.assigned.lookup number :=
        fun number => (lookup_perm keys (relisted final.assigned).symm number).symm
      simp only [bind, Except.bind, lowerAt_congr registers places]

section Jumps

variable {code : List Insn}

/-- Every label that a jump names is bound behind the jump. -/
def JumpsAhead (code : List Insn) : Prop :=
  ∀ before insn after target, code = before ++ insn :: after → insn.target? = some target →
    label target ∈ after

/-- From the slot after a jump to its label there are at most so many slots as a
distance can count. -/
def JumpsNear (code : List Insn) : Prop :=
  ∀ before insn between target rest, code = before ++ insn :: (between ++ label target :: rest) →
    insn.target? = some target → totalOf slots between ≤ 32767

theorem front_unique {before after before' after' : List Insn} {name : Label}
    (once : (boundLabels (before ++ label name :: after)).Nodup)
    (same : before ++ label name :: after = before' ++ label name :: after') :
    before = before' := by
  have free (front back : List Insn)
      (split : before ++ label name :: after = front ++ label name :: back) :
      label name ∉ front := by
    intro member
    rw [split, boundLabels_append, boundLabels_label] at once
    exact (List.nodup_append.mp once).2.2 name (List.mem_filterMap.mpr ⟨_, member, rfl⟩) name
      List.mem_cons_self rfl
  rcases List.append_eq_append_iff.mp same with ⟨middle, left, right⟩ | ⟨middle, left, right⟩
  · cases middle with
    | nil => rw [left, List.append_nil]
    | cons head middle =>
        obtain ⟨rfl, -⟩ := List.cons.inj right
        exact absurd (left ▸ List.mem_append_right before List.mem_cons_self)
          (free before' after' same)
  · cases middle with
    | nil => rw [left, List.append_nil]
    | cons head middle =>
        obtain ⟨rfl, -⟩ := List.cons.inj right
        exact absurd (left ▸ List.mem_append_right before' List.mem_cons_self)
          (free before after rfl)

theorem landing_iff (once : (boundLabels code).Nodup) :
    Landing 0x8000 code ↔ JumpsAhead code ∧ JumpsNear code := by
  constructor
  · intro landing
    constructor
    · intro before insn after target split jumps
      obtain ⟨between, rest, rfl, -⟩ := landing before insn after target split jumps
      exact List.mem_append_right between List.mem_cons_self
    · intro before insn between target rest split jumps
      obtain ⟨between', rest', same, near⟩ := landing before insn _ target split jumps
      have behind : (boundLabels (between ++ label target :: rest)).Nodup := by
        rw [split, ← List.singleton_append, ← List.append_assoc, boundLabels_append] at once
        exact (List.nodup_append.mp once).2.1
      rw [front_unique behind same]
      omega
  · rintro ⟨ahead, near⟩ before insn after target split jumps
    obtain ⟨between, rest, rfl⟩ := List.append_of_mem (ahead before insn after target split jumps)
    have few := near before insn between target rest split jumps
    exact ⟨between, rest, rfl, by omega⟩

theorem landing_of_lower {program : List MachineInsn} (found : lower code = .ok program) :
    Landing 0x8000 code := by
  obtain ⟨assignment, lowered, -, mapped, -⟩ := exists_of_lower found
  intro before insn after target split jumps
  obtain ⟨result, lowers, -⟩ := (layout mapped).2 before insn after split
  rw [Nat.zero_add] at lowers
  cases insn with
  | jump operation dst src imm target =>
      cases jumps
      obtain ⟨distance, _, _, far, -, -, -⟩ := lowerAt_jump lowers
      obtain ⟨stop, known, less, same⟩ := jumpDistance_eq_ok far
      obtain ⟨front, back, bound, rfl⟩ := exists_of_lookup_labelSlots known
      have longer := (items_in_order slots (split.symm.trans bound) less).2
      rcases List.append_eq_append_iff.mp (split.symm.trans bound) with
        ⟨middle, rfl, right⟩ | ⟨middle, rfl, -⟩
      · cases middle with
        | nil => simp at longer
        | cons head between =>
            obtain ⟨rfl, rfl⟩ := List.cons.inj right
            refine ⟨between, back, rfl, ?_⟩
            have high := distance.toInt_lt
            have place : totalOf slots (before ++ jump operation dst src imm target :: between) =
                totalOf slots before + (1 + totalOf slots between) := by
              rw [totalOf_append]
              rfl
            omega
      · rw [List.length_append] at longer
        omega
  | _ => cases jumps

end Jumps

section Blame

variable {α β : Type} {step : Except Diagnostic α} {next : α → Except Diagnostic β}

/-- The faults of a step are taken for faults of the compiler. -/
def Blames (step : Except Diagnostic α) : Prop :=
  ∀ fault, step = .error fault → ∃ description, fault = .internal description

theorem blames_ok (value : α) : Blames (.ok value) := by
  intro _ same
  cases same

theorem blames_internal (description : String) :
    Blames (.error (.internal description) : Except Diagnostic α) := by
  intro fault same
  cases same
  exact ⟨description, rfl⟩

theorem Blames.bind (first : Blames step) (each : ∀ value, Blames (next value)) :
    Blames (step >>= next) := by
  intro fault failed
  rcases error_of_bind failed with early | ⟨value, -, late⟩
  · exact first fault early
  · exact each value fault late

theorem blames_machineReg (assignment : Assignment) (reg : Reg) :
    Blames (machineReg assignment reg) := by
  unfold machineReg
  split
  · exact blames_ok _
  · split
    · exact blames_ok _
    · exact blames_internal _

theorem blames_jumpDistance (labels : List (Label × Nat)) (slot : Nat) (target : Label) :
    Blames (jumpDistance labels slot target) := by
  unfold jumpDistance
  split
  · exact blames_internal _
  · split
    · exact blames_internal _
    · dsimp only
      split
      · exact blames_internal _
      · exact blames_ok _

/-- An instruction that is not lowered is taken for a fault of the compiler. -/
theorem blames_lowerAt (assignment : Assignment) (labels : List (Label × Nat))
    (entry : Nat × Insn) :
    Blames (lowerAt assignment labels entry) := by
  obtain ⟨slot, insn⟩ := entry
  cases insn with
  | label name => exact blames_ok _
  | plain operation dst src off imm =>
      exact (blames_machineReg _ dst).bind fun _ =>
        (blames_machineReg _ src).bind fun _ => blames_ok _
  | wide dst value => exact (blames_machineReg _ dst).bind fun _ => blames_ok _
  | mapRef dst map => exact (blames_machineReg _ dst).bind fun _ => blames_ok _
  | jump operation dst src imm target =>
      exact (blames_jumpDistance _ slot target).bind fun _ =>
        (blames_machineReg _ dst).bind fun _ =>
        (blames_machineReg _ src).bind fun _ => blames_ok _

end Blame

/-- No position lies in the intervals of four or more virtual registers. -/
def Roomy (code : List Insn) : Prop :=
  ∀ position, ∀ registers : List Nat, registers.Nodup →
    (∀ register ∈ registers, LiveAt code register position) → registers.length < 4

section Verdicts

variable {code : List Insn} {assignment : Assignment}

theorem roomy_iff : Roomy code ↔ ∃ assignment, assignRegisters code = .ok assignment := by
  rw [assignRegisters_ok_iff]
  constructor
  · intro roomy position crowd crowded
    obtain ⟨registers, distinct, count, live⟩ := Interval.exists_crowd_iff.mp ⟨crowd, crowded, rfl⟩
    exact Nat.le_of_lt_succ (count ▸ roomy position registers distinct live)
  · intro few position registers distinct live
    obtain ⟨crowd, crowded, count⟩ := Interval.exists_crowd_iff.mpr ⟨registers, distinct, rfl, live⟩
    exact Nat.lt_succ_of_le (count ▸ few position crowd crowded)

theorem pressure_of_not_roomy (crowded : ¬ Roomy code) : lower code = .error registerPressure := by
  cases assigned : assignRegisters code with
  | ok assignment => exact absurd (roomy_iff.mpr ⟨assignment, assigned⟩) crowded
  | error fault =>
      rw [lower, assigned, assignRegisters_error assigned]
      rfl

theorem roomy_of_lower {program : List MachineInsn}
    (found : lower code = .ok program) : Roomy code := by
  obtain ⟨assignment, _, assigned, -, -⟩ := exists_of_lower found
  exact roomy_iff.mpr ⟨assignment, assigned⟩

theorem blames_of_roomy (roomy : Roomy code) : Blames (lower code) := by
  obtain ⟨assignment, assigned⟩ := roomy_iff.mp roomy
  intro fault failed
  rcases error_of_bind failed with crowded | ⟨_, -, failed⟩
  · rw [assigned] at crowded
    cases crowded
  · rcases error_of_bind failed with refused | ⟨_, -, failed⟩
    · obtain ⟨entry, -, refuses⟩ := exists_error_of_mapM refused
      exact blames_lowerAt _ _ entry fault refuses
    · cases failed

/-- What the assignment of a lowered listing is like: every virtual register has one
of three machine registers, and two that are live at one position have different
ones. -/
structure Separated (code : List Insn) (assignment : Assignment) : Prop where
  among : ∀ register position, Mentions code register position →
    ∃ number ∈ ([6, 7, 8] : List UInt8), assignment.lookup register = some number
  apart : ∀ left right position, left ≠ right → LiveAt code left position →
    LiveAt code right position → assignment.lookup left ≠ assignment.lookup right

theorem separated_of_assignRegisters (assigned : assignRegisters code = .ok assignment) :
    Separated code assignment := by
  have suits := suits_of_assignRegisters assigned
  constructor
  · intro register position mentions
    obtain ⟨interval, member, rfl, -⟩ := Interval.exists_of_mentions mentions
    exact suits.assigned interval member
  · intro left right position different live live'
    obtain ⟨interval, member, rfl, first, last⟩ := Interval.liveAt_iff.mp live
    obtain ⟨other, member', rfl, first', last'⟩ := Interval.liveAt_iff.mp live'
    exact suits.apart interval member other member' different
      ⟨Nat.le_trans first last', Nat.le_trans first' last⟩

end Verdicts

/-- When lowering succeeds, how it fails, and what it makes of virtual registers. -/
structure Judged (code : List Insn) : Prop where
  accepted : (∃ program, lower code = .ok program) ↔ Roomy code ∧ JumpsAhead code ∧ JumpsNear code
  crowded : (∃ description loc, lower code = .error (.resourceLimit description loc)) ↔ ¬ Roomy code
  astray : (∃ description, lower code = .error (.internal description)) ↔
    Roomy code ∧ ¬ (JumpsAhead code ∧ JumpsNear code)
  separated : ∀ program, lower code = .ok program → ∃ assignment lowered,
    (placeFrom slots 0 code).mapM (lowerAt assignment (labelSlots (placeFrom slots 0 code))) =
        .ok lowered ∧ program = lowered.filterMap id ∧ Separated code assignment
  listed : ∀ intervals relist labels, intervals.Perm (Interval.collect [] 0 code) →
    (∀ assignment, (relist assignment).Perm assignment) →
      labels.Perm (labelSlots (placeFrom slots 0 code)) →
        lowerListed intervals relist labels code = lower code

theorem judged_of_once {code : List Insn} (once : (boundLabels code).Nodup) : Judged code := by
  have jumps := landing_iff once
  have accepted : (∃ program, lower code = .ok program) ↔
      Roomy code ∧ JumpsAhead code ∧ JumpsNear code := by
    constructor
    · rintro ⟨program, found⟩
      exact ⟨roomy_of_lower found, jumps.mp (landing_of_lower found)⟩
    · rintro ⟨roomy, lands⟩
      rcases lower_total (jumps.mpr lands) once with found | failed
      · exact found
      · obtain ⟨description, same⟩ := blames_of_roomy roomy _ failed
        cases same
  refine ⟨accepted, ?_, ?_, ?_, fun _ _ _ listed relisted named =>
    lowerListed_eq_lower once listed relisted named⟩
  · constructor
    · rintro ⟨description, loc, failed⟩ roomy
      obtain ⟨_, same⟩ := blames_of_roomy roomy _ failed
      cases same
    · intro crowded
      exact ⟨_, _, pressure_of_not_roomy crowded⟩
  · constructor
    · rintro ⟨description, failed⟩
      have roomy : Roomy code := by
        by_contra crowded
        rw [pressure_of_not_roomy crowded] at failed
        cases failed
      refine ⟨roomy, ?_⟩
      intro lands
      obtain ⟨program, found⟩ := accepted.mpr ⟨roomy, lands⟩
      rw [failed] at found
      cases found
    · rintro ⟨roomy, astray⟩
      cases result : lower code with
      | ok program => exact absurd (accepted.mp ⟨program, result⟩).2 astray
      | error fault =>
          obtain ⟨description, rfl⟩ := blames_of_roomy roomy _ result
          exact ⟨description, rfl⟩
  · intro program found
    obtain ⟨assignment, lowered, assigned, mapped, same⟩ := exists_of_lower found
    exact ⟨assignment, lowered, mapped, same, separated_of_assignRegisters assigned⟩

/-- Streams that bind their labels once are judged by their live registers and their
jumps alone. -/
theorem lower_judged {stream : Stream} (built : stream.Built) : Judged stream.code :=
  judged_of_once built.labelsOnce.distinct

/-- A stream that jumps over the last use of a virtual register while three of them are
live, and then takes a fourth one. -/
def busy : Stream :=
  let stream := ((Stream.new 512).after Emit.freshLabel).after (Emit.code
    [.movImm (.virtual 0) 1, .movImm (.virtual 1) 2, .movImm (.virtual 2) 3,
      .jumpImm Opcode.jeq (.virtual 0) 0 ⟨0⟩, .alu64Reg Opcode.add (.virtual 1) (.virtual 2)])
  (stream.after (Emit.bind ⟨0⟩)).after (Emit.code
    [.move (.virtual 3) (.virtual 1), .move .r0 (.virtual 3), .leave])

/-- The program of the stream, whose fourth virtual register takes the place of the
third. -/
def busyProgram : List MachineInsn :=
  [⟨183, 6, 0, 0, 1, none⟩, ⟨183, 7, 0, 0, 2, none⟩, ⟨183, 8, 0, 0, 3, none⟩,
    ⟨21, 6, 0, 1, 0, none⟩, ⟨15, 7, 8, 0, 0, none⟩, ⟨191, 8, 7, 0, 0, none⟩,
    ⟨191, 0, 8, 0, 0, none⟩, ⟨149, 0, 0, 0, 0, none⟩]

/-- The intervals of its virtual registers, in the order of the scan. -/
def busyIntervals : List Interval :=
  [⟨0, 0, 3⟩, ⟨1, 1, 6⟩, ⟨2, 2, 4⟩, ⟨3, 6, 7⟩]

theorem busy_judged :
    busy.Built ∧ Judged busy.code ∧ lower busy.code = .ok busyProgram ∧
      Roomy busy.code ∧ JumpsAhead busy.code ∧ JumpsNear busy.code := by
  have built : busy.Built := .code _ (.bind _ (.code _ (.freshLabel (.new 512)) rfl)) rfl
  have sorted : Interval.ofInsns busy.code = busyIntervals :=
    (Interval.mergeSort_perm_eq (by decide) (by decide)).trans
      (List.mergeSort_of_pairwise (show busyIntervals.Pairwise (Interval.before · ·) by decide))
  have found : lower busy.code = .ok busyProgram := by
    rw [lower, assignRegisters, sorted]
    decide +kernel
  have judged := lower_judged built
  exact ⟨built, judged, found, judged.accepted.mp ⟨_, found⟩⟩

end Insn

end TraceProbe
