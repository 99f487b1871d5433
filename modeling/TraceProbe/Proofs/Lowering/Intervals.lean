import TraceProbe.Bytecode.Registers
import Mathlib.Data.List.Nodup

/-!
# Live intervals

Every virtual register has one interval, and all its mentions lie in it.
-/

namespace TraceProbe.Interval

/-- Some interval of a register holds a position. -/
def Covers (intervals : List Interval) (register position : Nat) : Prop :=
  ∃ interval ∈ intervals, interval.register = register ∧ interval.first ≤ position ∧
    position ≤ interval.last

/-- Intervals of different registers that end at a position or before. -/
structure Collected (bound : Nat) (intervals : List Interval) : Prop where
  distinct : (intervals.map (·.register)).Nodup
  ordered : ∀ interval ∈ intervals, interval.first ≤ interval.last
  bounded : ∀ interval ∈ intervals, interval.last ≤ bound

theorem exists_of_extend? {register position : Nat} {intervals extended : List Interval}
    (found : extend? register position intervals = some extended) :
    ∃ before interval after, intervals = before ++ interval :: after ∧
      interval.register = register ∧
      extended = before ++ { interval with last := position } :: after := by
  induction intervals generalizing extended with
  | nil => cases found
  | cons head rest ih =>
      rw [extend?] at found
      split at found
      · rename_i same
        cases found
        exact ⟨[], head, rest, rfl, same, rfl⟩
      · cases later : extend? register position rest with
        | none => simp [later] at found
        | some inner =>
            obtain ⟨before, interval, after, split, same, result⟩ := ih later
            rw [later] at found
            cases found
            exact ⟨head :: before, interval, after, by rw [split]; rfl, same, by rw [result]; rfl⟩

theorem register_ne_of_extend? {register position : Nat} {intervals : List Interval}
    (missing : extend? register position intervals = none) :
    ∀ interval ∈ intervals, interval.register ≠ register := by
  induction intervals with
  | nil => intro interval member; cases member
  | cons head rest ih =>
      rw [extend?] at missing
      split at missing
      · cases missing
      · rename_i other
        intro interval member
        rcases List.mem_cons.mp member with rfl | later
        · exact other
        · exact ih (Option.map_eq_none_iff.mp missing) interval later

section Mentions

variable {intervals : List Interval} {position : Nat}

theorem Collected.mention (collected : Collected position intervals) (register : Nat) :
    Collected position (mention intervals register position) := by
  unfold Interval.mention
  cases found : extend? register position intervals with
  | none =>
      constructor
      · have other := register_ne_of_extend? found
        simp only [Option.getD_none, List.map_cons, List.nodup_cons]
        refine ⟨?_, collected.distinct⟩
        intro member
        obtain ⟨interval, inside, same⟩ := List.mem_map.mp member
        exact other interval inside same
      · intro interval member
        rcases List.mem_cons.mp member with rfl | later
        · exact Nat.le_refl _
        · exact collected.ordered interval later
      · intro interval member
        rcases List.mem_cons.mp member with rfl | later
        · exact Nat.le_refl _
        · exact collected.bounded interval later
  | some extended =>
      obtain ⟨before, interval, after, rfl, -, rfl⟩ := exists_of_extend? found
      constructor
      · have distinct := collected.distinct
        simpa only [Option.getD_some, List.map_append, List.map_cons] using distinct
      · intro other member
        simp only [Option.getD_some, List.mem_append, List.mem_cons] at member
        rcases member with earlier | rfl | later
        · exact collected.ordered other (by simp [earlier])
        · exact Nat.le_trans (collected.ordered interval (by simp))
            (collected.bounded interval (by simp))
        · exact collected.ordered other (by simp [later])
      · intro other member
        simp only [Option.getD_some, List.mem_append, List.mem_cons] at member
        rcases member with earlier | rfl | later
        · exact collected.bounded other (by simp [earlier])
        · exact Nat.le_refl _
        · exact collected.bounded other (by simp [later])

theorem covers_mention (collected : Collected position intervals) (register : Nat) :
    Covers (mention intervals register position) register position := by
  unfold Interval.mention
  cases found : extend? register position intervals with
  | none => exact ⟨_, List.mem_cons_self, rfl, Nat.le_refl _, Nat.le_refl _⟩
  | some extended =>
      obtain ⟨before, interval, after, rfl, same, rfl⟩ := exists_of_extend? found
      have member : interval ∈ before ++ interval :: after := by simp
      have first := collected.ordered interval member
      have last := collected.bounded interval member
      exact ⟨{ interval with last := position }, by simp, same, Nat.le_trans first last,
        Nat.le_refl _⟩

theorem Covers.mention (collected : Collected position intervals) (register : Nat)
    {other place : Nat} (covers : Covers intervals other place) :
    Covers (mention intervals register position) other place := by
  obtain ⟨interval, member, same, first, last⟩ := covers
  unfold Interval.mention
  cases found : extend? register position intervals with
  | none => exact ⟨interval, List.mem_cons_of_mem _ member, same, first, last⟩
  | some extended =>
      have bound := collected.bounded interval member
      obtain ⟨before, extendedOne, after, rfl, -, rfl⟩ := exists_of_extend? found
      simp only [Option.getD_some]
      rcases List.mem_append.mp member with earlier | here
      · exact ⟨interval, by simp [earlier], same, first, last⟩
      · rcases List.mem_cons.mp here with rfl | later
        · exact ⟨{ interval with last := position }, by simp, same, first,
            Nat.le_trans last bound⟩
        · exact ⟨interval, by simp [later], same, first, last⟩

/-- The mentions of one instruction, one after the other. -/
theorem mentions_spec (collected : Collected position intervals) (registers : List Nat) :
    Collected position (registers.foldl (Interval.mention · · position) intervals) ∧
      (∀ register ∈ registers,
        Covers (registers.foldl (Interval.mention · · position) intervals) register position) ∧
      ∀ other place, Covers intervals other place →
        Covers (registers.foldl (Interval.mention · · position) intervals) other place := by
  induction registers generalizing intervals with
  | nil =>
      refine ⟨collected, ?_, fun other place covers => covers⟩
      intro register member
      cases member
  | cons register registers ih =>
      obtain ⟨stays, each, keeps⟩ := ih (collected.mention register)
      refine ⟨stays, ?_, fun other place covers => keeps _ _ (covers.mention collected register)⟩
      intro other member
      rcases List.mem_cons.mp member with rfl | later
      · exact keeps _ _ (covers_mention collected other)
      · exact each other later

end Mentions

theorem Collected.mono {intervals : List Interval} {bound higher : Nat}
    (collected : Collected bound intervals) (le : bound ≤ higher) : Collected higher intervals where
  distinct := collected.distinct
  ordered := collected.ordered
  bounded := fun interval member => Nat.le_trans (collected.bounded interval member) le

theorem virtual_mem_iff {insn : Insn} {register : Nat} :
    register ∈ insn.regs.filterMap Reg.virtual? ↔ .virtual register ∈ insn.regs := by
  rw [List.mem_filterMap]
  constructor
  · rintro ⟨reg, member, same⟩
    cases reg with
    | machine number => cases same
    | virtual number =>
        cases same
        exact member
  · intro member
    exact ⟨.virtual register, member, rfl⟩

theorem collect_spec (code : List Insn) {intervals : List Interval} {position : Nat}
    (collected : Collected position intervals) :
    Collected (position + code.length) (collect intervals position code) ∧
      (∀ before insn after, code = before ++ insn :: after →
        ∀ register, .virtual register ∈ insn.regs →
          Covers (collect intervals position code) register (position + before.length)) ∧
      ∀ other place, Covers intervals other place →
        Covers (collect intervals position code) other place := by
  -- Positions before the current one stay covered.
  induction code generalizing intervals position with
  | nil =>
      refine ⟨collected, ?_, fun _ _ covers => covers⟩
      intro before insn after split
      cases before <;> cases split
  | cons head rest ih =>
      obtain ⟨now, each, keeps⟩ :=
        mentions_spec collected (head.regs.filterMap Reg.virtual?)
      obtain ⟨finish, later, covered⟩ := ih (now.mono (Nat.le_succ position))
      refine ⟨?_, ?_, fun other place covers => covered _ _ (keeps _ _ covers)⟩
      · rw [List.length_cons, Nat.add_comm rest.length, ← Nat.add_assoc]
        exact finish
      · intro before insn after split register member
        cases before with
        | nil =>
            cases split
            exact covered _ _ (each register (virtual_mem_iff.mpr member))
        | cons first before =>
            cases split
            have place : position + (head :: before).length = position + 1 + before.length := by
              rw [List.length_cons]
              omega
            rw [place]
            exact later before insn after rfl register member

theorem before_trans (left middle right : Interval) (first : before left middle = true)
    (second : before middle right = true) : before left right = true := by
  simp only [before, Bool.or_eq_true, Bool.and_eq_true, decide_eq_true_eq] at first second ⊢
  omega

theorem before_total (left right : Interval) :
    (before left right || before right left) = true := by
  simp only [before, Bool.or_eq_true, Bool.and_eq_true, decide_eq_true_eq]
  omega

theorem sorted_ofInsns (code : List Insn) :
    (ofInsns code).Pairwise (fun left right => left.first ≤ right.first) := by
  refine (List.pairwise_mergeSort before_trans before_total _).imp ?_
  intro left right ordered
  simp only [before, Bool.or_eq_true, Bool.and_eq_true, decide_eq_true_eq] at ordered
  omega

theorem mem_ofInsns_iff {code : List Insn} {interval : Interval} :
    interval ∈ ofInsns code ↔ interval ∈ collect [] 0 code :=
  List.mem_mergeSort

theorem collected_nil : Collected 0 [] where
  distinct := List.nodup_nil
  ordered := fun _ member => by cases member
  bounded := fun _ member => by cases member

theorem distinct_ofInsns (code : List Insn) :
    ((ofInsns code).map (·.register)).Nodup := by
  have same : (ofInsns code).Perm (collect [] 0 code) := List.mergeSort_perm _ _
  exact (same.map _).nodup_iff.mpr (collect_spec code collected_nil).1.distinct

theorem covers_ofInsns {code before after : List Insn} {insn : Insn}
    (split : code = before ++ insn :: after) {register : Nat}
    (member : .virtual register ∈ insn.regs) :
    Covers (ofInsns code) register before.length := by
  obtain ⟨interval, inside, rest⟩ :=
    (collect_spec code collected_nil).2.1 before insn after split register member
  rw [Nat.zero_add] at rest
  exact ⟨interval, mem_ofInsns_iff.mpr inside, rest⟩

end TraceProbe.Interval
