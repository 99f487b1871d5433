import TraceProbe.Proofs.Lowering.Layout
import TraceProbe.Proofs.Lowering.LinearScan

/-!
# Listings that are lowered

A listing whose jumps lead ahead, to labels that are bound once and not far away,
is lowered unless it has more live registers than the machine has for them.
-/

namespace TraceProbe

/-- The fault of a listing with too many live registers. -/
def registerPressure : Diagnostic :=
  .resourceLimit s!"expression needs more than {Allocation.capacity} live registers" {}

namespace Allocation

/-- An interval is not placed for want of a register that is free at its start. -/
theorem place_error {state : Allocation} {interval : Interval} {fault : Diagnostic}
    (found : state.place interval = .error fault) :
    (state.expire interval.first).free = [] ∧ fault = registerPressure := by
  rw [place] at found
  cases free : (state.expire interval.first).free with
  | nil =>
      simp only [free, Except.error.injEq] at found
      exact ⟨rfl, found.symm⟩
  | cons register rest => simp [free] at found

theorem scan_error {intervals : List Interval} {state : Allocation} {fault : Diagnostic}
    (found : intervals.foldlM place state = .error fault) : fault = registerPressure := by
  induction intervals generalizing state with
  | nil => cases found
  | cons interval intervals ih =>
      rw [List.foldlM_cons] at found
      rcases error_of_bind found with failed | ⟨next, -, failed⟩
      · exact (place_error failed).2
      · exact ih failed

end Allocation

theorem assignRegisters_error {code : List Insn} {fault : Diagnostic}
    (found : assignRegisters code = .error fault) : fault = registerPressure :=
  Allocation.scan_error (error_of_map found)

namespace Insn

/-- The label that an instruction jumps to. -/
def target? : Insn → Option Label
  | jump _ _ _ _ target => some target
  | _ => none

/-- Every jump leads to a label ahead, with less than so many slots in between. -/
def Landing (reach : Nat) (code : List Insn) : Prop :=
  ∀ before insn after target, code = before ++ insn :: after → insn.target? = some target →
    ∃ between rest, after = between ++ label target :: rest ∧ totalOf slots between < reach

section Landing

variable {reach : Nat} {code later between rest : List Insn} {insn : Insn} {name : Label}

theorem landing_of_free (free : ∀ insn ∈ code, insn.target? = none) : Landing reach code := by
  intro before insn after target split jumps
  rw [free insn (split ▸ List.mem_append_right _ List.mem_cons_self)] at jumps
  cases jumps

theorem landing_nil : Landing reach [] :=
  landing_of_free fun _ member => by cases member

theorem Landing.append (first : Landing reach code) (second : Landing reach later) :
    Landing reach (code ++ later) := by
  intro before insn after target split jumps
  rcases List.append_eq_append_iff.mp split with ⟨middle, left, right⟩ | ⟨middle, left, right⟩
  · exact second middle insn after target right jumps
  · cases middle with
    | nil => exact second [] insn after target right.symm jumps
    | cons head middle =>
        obtain ⟨rfl, rfl⟩ := List.cons.inj right
        obtain ⟨between, rest, rfl, near⟩ := first before insn middle target left jumps
        exact ⟨between, rest ++ later, by simp, near⟩

theorem Landing.cons (others : Landing reach code) (free : insn.target? = none) :
    Landing reach (insn :: code) := by
  have alone : Landing reach [insn] :=
    landing_of_free fun other member => by rwa [List.mem_singleton.mp member]
  exact alone.append others

theorem landing_jump (near : totalOf slots between < reach) (target : insn.target? = some name)
    (others : Landing reach (between ++ label name :: rest)) :
    Landing reach (insn :: (between ++ label name :: rest)) := by
  intro before other after other' split jumps
  cases before with
  | nil =>
      cases split
      rw [target] at jumps
      cases jumps
      exact ⟨between, rest, rfl, near⟩
  | cons head before =>
      exact others before other after _ (List.cons.inj split).2 jumps

theorem landing_close (each : ∀ insn ∈ code, ∀ target, insn.target? = some target → target = name)
    (near : totalOf slots code < reach) : Landing reach (code ++ [label name]) := by
  intro before insn after target split jumps
  rcases List.append_eq_append_iff.mp split with ⟨middle, rfl, right⟩ | ⟨middle, rfl, right⟩
  · cases middle with
    | nil =>
        cases right
        cases jumps
    | cons head middle => simp at right
  · cases middle with
    | nil =>
        cases right
        cases jumps
    | cons head middle =>
        cases right
        obtain rfl := each insn (List.mem_append_right _ List.mem_cons_self) target jumps
        refine ⟨middle, [], rfl, ?_⟩
        rw [totalOf_append, totalOf] at near
        omega

end Landing

section Labels

variable {code before after : List Insn} {name : Label} {start : Nat}

theorem bound_of_binding {entry : Label × Nat}
    (member : entry ∈ (placeFrom slots start code).filterMap binding?) :
    entry.1 ∈ boundLabels code := by
  obtain ⟨placed, among, binds⟩ := List.mem_filterMap.mp member
  obtain rfl := binding?_eq_some_iff.mp binds
  obtain ⟨before, after, rfl, -⟩ := mem_placeFrom_iff.mp among
  exact List.mem_filterMap.mpr ⟨_, List.mem_append_right _ List.mem_cons_self, rfl⟩

theorem lookup_labelSlots (once : (boundLabels (before ++ label name :: after)).Nodup) :
    (labelSlots (placeFrom slots 0 (before ++ label name :: after))).lookup name =
      some (totalOf slots before) := by
  rw [placeFrom_append, placeFrom, Nat.zero_add, labelSlots, List.filterMap_append,
    List.filterMap_cons]
  refine List.lookup_eq_some_iff.mpr ⟨_, _, by
    simp only [binding?, List.reverse_append, List.reverse_cons, List.append_assoc]
    rfl, ?_⟩
  intro entry member
  have bound := bound_of_binding (List.mem_reverse.mp member)
  rw [boundLabels_append, boundLabels_label] at once
  have free := (List.nodup_cons.mp (List.nodup_append.mp once).2.1).1
  exact bne_iff_ne.mpr fun same => free (same ▸ bound)

/-- A jump over less than 2¹⁵ slots has a distance. -/
theorem jumpDistance_of_near {insn : Insn} {between rest : List Insn} (one : insn.slots = 1)
    (near : totalOf slots between < 0x8000) {code : List Insn}
    (split : code = before ++ insn :: (between ++ label name :: rest))
    (once : (boundLabels code).Nodup) :
    jumpDistance (labelSlots (placeFrom slots 0 code)) (totalOf slots before) name =
      .ok (Int16.ofNat (totalOf slots between)) := by
  have parts : before ++ insn :: (between ++ label name :: rest) =
      (before ++ insn :: between) ++ label name :: rest := by simp
  have place : totalOf slots (before ++ insn :: between) =
      totalOf slots before + 1 + totalOf slots between := by
    rw [totalOf_append, totalOf, one, Nat.add_assoc]
  subst split
  rw [parts] at once ⊢
  have distance : totalOf slots before + 1 + totalOf slots between - totalOf slots before - 1 =
      totalOf slots between := by omega
  rw [jumpDistance, lookup_labelSlots once, place]
  simp only
  rw [if_neg (by omega), distance, if_neg (by omega)]

end Labels

section Total

variable {code : List Insn} {assignment : Assignment}

theorem exists_machineReg (separates : assignment.Separates code) {insn : Insn}
    (member : insn ∈ code)
    {reg : Reg} (named : reg ∈ insn.regs) : ∃ number, machineReg assignment reg = .ok number := by
  cases reg with
  | machine number => exact ⟨number, rfl⟩
  | «virtual» number =>
      obtain ⟨register, -, known⟩ := separates.assigned insn member number named
      exact ⟨register, by rw [machineReg, known]⟩

/-- The machine register of an operand is the operand itself or one of the scan. -/
theorem number_of_machineReg (separates : assignment.Separates code) {insn : Insn}
    (member : insn ∈ code)
    {reg : Reg} (named : reg ∈ insn.regs) {number : UInt8}
    (found : machineReg assignment reg = .ok number) :
    reg = .machine number ∨ number ∈ Allocation.allocatable := by
  cases reg with
  | machine other =>
      cases found
      exact .inl rfl
  | «virtual» other =>
      obtain ⟨register, allocatable, known⟩ := separates.assigned insn member other named
      rw [machineReg, known] at found
      cases found
      exact .inr allocatable

/-- Registers have numbers and jumps have distances. -/
theorem exists_lowerAt (separates : assignment.Separates code) (landing : Landing 0x8000 code)
    (once : (boundLabels code).Nodup) {before after : List Insn} {insn : Insn}
    (split : code = before ++ insn :: after) :
    ∃ lowered, lowerAt assignment (labelSlots (placeFrom slots 0 code))
      (totalOf slots before, insn) =
      .ok lowered := by
  have known {reg : Reg} (named : reg ∈ insn.regs) :
      ∃ number, machineReg assignment reg = .ok number :=
    exists_machineReg separates (split ▸ List.mem_append_right _ List.mem_cons_self) named
  cases insn with
  | label name => exact ⟨none, rfl⟩
  | plain operation dst src off imm =>
      obtain ⟨_, toDst⟩ := known (List.mem_cons_self : dst ∈ [dst, src])
      obtain ⟨_, toSrc⟩ := known (List.mem_cons_of_mem dst List.mem_cons_self)
      exact ⟨_, by rw [lowerAt, toDst, toSrc]; rfl⟩
  | wide dst value =>
      obtain ⟨_, toDst⟩ := known (List.mem_singleton_self dst)
      exact ⟨_, by rw [lowerAt, toDst]; rfl⟩
  | mapRef dst map =>
      obtain ⟨_, toDst⟩ := known (List.mem_singleton_self dst)
      exact ⟨_, by rw [lowerAt, toDst]; rfl⟩
  | jump operation dst src imm target =>
      obtain ⟨_, toDst⟩ := known (List.mem_cons_self : dst ∈ [dst, src])
      obtain ⟨_, toSrc⟩ := known (List.mem_cons_of_mem dst List.mem_cons_self)
      obtain ⟨between, rest, rfl, near⟩ := landing before _ after target split rfl
      exact ⟨_, by rw [lowerAt, jumpDistance_of_near rfl near split once, toDst, toSrc]; rfl⟩

/-- A listing whose jumps land is lowered, but for lack of registers. -/
theorem lower_total (landing : Landing 0x8000 code) (once : (boundLabels code).Nodup) :
    (∃ program, lower code = .ok program) ∨ lower code = .error registerPressure := by
  cases assigned : assignRegisters code with
  | error fault =>
      refine .inr ?_
      rw [lower, assigned, assignRegisters_error assigned]
      rfl
  | ok assignment =>
      have separates := separates_of_assignRegisters assigned
      have each : ∀ entry ∈ placeFrom slots 0 code, ∃ lowered,
          lowerAt assignment (labelSlots (placeFrom slots 0 code)) entry = .ok lowered := by
        rintro ⟨slot, insn⟩ member
        obtain ⟨before, after, split, place⟩ := mem_placeFrom_iff.mp member
        rw [Nat.zero_add] at place
        exact place ▸ exists_lowerAt separates landing once split
      obtain ⟨results, mapped⟩ := exists_results_of_each each
      refine .inl ⟨results.filterMap id, ?_⟩
      rw [lower, assigned]
      simp only [bind, Except.bind, mapped]
      rfl

end Total

end Insn

end TraceProbe
