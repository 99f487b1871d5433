import TraceProbe.Proofs.Lowering.Simulation

/-!
# Lowering preserves execution

The invariant of a run ties three things together: where the listing and the
program stand, the walk that led there, and the virtual registers that were
written on it and are still mentioned ahead.
-/

namespace TraceProbe

namespace Insn

theorem mem_regs_of_mem_reads {insn : Insn} {reg : Reg} (read : reg ∈ insn.reads) :
    reg ∈ insn.regs ∨ ∃ number ∈ Machine.argumentRegs, reg = .machine number := by
  cases insn with
  | plain code dst src off imm =>
      cases role : Opcode.role code with
      | call =>
          simp only [reads, role, List.mem_map] at read
          obtain ⟨number, member, same⟩ := read
          exact Or.inr ⟨number, member, same.symm⟩
      | arithmetic =>
          left
          simp only [reads, role, List.mem_append] at read
          rcases read with first | second
          · split at first
            · cases first
            · simp_all [regs]
          · split at second
            · simp_all [regs]
            · cases second
      | load | storeImm | storeReg =>
          left
          simp_all [reads, regs]
      | leave | wide | jump | unknown => simp [reads, role] at read
  | jump code dst src imm target =>
      left
      simp only [reads] at read
      split at read
      · cases read
      · split at read
        · exact read
        · simp_all [regs]
  | wide dst value => cases read
  | mapRef dst map => cases read
  | label name => cases read

theorem mem_regs_of_writes? {insn : Insn} {reg : Reg} (writes : insn.writes? = some reg) :
    reg ∈ insn.regs := by
  cases insn with
  | plain code dst src off imm =>
      simp only [writes?] at writes
      split at writes
      · simp_all [regs]
      · simp_all [regs]
      · cases writes
  | wide dst value => simp_all [writes?, regs]
  | mapRef dst map => simp_all [writes?, regs]
  | jump code dst src imm target => cases writes
  | label name => cases writes

theorem writes?_of_meaningless {insn : Insn} (meaningless : insn.meaningful = false) :
    insn.writes? = none := by
  cases insn with
  | plain code dst src off imm =>
      cases role : Opcode.role code <;> simp [meaningful, writes?, role] at meaningless ⊢
  | jump code dst src imm target => rfl
  | wide dst value => cases meaningless
  | mapRef dst map => cases meaningless
  | label name => cases meaningless

end Insn

open Insn

/-- A virtual register is live when it was written on the walk and is mentioned
ahead. -/
def Live (visited ahead : List Insn) (number : Nat) : Prop :=
  (∃ earlier ∈ visited, earlier.writes? = some (.virtual number)) ∧
    ∃ later ∈ ahead, .virtual number ∈ later.regs

/-- A listing with everything that its lowering relies on. -/
structure Lowered (code : List Insn) (assignment : Assignment) (labels : List (Label × Nat))
    (program : List MachineInsn) : Prop where
  separates : assignment.Separates code
  avoids : ∀ insn ∈ code, insn.AvoidsAllocatable
  written : WrittenBeforeRead code
  once : (boundLabels code).Nodup
  bindings : ∀ name stop, labels.lookup name = some stop →
    ∃ before after, code = before ++ label name :: after ∧ stop = totalOf slots before
  layout : ∀ before insn after, code = before ++ insn :: after →
    ∃ result, lowerAt assignment labels (totalOf slots before, insn) = .ok result ∧
      ∀ machine ∈ result, (totalOf slots before, machine) ∈ Program.placed program

namespace Lowered

variable {code before after : List Insn} {assignment : Assignment} {labels : List (Label × Nat)}
  {program : List MachineInsn} {insn : Insn} {visited : List Insn}

theorem canRead (lowered : Lowered code assignment labels program)
    (split : code = before ++ insn :: after) (walk : Walk .running before visited .running) :
    Alike.CanRead assignment (Live visited (insn :: after)) insn := by
  have member : insn ∈ code := split ▸ List.mem_append_right before List.mem_cons_self
  intro reg read
  cases reg with
  | machine number =>
      intro inside
      rcases mem_regs_of_mem_reads read with mentioned | ⟨argument, isArgument, same⟩
      · exact lowered.avoids insn member number inside mentioned
      · cases same
        exact (Allocation.apart_of_mem inside).2 isArgument
  | virtual number =>
      have mentioned : .virtual number ∈ insn.regs := by
        rcases mem_regs_of_mem_reads read with mentioned | ⟨argument, -, same⟩
        · exact mentioned
        · cases same
      refine ⟨⟨?_, insn, List.mem_cons_self, mentioned⟩, ?_⟩
      · exact lowered.written before insn after split visited walk number read
      · exact lowered.separates.assigned insn member number mentioned

theorem canWrite (lowered : Lowered code assignment labels program)
    (split : code = before ++ insn :: after) {flow : Flow}
    (walk : Walk .running before visited flow) :
    Alike.CanWrite assignment (Live visited (insn :: after)) (Live (visited ++ [insn]) after)
      insn := by
  have member : insn ∈ code := split ▸ List.mem_append_right before List.mem_cons_self
  have wasLive : ∀ number, Live (visited ++ [insn]) after number →
      insn.writes? ≠ some (.virtual number) → Live visited (insn :: after) number := by
    rintro number ⟨⟨earlier, among, writes⟩, later, ahead, mentioned⟩ other
    refine ⟨⟨earlier, ?_, writes⟩, later, List.mem_cons_of_mem _ ahead, mentioned⟩
    rcases List.mem_append.mp among with earlier | last
    · exact earlier
    · rw [List.mem_singleton.mp last] at writes
      exact absurd writes other
  refine ⟨?_, wasLive⟩
  intro reg register writes found
  have mentioned := mem_regs_of_writes? writes
  refine ⟨?_, ?_, ?_⟩
  · rintro number rfl inside
    exact lowered.avoids insn member number inside mentioned
  · rintro number rfl
    obtain ⟨holder, inside, known⟩ := lowered.separates.assigned insn member number mentioned
    have same := lookup_of_machineReg found
    rw [known] at same
    cases same
    exact inside
  · intro number alive different
    have live : Live visited (insn :: after) number := by
      apply wasLive number alive
      rw [writes]
      intro same
      exact different (Option.some.inj same).symm
    refine ⟨live, ?_⟩
    obtain ⟨⟨earlier, among, writesNumber⟩, -⟩ := live
    obtain ⟨-, later, ahead, mentionsLater⟩ := alive
    have mentionsEarlier := mem_regs_of_writes? writesNumber
    have inBefore := walk.mem_of_mem_visited among
    cases reg with
    | machine target =>
        cases found
        intro same
        have inCode : earlier ∈ code := split ▸ List.mem_append_left _ inBefore
        obtain ⟨holder, inside, known⟩ :=
          lowered.separates.assigned earlier inCode number mentionsEarlier
        rw [known] at same
        cases same
        exact lowered.avoids insn member _ inside mentioned
    | virtual target =>
        rw [← lookup_of_machineReg found]
        refine lowered.separates.apart before insn after split number target ?_ ?_ ?_ ?_ ?_
        · rintro rfl
          exact different rfl
        · exact ⟨earlier, List.mem_append_left _ inBefore, mentionsEarlier⟩
        · exact ⟨later, List.mem_cons_of_mem _ ahead, mentionsLater⟩
        · exact ⟨insn, List.mem_append_right _ List.mem_cons_self, mentioned⟩
        · exact ⟨insn, List.mem_cons_self, mentioned⟩

end Lowered

/-- Where the program stands while the listing stands between two pieces of its
code: at the slot in between, at the label that the listing looks for, or
before the instruction without a meaning that the listing came to. -/
def Stands (before ahead : List Insn) : Flow → Control → Prop
  | .running, control => control = .running (totalOf slots before)
  | .seeking target, control =>
      ∃ between after, ahead = between ++ label target :: after ∧
        control = .running (totalOf slots before + totalOf slots between)
  | .left, control => control = .left
  | .stuck, control =>
      ∃ place insn after, before = place ++ insn :: after ∧ insn.meaningful = false ∧
        control = .running (totalOf slots place)

/-- The invariant of a run, between two pieces of the listing. -/
structure Related {World : Type} (assignment : Assignment) (before ahead visited : List Insn)
    (symbolic : Symbolic World) (execution : Execution World) : Prop where
  walk : Walk .running before visited symbolic.flow
  stands : Stands before ahead symbolic.flow execution.control
  alike : Alike assignment (Live visited ahead) symbolic.machine execution.machine

namespace Lowered

variable {World : Type} {code before after : List Insn} {assignment : Assignment}
  {labels : List (Label × Nat)} {program : List MachineInsn} {insn : Insn}
  {visited : List Insn} {symbolic : Symbolic World} {execution : Execution World}
  (env : Environment World)

theorem totalOf_snoc (before : List Insn) (insn : Insn) :
    totalOf slots (before ++ [insn]) = totalOf slots before + insn.slots := by
  rw [totalOf_append]
  rfl

/-- An instruction that the listing passes by costs the program no step. -/
theorem related_passing (lowered : Lowered code assignment labels program)
    (split : code = before ++ insn :: after)
    (related : Related assignment before (insn :: after) visited symbolic execution)
    (stands : symbolic.flow ≠ .running) :
    Related assignment (before ++ [insn]) after visited (symbolic.step env insn) execution := by
  obtain ⟨walk, place, alike⟩ := related
  have next : symbolic.step env insn = ⟨symbolic.flow.passing insn, symbolic.machine⟩ := by
    rw [Symbolic.step, if_neg stands]
  rw [next]
  refine ⟨?_, ?_, alike.mono ?_⟩
  · have last : Walk symbolic.flow [insn] [] (symbolic.flow.passing insn) :=
      .pass stands (.nil _)
    simpa using walk.append last
  · cases flow : symbolic.flow with
    | running => exact absurd flow stands
    | left =>
        rw [flow] at place
        exact place
    | stuck =>
        rw [flow] at place
        obtain ⟨front, odd, back, parts, meaningless, control⟩ := place
        exact ⟨front, odd, back ++ [insn], by rw [parts]; simp, meaningless, control⟩
    | seeking target =>
        rw [flow] at place
        obtain ⟨between, rest, parts, control⟩ := place
        cases between with
        | nil =>
            cases parts
            simp only [Flow.passing, if_true, Stands]
            rw [control, totalOf_snoc]
            rfl
        | cons head between =>
            cases parts
            have other : insn ≠ label target := by
              rintro rfl
              have twice := lowered.once
              rw [split] at twice
              simp [boundLabels_append, List.nodup_append] at twice
            have passing : Flow.passing (.seeking target) insn = .seeking target := by
              cases insn with
              | label name =>
                  have different : name ≠ target := fun same => other (congrArg label same)
                  simp only [Flow.passing, if_neg different]
              | plain _ _ _ _ _ | wide _ _ | mapRef _ _ | jump _ _ _ _ _ => rfl
            rw [passing]
            refine ⟨between, rest, rfl, ?_⟩
            rw [control, totalOf_snoc, totalOf, Nat.add_assoc]
  · rintro number ⟨written, later, ahead, mentioned⟩
    exact ⟨written, later, List.mem_cons_of_mem _ ahead, mentioned⟩

/-- The label of a jump lies ahead of it. -/
theorem exists_ahead (lowered : Lowered code assignment labels program)
    (split : code = before ++ insn :: after) {target : Label} {stop : Nat}
    (known : labels.lookup target = some stop)
    (ahead : totalOf slots before + insn.slots ≤ stop) (positive : 0 < insn.slots) :
    ∃ between rest, after = between ++ label target :: rest ∧
      stop = totalOf slots (before ++ [insn]) + totalOf slots between := by
  obtain ⟨front, rest, parts, rfl⟩ := lowered.bindings target stop known
  rcases List.append_eq_append_iff.mp (split.symm.trans parts) with
    ⟨middle, left, right⟩ | ⟨middle, left, right⟩
  · cases middle with
    | nil =>
        rw [left, List.append_nil] at ahead
        omega
    | cons first between =>
        cases right
        refine ⟨between, rest, rfl, ?_⟩
        rw [left, totalOf_append, totalOf_snoc, totalOf, Nat.add_assoc]
  · rw [left, totalOf_append] at ahead
    omega

/-- An instruction that the listing carries out costs the program one step, and
a label none. -/
theorem related_carryOut (lowered : Lowered code assignment labels program)
    (split : code = before ++ insn :: after)
    (related : Related assignment before (insn :: after) visited symbolic execution)
    (running : symbolic.flow = .running) :
    ∃ count, Related assignment (before ++ [insn]) after (visited ++ [insn])
      (symbolic.step env insn)
      (Execution.steps env (Program.fetch program) count execution) := by
  obtain ⟨walk, place, alike⟩ := related
  have next : symbolic.step env insn = Symbolic.carryOut env symbolic.machine insn := by
    rw [Symbolic.step, if_pos running]
  rw [running] at walk place
  rw [next]
  have walked : Walk .running (before ++ [insn]) (visited ++ [insn])
      (Symbolic.carryOut env symbolic.machine insn).flow :=
    walk.append (.visit (Symbolic.flow_carryOut env symbolic.machine insn) (.nil _))
  have canRead := lowered.canRead split walk
  have canWrite := lowered.canWrite split walk
  cases meaningful : insn.meaningful with
  | false =>
      have stuck : Symbolic.carryOut env symbolic.machine insn = ⟨.stuck, symbolic.machine⟩ := by
        simp [Symbolic.carryOut, meaningful]
      refine ⟨0, walked, ?_, ?_⟩
      · rw [stuck]
        exact ⟨before, insn, [], rfl, meaningful, place⟩
      · rw [stuck]
        have silent := writes?_of_meaningless meaningful
        exact alike.mono fun number alive => canWrite.keeps number alive (by rw [silent]; simp)
  | true =>
      obtain ⟨result, found, placed⟩ := lowered.layout before insn after split
      cases result with
      | none =>
          obtain ⟨name, rfl⟩ := exists_label_of_lowerAt found
          refine ⟨0, walked, ?_, ?_⟩
          · have same : totalOf slots (before ++ [label name]) = totalOf slots before :=
              totalOf_snoc before (label name)
            show execution.control = .running (totalOf slots (before ++ [label name]))
            rw [same]
            exact place
          · exact alike.mono fun number alive => canWrite.keeps number alive (by simp [writes?])
      | some machineInsn =>
          have fetched := Program.fetch_eq_some_iff.mpr (placed machineInsn rfl)
          have one : Execution.steps env (Program.fetch program) 1 execution =
              machineInsn.advance env (totalOf slots before) execution.machine :=
            Execution.step_of_fetch env _ execution place fetched
          obtain ⟨machines, follows⟩ := alike.carryOut env found meaningful canRead canWrite
          refine ⟨1, walked, ?_, one ▸ machines⟩
          rw [one]
          cases flow : (Symbolic.carryOut env symbolic.machine insn).flow with
          | running =>
              rw [flow] at follows
              rw [← totalOf_snoc] at follows
              exact follows
          | left =>
              rw [flow] at follows
              exact follows
          | stuck =>
              rw [flow] at follows
              cases follows
          | seeking target =>
              rw [flow] at follows
              obtain ⟨stop, known, ahead, control⟩ := follows
              obtain ⟨between, rest, parts, same⟩ :=
                lowered.exists_ahead split known ahead (slots_pos_of_lowerAt found)
              exact ⟨between, rest, parts, same ▸ control⟩

theorem related_run (lowered : Lowered code assignment labels program)
    (split : code = before ++ after)
    (related : Related assignment before after visited symbolic execution) :
    ∃ count visited', Related assignment code [] visited' (Symbolic.run env after symbolic)
      (Execution.steps env (Program.fetch program) count execution) := by
  -- Induction on the part of the listing that lies ahead, since jumps skip parts
  -- of it.
  induction after generalizing before visited symbolic execution with
  | nil =>
      refine ⟨0, visited, ?_⟩
      rw [split, List.append_nil]
      exact related
  | cons insn after ih =>
      have further : code = (before ++ [insn]) ++ after := by
        rw [split, List.append_assoc]
        rfl
      rw [Symbolic.run_cons]
      by_cases running : symbolic.flow = .running
      · obtain ⟨count, next⟩ := lowered.related_carryOut env split related running
        obtain ⟨more, visited', finish⟩ := ih further next
        refine ⟨count + more, visited', ?_⟩
        rw [Execution.steps_add]
        exact finish
      · exact ih further (lowered.related_passing env split related running)

end Lowered

/-- How a run of a listing and one of its program end together: behind the last
instruction, at an exit, or before an instruction without a meaning. -/
def EndTogether (code : List Insn) (program : List MachineInsn) : Flow → Control → Prop
  | .running, control => control = .running (Program.slots program)
  | .seeking _, _ => False
  | .left, control => control = .left
  | .stuck, control =>
      ∃ before insn after, code = before ++ insn :: after ∧ insn.meaningful = false ∧
        control = .running (totalOf slots before)

/-- What two machines agree on that differ in the registers of the scan. -/
structure Agree {World : Type} (symbolic concrete : Machine World) : Prop where
  trace : concrete.trace = symbolic.trace
  memory : concrete.memory = symbolic.memory
  world : concrete.world = symbolic.world
  regs : ∀ number, number ∉ Allocation.allocatable →
    concrete.regs (.machine number) = symbolic.regs (.machine number)

theorem lowered_of_lower {code : List Insn} {program : List MachineInsn}
    (avoids : ∀ insn ∈ code, insn.AvoidsAllocatable) (written : WrittenBeforeRead code)
    (once : (boundLabels code).Nodup) (found : lower code = .ok program) :
    ∃ assignment, Lowered code assignment (labelSlots (placeFrom slots 0 code)) program ∧
      Program.slots program = totalOf slots code := by
  obtain ⟨assignment, results, assigned, mapped, rfl⟩ := exists_of_lower found
  obtain ⟨total, each⟩ := layout mapped
  refine ⟨assignment, ?_, total⟩
  refine ⟨separates_of_assignRegisters assigned, avoids, written, once, ?_, ?_⟩
  · intro name stop known
    exact exists_of_lookup_labelSlots known
  · intro before insn after split
    obtain ⟨result, lowers, placed⟩ := each before insn after split
    rw [Nat.zero_add] at lowers placed
    exact ⟨result, lowers, placed⟩

/-- The run of a listing and that of its program, from the same machine. -/
theorem run_agrees {World : Type} {code : List Insn} {program : List MachineInsn}
    (avoids : ∀ insn ∈ code, insn.AvoidsAllocatable) (written : WrittenBeforeRead code)
    (once : (boundLabels code).Nodup) (found : lower code = .ok program)
    (env : Environment World) (machine : Machine World) :
    ∃ count,
      let symbolic := Symbolic.run env code ⟨.running, machine⟩
      let execution := Execution.steps env (Program.fetch program) count (.start machine)
      EndTogether code program symbolic.flow execution.control ∧
        Agree symbolic.machine execution.machine := by
  obtain ⟨assignment, lowered, total⟩ := lowered_of_lower avoids written once found
  have start : Related assignment [] code [] (⟨.running, machine⟩ : Symbolic World)
      (.start machine) := by
    refine ⟨.nil _, rfl, rfl, rfl, rfl, fun _ _ => rfl, ?_⟩
    rintro number ⟨⟨earlier, member, -⟩, -⟩
    cases member
  obtain ⟨count, visited, walk, stands, alike⟩ := lowered.related_run env rfl start
  refine ⟨count, ?_, alike.trace, alike.memory, alike.world, alike.shared⟩
  cases flow : (Symbolic.run env code ⟨.running, machine⟩).flow with
  | running =>
      rw [flow] at stands
      rw [EndTogether, total]
      exact stands
  | left =>
      rw [flow] at stands
      exact stands
  | stuck =>
      rw [flow] at stands
      exact stands
  | seeking target =>
      rw [flow] at stands
      obtain ⟨between, rest, parts, -⟩ := stands
      cases between <;> cases parts

/-- Lowering preserves execution: whatever the environment and the machine, the
program of a built stream makes the same accesses and calls as its listing and
ends with it, with the same memory and the same registers. -/
theorem lower_preserves_execution {World : Type} {stream : Stream} {program : List MachineInsn}
    (built : stream.Built) (avoids : ∀ insn ∈ stream.code, insn.AvoidsAllocatable)
    (written : WrittenBeforeRead stream.code) (found : lower stream.code = .ok program)
    (env : Environment World) (machine : Machine World) :
    ∃ count,
      let symbolic := Symbolic.run env stream.code ⟨.running, machine⟩
      let execution := Execution.steps env (Program.fetch program) count (.start machine)
      EndTogether stream.code program symbolic.flow execution.control ∧
        Agree symbolic.machine execution.machine :=
  run_agrees avoids written built.labelsOnce.distinct found env machine

/-- Code that sets its one virtual register first. -/
theorem writtenBeforeRead_of_first {first : Insn} {rest : List Insn} (number : Nat)
    (writes : first.writes? = some (.virtual number))
    (starts : ∀ other, .virtual other ∉ first.reads)
    (only : ∀ insn ∈ rest, ∀ other, .virtual other ∈ insn.reads → other = number) :
    WrittenBeforeRead (first :: rest) := by
  intro before insn after split visited walk other read
  cases before with
  | nil =>
      cases split
      exact absurd read (starts other)
  | cons head before =>
      cases split
      obtain rfl := only insn (List.mem_append_right _ List.mem_cons_self) other read
      cases walk with
      | pass stands => exact absurd rfl stands
      | visit => exact ⟨first, List.mem_cons_self, writes⟩

/-- A stream that sets a virtual register, skips an addition to it when `r1` is
zero, and returns it. -/
def skipping : Stream :=
  let stream := ((Stream.new 512).after Emit.freshReg).after Emit.freshLabel
  let stream := stream.after (Emit.code
    [.movImm (.virtual 0) 5, .jumpImm Opcode.jeq .r1 0 ⟨0⟩, .alu64Imm Opcode.add (.virtual 0) 1])
  (stream.after (Emit.bind ⟨0⟩)).after (Emit.code [.move .r0 (.virtual 0), .leave])

/-- The program of the stream, with its virtual register in `r6`. -/
def skippingProgram : List MachineInsn :=
  [⟨183, 6, 0, 0, 5, none⟩, ⟨21, 1, 0, 1, 0, none⟩, ⟨7, 6, 0, 0, 1, none⟩, ⟨191, 0, 6, 0, 0, none⟩,
    ⟨149, 0, 0, 0, 0, none⟩]

theorem skipping_preserved :
    skipping.Built ∧ (∀ insn ∈ skipping.code, insn.AvoidsAllocatable) ∧
      WrittenBeforeRead skipping.code ∧ lower skipping.code = .ok skippingProgram ∧
      ∃ count,
        let symbolic := Symbolic.run .idle skipping.code ⟨.running, .zeros⟩
        let execution := Execution.steps .idle (Program.fetch skippingProgram) count (.start .zeros)
        EndTogether skipping.code skippingProgram symbolic.flow execution.control ∧
          Agree symbolic.machine execution.machine := by
  have built : skipping.Built :=
    .code _ (.bind _ (.code _ (.freshLabel (.freshReg (.new 512))) rfl)) rfl
  have avoids : ∀ insn ∈ skipping.code, insn.AvoidsAllocatable := by decide
  have written : WrittenBeforeRead skipping.code := by
    have reads : ∀ insn ∈ skipping.code.tail, ∀ reg ∈ insn.reads,
        reg = .virtual 0 ∨ reg.virtual? = none := by
      decide
    refine writtenBeforeRead_of_first 0 rfl (fun other read => by cases read) ?_
    intro insn member other read
    rcases reads insn member _ read with same | none
    · exact Reg.virtual.inj same
    · cases none
  have found : lower skipping.code = .ok skippingProgram := by decide +kernel
  exact ⟨built, avoids, written, found,
    lower_preserves_execution built avoids written found .idle .zeros⟩

end TraceProbe
