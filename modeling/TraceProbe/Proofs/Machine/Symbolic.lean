import TraceProbe.Proofs.Machine.Basic

/-!
# Running a listing

A listing runs from front to back.  A taken jump looks for its label among the
instructions ahead, so jumps only go forward.  Virtual registers are cells of
their own.

A walk is a run without values: where a run decides, a walk may go either way.
-/

namespace TraceProbe

/-- Where a run of a listing stands, between two instructions. -/
inductive Flow where
  | running
  /-- A jump was taken, and its label lies ahead. -/
  | seeking (target : Label)
  /-- The exit was carried out. -/
  | left
  /-- The run came to an instruction without a meaning. -/
  | stuck
deriving DecidableEq

namespace Insn

open Opcode

/-- Whether an instruction has a meaning in a listing: jumps have labels, and
wide loads are written as such. -/
def meaningful : Insn → Bool
  | plain code _ _ _ _ => role code ≠ .wide && role code ≠ .jump && role code ≠ .unknown
  | jump code _ _ _ _ => role code = .jump
  | wide _ _ | mapRef _ _ | label _ => true

/-- The registers whose values an instruction uses. -/
def reads : Insn → List Reg
  | plain code dst src _ _ =>
      match role code with
      | .arithmetic =>
          (if operationOf code = mov then [] else [dst]) ++
            (if hasRegisterOperand code && operationOf code ≠ neg then [src] else [])
      | .load => [src]
      | .storeImm => [dst]
      | .storeReg => [dst, src]
      | .call => Machine.argumentRegs.map .machine
      | .leave | .wide | .jump | .unknown => []
  | jump code dst src _ _ =>
      if operationOf code = ja then []
      else if hasRegisterOperand code then [dst, src]
      else [dst]
  | wide _ _ | mapRef _ _ | label _ => []

/-- The register that an instruction sets, but for what a helper call does to
machine registers. -/
def writes? : Insn → Option Reg
  | plain code dst _ _ _ =>
      match role code with
      | .arithmetic | .load => some dst
      | _ => none
  | wide dst _ | mapRef dst _ => some dst
  | jump _ _ _ _ _ | label _ => none

/-- Where control may stand after an instruction. -/
def exits (insn : Insn) : List Flow :=
  if insn.meaningful then
    match insn with
    | plain code _ _ _ _ => if role code = .leave then [.left] else [.running]
    | jump code _ _ _ target =>
        if operationOf code = ja then [.seeking target] else [.running, .seeking target]
    | wide _ _ | mapRef _ _ | label _ => [.running]
  else [.stuck]

end Insn

/-- Where control stands after an instruction that is passed by without being
carried out. -/
def Flow.passing : Flow → Insn → Flow
  | .seeking target, .label name => if name = target then .running else .seeking target
  | flow, _ => flow

/-- The walks through a piece of a listing, with the instructions they carry
out. -/
inductive Walk : Flow → List Insn → List Insn → Flow → Prop
  | nil (flow : Flow) : Walk flow [] [] flow
  | pass {flow last : Flow} {insn : Insn} {rest visited : List Insn} :
      flow ≠ .running → Walk (flow.passing insn) rest visited last →
        Walk flow (insn :: rest) visited last
  | visit {next last : Flow} {insn : Insn} {rest visited : List Insn} :
      next ∈ insn.exits → Walk next rest visited last →
        Walk .running (insn :: rest) (insn :: visited) last

namespace Walk

theorem append {first middle last : Flow} {before after visited visited' : List Insn}
    (start : Walk first before visited middle) (finish : Walk middle after visited' last) :
    Walk first (before ++ after) (visited ++ visited') last := by
  induction start with
  | nil => exact finish
  | pass stands _ ih => exact .pass stands (ih finish)
  | visit possible _ ih => exact .visit possible (ih finish)

theorem mem_of_mem_visited {first last : Flow} {code visited : List Insn}
    (walk : Walk first code visited last) {insn : Insn} (member : insn ∈ visited) :
    insn ∈ code := by
  induction walk with
  | nil => exact member
  | pass _ _ ih => exact List.mem_cons_of_mem _ (ih member)
  | visit _ _ ih =>
      rcases List.mem_cons.mp member with rfl | later
      · exact List.mem_cons_self
      · exact List.mem_cons_of_mem _ (ih later)

end Walk

/-- On every forward path, virtual registers are written before they are read. -/
def WrittenBeforeRead (code : List Insn) : Prop :=
  ∀ before insn after, code = before ++ insn :: after →
    ∀ visited, Walk .running before visited .running →
      ∀ number, .virtual number ∈ insn.reads →
        ∃ earlier ∈ visited, earlier.writes? = some (.virtual number)

/-- A run of a listing. -/
structure Symbolic (World : Type) where
  flow : Flow
  machine : Machine World

namespace Symbolic

variable {World : Type} (env : Environment World)

/-- Carries out one instruction. -/
def carryOut (machine : Machine World) (insn : Insn) : Symbolic World :=
  if insn.meaningful then
    match insn with
    | .plain code dst src off imm =>
        if Opcode.role code = .leave then ⟨.left, machine⟩
        else ⟨.running, machine.perform env code dst src off imm⟩
    | .wide dst value => ⟨.running, machine.set dst value⟩
    | .mapRef dst map => ⟨.running, machine.set dst (env.handle (UInt64.ofNat map))⟩
    | .jump code dst src imm target =>
        if env.takes code (machine.regs dst) (machine.operand code src imm) then
          ⟨.seeking target, machine⟩
        else ⟨.running, machine⟩
    | .label _ => ⟨.running, machine⟩
  else ⟨.stuck, machine⟩

/-- Goes past one instruction of the listing. -/
def step (symbolic : Symbolic World) (insn : Insn) : Symbolic World :=
  if symbolic.flow = .running then carryOut env symbolic.machine insn
  else ⟨symbolic.flow.passing insn, symbolic.machine⟩

/-- Goes through a listing. -/
def run (code : List Insn) (symbolic : Symbolic World) : Symbolic World :=
  code.foldl (step env) symbolic

theorem run_append (before after : List Insn) (symbolic : Symbolic World) :
    run env (before ++ after) symbolic = run env after (run env before symbolic) :=
  List.foldl_append

theorem run_cons (insn : Insn) (code : List Insn) (symbolic : Symbolic World) :
    run env (insn :: code) symbolic = run env code (step env symbolic insn) :=
  rfl

theorem flow_carryOut (machine : Machine World) (insn : Insn) :
    (carryOut env machine insn).flow ∈ insn.exits := by
  unfold carryOut Insn.exits
  split
  · cases insn with
    | plain code dst src off imm =>
        simp only
        split <;> exact List.mem_singleton.mpr rfl
    | wide dst value => exact List.mem_singleton.mpr rfl
    | mapRef dst map => exact List.mem_singleton.mpr rfl
    | label name => exact List.mem_singleton.mpr rfl
    | jump code dst src imm target =>
        by_cases always : Opcode.operationOf code = Opcode.ja
        · simp [Environment.takes, always]
        · simp only [always, if_false]
          split <;> simp
  · exact List.mem_singleton.mpr rfl

theorem exists_walk (code : List Insn) (symbolic : Symbolic World) :
    ∃ visited, Walk symbolic.flow code visited (run env code symbolic).flow := by
  induction code generalizing symbolic with
  | nil => exact ⟨[], .nil _⟩
  | cons insn code ih =>
      obtain ⟨visited, walk⟩ := ih (step env symbolic insn)
      rw [run_cons]
      by_cases running : symbolic.flow = .running
      · refine ⟨insn :: visited, ?_⟩
        rw [running]
        refine .visit (flow_carryOut env symbolic.machine insn) ?_
        simpa only [step, if_pos running] using walk
      · refine ⟨visited, .pass running ?_⟩
        simpa only [step, if_neg running] using walk

end Symbolic

end TraceProbe
