import TraceProbe.Diagnostic
import TraceProbe.Insn.Basic

/-!
# Register assignment

Every virtual register is live from its first to its last mention in the
stream.  A scan over these intervals, by their start, gives each register a
machine register from `r6`, `r7` and `r8`, and takes it back once the interval
has ended.
-/

namespace TraceProbe

/-- First and last mention of a virtual register. -/
structure Interval where
  register : Nat
  first : Nat
  last : Nat
deriving DecidableEq, Inhabited

namespace Interval

/-- Extends the interval of a register to a position, if it has one. -/
def extend? (register position : Nat) : List Interval → Option (List Interval)
  | [] => none
  | interval :: rest =>
      if interval.register = register then
        some ({ interval with last := position } :: rest)
      else (extend? register position rest).map (interval :: ·)

/-- Records a mention; a new interval goes to the front. -/
def mention (intervals : List Interval) (register position : Nat) : List Interval :=
  (extend? register position intervals).getD (⟨register, position, position⟩ :: intervals)

/-- Records the mentions of one instruction. -/
def mentionAll (intervals : List Interval) (insn : Insn) (position : Nat) : List Interval :=
  (insn.regs.filterMap Reg.virtual?).foldl (mention · · position) intervals

/-- The intervals of instructions from a position on. -/
def collect (intervals : List Interval) (position : Nat) : List Insn → List Interval
  | [] => intervals
  | insn :: rest => collect (mentionAll intervals insn position) (position + 1) rest

/-- Whether an interval comes before another in the scan: by its start, and by
the number of its register where starts are equal. -/
def before (left right : Interval) : Bool :=
  left.first < right.first || left.first = right.first && left.register ≤ right.register

/-- The intervals of a stream in the order of the scan. -/
def ofInsns (insns : List Insn) : List Interval :=
  (collect [] 0 insns).mergeSort before

end Interval

/-- Machine registers of virtual ones. -/
abbrev Assignment := List (Nat × UInt8)

/-- The state of the scan. -/
structure Allocation where
  /-- Last mentions and machine registers of live intervals, oldest first. -/
  active : List (Nat × UInt8) := []
  /-- Free machine registers, the next one first. -/
  free : List UInt8 := [6, 7, 8]
  assigned : Assignment := []

namespace Allocation

/-- How many machine registers there are for virtual ones. -/
def capacity : Nat := ({} : Allocation).free.length

/-- Takes back the registers of intervals that ended before a position. -/
def expire (state : Allocation) (position : Nat) : Allocation :=
  let ended := state.active.filter (·.1 < position)
  { state with
    active := state.active.filter (position ≤ ·.1)
    free := ended.foldl (fun free entry => entry.2 :: free) state.free }

/-- Gives the next free register to an interval. -/
def place (state : Allocation) (interval : Interval) : Except Diagnostic Allocation :=
  let state := state.expire interval.first
  match state.free with
  | [] =>
      .error (.resourceLimit s!"expression needs more than {capacity} live registers" {})
  | register :: free =>
      .ok { state with
        active := state.active ++ [(interval.last, register)]
        free := free
        assigned := (interval.register, register) :: state.assigned }

end Allocation

/-- Assigns machine registers to all virtual registers of a stream. -/
def assignRegisters (insns : List Insn) : Except Diagnostic Assignment :=
  ((Interval.ofInsns insns).foldlM Allocation.place {}).map (·.assigned)

end TraceProbe
