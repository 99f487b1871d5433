import TraceProbe.Proofs.Machine.Effects

/-!
# Walks through pieces of a listing

A walk through a listing is a walk through each of its pieces.  Where no
instruction decides anything there is one walk, and a walk that looks for a
label passes everything else.
-/

namespace TraceProbe

namespace Insn

open Opcode

/-- Whether control always goes on to the next instruction. -/
def straight (insn : Insn) : Bool :=
  insn.exits = [.running]

theorem straight_load (width : Width) (dst base : Reg) (off : Int16) :
    (load width.bits dst base off).straight = true := by
  cases width <;> rfl

theorem straight_store (width : Width) (base src : Reg) (off : Int16) :
    (store width.bits base src off).straight = true := by
  cases width <;> rfl

theorem straight_storeImm (width : Width) (base : Reg) (off : Int16) (imm : Int32) :
    (storeImm width.bits base off imm).straight = true := by
  cases width <;> rfl

theorem straight_callOf (helper : Helper) : (callOf helper).straight = true := by
  cases helper <;> rfl

theorem exits_ne_nil (insn : Insn) : insn.exits ≠ [] := by
  unfold exits
  cases insn <;> split <;> simp <;> split <;> simp

end Insn

namespace Walk

variable {first last : Flow} {code before after visited : List Insn}

theorem split (walk : Walk first (before ++ after) visited last) :
    ∃ middle earlier later, Walk first before earlier middle ∧ Walk middle after later last ∧
      visited = earlier ++ later := by
  induction before generalizing first visited with
  | nil => exact ⟨first, [], visited, .nil first, walk, rfl⟩
  | cons insn before ih =>
      cases walk with
      | pass stands rest =>
          obtain ⟨middle, earlier, later, start, finish, rfl⟩ := ih rest
          exact ⟨middle, earlier, later, .pass stands start, finish, rfl⟩
      | visit possible rest =>
          obtain ⟨middle, earlier, later, start, finish, rfl⟩ := ih rest
          exact ⟨middle, insn :: earlier, later, .visit possible start, finish, rfl⟩

theorem exists_walk (first : Flow) (code : List Insn) :
    ∃ visited last, Walk first code visited last := by
  induction code generalizing first with
  | nil => exact ⟨[], first, .nil first⟩
  | cons insn code ih =>
      by_cases running : first = .running
      · subst running
        obtain ⟨next, possible⟩ := List.exists_mem_of_ne_nil _ insn.exits_ne_nil
        obtain ⟨visited, last, rest⟩ := ih next
        exact ⟨insn :: visited, last, .visit possible rest⟩
      · obtain ⟨visited, last, rest⟩ := ih (first.passing insn)
        exact ⟨visited, last, .pass running rest⟩

theorem of_straight (straight : code.all Insn.straight = true)
    (walk : Walk .running code visited last) : visited = code ∧ last = .running := by
  induction code generalizing visited with
  | nil =>
      cases walk
      exact ⟨rfl, rfl⟩
  | cons insn code ih =>
      obtain ⟨here, others⟩ := Bool.and_eq_true_iff.mp straight
      cases walk with
      | pass stands _ => exact absurd rfl stands
      | visit possible rest =>
          rw [of_decide_eq_true here, List.mem_singleton] at possible
          subst possible
          obtain ⟨rfl, rfl⟩ := ih others rest
          exact ⟨rfl, rfl⟩

theorem of_seeking {target : Label} (missing : .label target ∉ code)
    (walk : Walk (.seeking target) code visited last) : visited = [] ∧ last = .seeking target := by
  induction code generalizing visited with
  | nil =>
      cases walk
      exact ⟨rfl, rfl⟩
  | cons insn code ih =>
      rw [List.mem_cons, not_or] at missing
      cases walk with
      | pass _ rest =>
          have stays : (Flow.seeking target).passing insn = .seeking target := by
            cases insn with
            | label name => exact if_neg fun same : name = target => missing.1 (by rw [same])
            | plain _ _ _ _ _ | wide _ _ | mapRef _ _ | jump _ _ _ _ _ => rfl
          rw [stays] at rest
          exact ih missing.2 rest

theorem of_passing (stands : first ≠ .running) (free : ∀ name, .label name ∉ code)
    (walk : Walk first code visited last) : visited = [] := by
  induction code generalizing first visited with
  | nil =>
      cases walk
      rfl
  | cons insn code ih =>
      cases walk with
      | pass _ rest =>
          refine ih ?_ (fun name member => free name (List.mem_cons_of_mem _ member)) rest
          cases insn with
          | label name => exact absurd List.mem_cons_self (free name)
          | plain _ _ _ _ _ | wide _ _ | mapRef _ _ | jump _ _ _ _ _ =>
              cases first <;> exact stands
      | visit _ _ => exact absurd rfl stands

theorem of_found {target : Label}
    (walk : Walk (.seeking target) (.label target :: code) visited last) :
    Walk .running code visited last := by
  cases walk with
  | pass _ rest => simpa [Flow.passing] using rest

end Walk

end TraceProbe
