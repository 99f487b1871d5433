import TraceProbe.Proofs.Machine.Facts
import TraceProbe.Proofs.Machine.Paths

/-!
# Audits

An audit of a piece of code follows every walk through it: the walk comes to the
end, the frame pointer stays, every call of a map helper is made with what is
asked of it, and certain positions of the frame have been written behind it.
-/

namespace TraceProbe

namespace Facts

/-- The frame pointer is known, and certain positions have been written. -/
structure Has (facts : Facts) (written : Int → Prop) : Prop where
  frame : facts.known .frame = .place 0
  written : ∀ position, written position → facts.written position

/-- Every call of a map helper is made with what is asked of it. -/
def Passes (good : Helper → Facts → Prop) (facts : Facts) : List Insn → Prop
  | [] => True
  | insn :: rest =>
      (∀ helper, insn.helper? = some helper → helper.onMap = true → good helper facts) ∧
        Passes good (facts.step insn) rest

variable {good : Helper → Facts → Prop} {facts : Facts}

theorem Has.mono {written fewer : Int → Prop} (has : facts.Has written)
    (less : ∀ position, fewer position → written position) : facts.Has fewer := by
  constructor
  · exact has.frame
  · intro position member
    exact has.written position (less position member)

theorem passes_append {earlier later : List Insn} :
    facts.Passes good (earlier ++ later) ↔
      facts.Passes good earlier ∧ (facts.after earlier).Passes good later := by
  induction earlier generalizing facts with
  | nil => simp [Passes]
  | cons insn earlier ih =>
      rw [List.cons_append, Passes, Passes, ih, and_assoc]
      rfl

theorem Passes.mono {other : Helper → Facts → Prop} {visited : List Insn}
    (passes : facts.Passes good visited)
    (more : ∀ helper facts, good helper facts → other helper facts) :
    facts.Passes other visited := by
  induction visited generalizing facts with
  | nil => trivial
  | cons insn visited ih =>
      exact ⟨fun helper calls onMap => more _ _ (passes.1 helper calls onMap), ih passes.2⟩

theorem Passes.at_call {earlier later : List Insn} {helper : Helper}
    (passes : facts.Passes good (earlier ++ .callOf helper :: later))
    (onMap : helper.onMap = true) :
    good helper (facts.after earlier) := by
  obtain ⟨-, here, -⟩ := passes_append.mp passes
  exact here helper (Helper.ofId?_id helper) onMap

theorem written_after {visited : List Insn} {position : Int} (before : facts.written position) :
    (facts.after visited).written position := by
  induction visited generalizing facts with
  | nil => exact before
  | cons insn visited ih => exact ih (facts.written_step insn before)

end Facts

namespace Insn

/-- Whether an instruction goes straight on, keeps the frame pointer and calls
no map helper. -/
def harmless (insn : Insn) : Bool :=
  insn.straight && insn.writes? ≠ some .frame && insn.helper?.all (!·.onMap)

section Harmless

open Opcode Symbolic

variable {dst src base : Reg} {width : Width} {off : Int16} {imm : Int32} {code : UInt8}

/-- Arithmetic and loads do no harm to any register but their own. -/
theorem harmless_plain (known : role code = .arithmetic ∨ role code = .load)
    (other : dst ≠ .frame) : (plain code dst src off imm).harmless = true := by
  have noCall : code ≠ callHelper := by
    rintro rfl
    exact absurd known (by decide)
  have kept : dst ≠ .frame → some dst ≠ some Reg.frame := fun different same =>
    different (Option.some.inj same)
  rcases known with known | known <;>
    simp [harmless, straight, exits, meaningful, writes?, helper?, known, noCall, other]

theorem harmless_toMemory (known : role code = .storeImm ∨ role code = .storeReg) :
    (plain code dst src off imm).harmless = true := by
  have noCall : code ≠ callHelper := by
    rintro rfl
    exact absurd known (by decide)
  rcases known with known | known <;>
    simp [harmless, straight, exits, meaningful, writes?, helper?, known, noCall]

theorem harmless_move (other : dst ≠ .frame) : (move dst src).harmless = true :=
  harmless_plain (.inl rfl) other

theorem harmless_movImm (other : dst ≠ .frame) : (movImm dst imm).harmless = true :=
  harmless_plain (.inl rfl) other

theorem harmless_wide {value : UInt64} (other : dst ≠ .frame) :
    (wide dst value).harmless = true := by
  simp [harmless, straight, exits, meaningful, writes?, helper?, other]

theorem harmless_load (other : dst ≠ .frame) : (load width.bits dst base off).harmless = true :=
  harmless_plain (.inr (role_load width)) other

theorem harmless_store : (store width.bits base src off).harmless = true :=
  harmless_toMemory (.inr (role_store width))

theorem harmless_storeImm : (storeImm width.bits base off imm).harmless = true :=
  harmless_toMemory (.inl (role_storeImm width))

end Harmless

theorem straight_of_harmless {code : List Insn} (harmless : code.all Insn.harmless = true) :
    code.all straight = true := by
  rw [List.all_eq_true] at harmless ⊢
  intro insn member
  have here := harmless insn member
  simp only [Insn.harmless, Bool.and_eq_true] at here
  exact here.1.1

end Insn

namespace Facts

variable {good : Helper → Facts → Prop} {facts : Facts} {code : List Insn}

theorem passes_of_harmless (harmless : code.all Insn.harmless = true) :
    facts.Passes good code := by
  induction code generalizing facts with
  | nil => trivial
  | cons insn code ih =>
      obtain ⟨here, others⟩ := Bool.and_eq_true_iff.mp harmless
      simp only [Insn.harmless, Bool.and_eq_true] at here
      refine ⟨?_, ih others⟩
      intro helper called onMap
      have calls := here.2
      rw [called] at calls
      simp [onMap] at calls

theorem Has.after_harmless {written : Int → Prop} (has : facts.Has written)
    (harmless : code.all Insn.harmless = true) : (facts.after code).Has written := by
  induction code generalizing facts with
  | nil => exact has
  | cons insn code ih =>
      obtain ⟨here, others⟩ := Bool.and_eq_true_iff.mp harmless
      simp only [Insn.harmless, Bool.and_eq_true, decide_eq_true_eq] at here
      have next : (facts.step insn).Has written :=
        ⟨(facts.known_frame_step here.1.2).trans has.frame,
          fun position before => facts.written_step insn (has.written position before)⟩
      exact ih next others

end Facts

/-- However a walk goes through a piece of code, it comes to the end, the frame
pointer stays, every call of a map helper is made with what is asked of it, and
certain positions are written. -/
def Audit (good : Helper → Facts → Prop) (written : Int → Prop) (code : List Insn)
    (wrote : Int → Prop) : Prop :=
  ∀ facts : Facts, facts.Has written → ∀ visited last, Walk .running code visited last →
    last = .running ∧ facts.Passes good visited ∧ (facts.after visited).Has wrote

/-- The watch behind an audit: it keeps what is known and looks at calls of map
helpers. -/
def inspection (good : Helper → Facts → Prop) : Watch Facts where
  step := Facts.step
  good facts insn := ∀ helper, insn.helper? = some helper → helper.onMap = true → good helper facts

theorem steady_inspection (good : Helper → Facts → Prop) : (inspection good).Steady where
  jump _ _ _ _ _ _ := rfl
  label _ _ := rfl
  goto _ _ _ called := by cases called
  bound _ _ _ called := by cases called

theorem Facts.passes_iff_inspection {good : Helper → Facts → Prop} {facts : Facts}
    {visited : List Insn} :
    facts.Passes good visited ↔ (inspection good).Passes facts visited := by
  induction visited generalizing facts with
  | nil => exact Iff.rfl
  | cons insn visited ih => exact and_congr_right fun _ => ih

namespace Audit

open Facts

variable {good : Helper → Facts → Prop} {written wrote : Int → Prop} {code : List Insn}

theorem iff_leads : Audit good written code wrote ↔
    (inspection good).Leads (·.Has written) code (·.Has wrote) := by
  simp only [Audit, Watch.Leads, Facts.passes_iff_inspection]
  rfl

theorem append {first second : List Insn} {middle behind : Int → Prop}
    (before : Audit good written first middle)
    (after : Audit good (fun position => written position ∨ middle position) second behind) :
    Audit good written (first ++ second) (fun position => middle position ∨ behind position) := by
  intro facts has visited last walk
  obtain ⟨between, earlier, later, start, finish, rfl⟩ := walk.split
  obtain ⟨rfl, passes, reached⟩ := before facts has _ _ start
  have both : (facts.after earlier).Has (fun position => written position ∨ middle position) :=
    ⟨reached.frame, fun position member =>
      member.elim (fun early => written_after (has.written position early))
        (reached.written position)⟩
  obtain ⟨rfl, more, final⟩ := after _ both _ _ finish
  refine ⟨rfl, passes_append.mpr ⟨passes, more⟩, ?_⟩
  rw [after_append]
  refine ⟨final.frame, ?_⟩
  intro position member
  rcases member with early | late
  · exact written_after (reached.written position early)
  · exact final.written position late

theorem weaken {more fewer : Int → Prop} (audit : Audit good written code wrote)
    (enough : ∀ position, written position → more position)
    (less : ∀ position, fewer position → wrote position) : Audit good more code fewer := by
  intro facts has visited last walk
  obtain ⟨ends, passes, final⟩ := audit facts (has.mono enough) visited last walk
  exact ⟨ends, passes, final.mono less⟩

theorem of_straight (straight : code.all Insn.straight = true)
    (effect : ∀ facts : Facts, facts.Has written →
      facts.Passes good code ∧ (facts.after code).Has wrote) : Audit good written code wrote := by
  intro facts has visited last walk
  obtain ⟨rfl, rfl⟩ := walk.of_straight straight
  exact ⟨rfl, effect facts has⟩

theorem nil : Audit good written [] written :=
  of_straight rfl fun _ has => ⟨trivial, has⟩

theorem empty {start : Int} : Audit good written [] (Span start 0) := by
  apply nil.weaken fun _ => id
  intro position member
  obtain ⟨low, high⟩ := member
  omega

theorem of_write {insn : Insn} {offset : Int16} {size : Nat} (harmless : insn.harmless = true)
    (writes : ∀ facts : Facts, facts.step insn =
      facts.write (facts.known .frame) offset.toInt size) :
    Audit good written [insn] (Span offset.toInt size) := by
  simp only [Insn.harmless, Bool.and_eq_true, decide_eq_true_eq] at harmless
  obtain ⟨⟨straight, kept⟩, calls⟩ := harmless
  refine of_straight (by simpa using straight) fun facts has => ⟨⟨?_, trivial⟩, ?_, ?_⟩
  · intro helper called onMap
    rw [called] at calls
    simp [onMap] at calls
  · exact (facts.known_frame_step kept).trans has.frame
  · intro position inside
    rw [after_cons, after_nil, writes, has.frame]
    exact .inr (by simpa only [Int.zero_add] using inside)

theorem join {first second : List Insn} {start : Int} {left right : Nat}
    (before : Audit good written first (Span start left))
    (after : Audit good written second (Span (start + left) right)) :
    Audit good written (first ++ second) (Span start (left + right)) := by
  refine (before.append (after.weaken (fun _ => .inl) fun _ => id)).weaken (fun _ => id) ?_
  rintro position ⟨low, high⟩
  rcases Int.lt_or_le position (start + left) with early | late
  · exact .inl ⟨low, early⟩
  · exact .inr ⟨late, by omega⟩

theorem behind_harmless {first second : List Insn} (harmless : first.all Insn.harmless = true)
    (after : Audit good written second wrote) : Audit good written (first ++ second) wrote := by
  intro facts has visited last walk
  obtain ⟨middle, earlier, later, start, finish, rfl⟩ := walk.split
  obtain ⟨rfl, rfl⟩ := start.of_straight (Insn.straight_of_harmless harmless)
  obtain ⟨ends, passes, final⟩ := after _ (has.after_harmless harmless) _ _ finish
  refine ⟨ends, passes_append.mpr ⟨passes_of_harmless harmless, passes⟩, ?_⟩
  rwa [after_append]

theorem of_harmless (harmless : code.all Insn.harmless = true) :
    Audit good written code written := by
  have found := behind_harmless harmless (@nil good written)
  rwa [List.append_nil] at found

/-- A helper call behind code that prepares it. -/
theorem of_call {setup : List Insn} {helper : Helper} (harmless : setup.all Insn.harmless = true)
    (fits : ∀ facts : Facts, facts.Has written → helper.onMap = true →
      good helper (facts.after setup))
    (effect : ∀ facts : Facts, facts.Has written → ∀ position, wrote position →
      ((facts.after setup).answered helper.id).written position) :
    Audit good written (setup ++ [.callOf helper]) wrote := by
  have straight : (setup ++ [Insn.callOf helper]).all Insn.straight = true := by
    rw [List.all_append, Insn.straight_of_harmless harmless]
    cases helper <;> rfl
  refine of_straight straight fun facts has => ⟨?_, ?_⟩
  · refine passes_append.mpr ⟨passes_of_harmless harmless, ?_, trivial⟩
    intro other called onMap
    have same : (Insn.callOf helper).helper? = some helper := Helper.ofId?_id helper
    rw [same] at called
    cases called
    exact fits facts has onMap
  · rw [after_append, after_cons, after_nil, step_callOf]
    refine ⟨?_, effect facts has⟩
    exact (congrFun (known_answered _ _) _).trans (has.after_harmless harmless).frame

/-- Two ways that a jump decides between, and that meet again. -/
theorem of_branch {hitCode missCode : List Insn} {reg : Reg} {imm : Int32} {miss hit : Label}
    (different : miss ≠ hit) (hitFree : ∀ name, .label name ∉ hitCode)
    (missFree : ∀ name, .label name ∉ missCode) (hitAudit : Audit good written hitCode wrote)
    (missAudit : Audit good written missCode wrote) :
    Audit good written
      (.jumpImm Opcode.jeq reg imm miss ::
        (hitCode ++ (.goto hit :: .label miss :: (missCode ++ [.label hit])))) wrote := by
  have hitLeads := iff_leads.mp hitAudit
  have missLeads := iff_leads.mp missAudit
  apply iff_leads.mpr
  apply Watch.Leads.branch (steady_inspection good) different hitFree missFree _ hitLeads
    missLeads
  intro _ _ _ called
  cases called

/-- What may stand in code that can be left to a label: it keeps the frame
pointer and calls no map helper. -/
structure Leaves (done : Label) (insn : Insn) : Prop where
  exits : ∀ flow ∈ insn.exits, flow = .running ∨ flow = .seeking done
  kept : insn.writes? ≠ some .frame
  calls : ∀ helper, insn.helper? = some helper → helper.onMap = false

theorem leaves_of_harmless {done : Label} {insn : Insn} (harmless : insn.harmless = true) :
    Leaves done insn := by
  simp only [Insn.harmless, Bool.and_eq_true, decide_eq_true_eq] at harmless
  obtain ⟨⟨straight, kept⟩, calls⟩ := harmless
  refine ⟨fun flow member => .inl ?_, kept, ?_⟩
  · rw [of_decide_eq_true straight] at member
    exact List.mem_singleton.mp member
  · intro helper called
    rw [called] at calls
    simpa using calls

/-- A walk through such code comes to its end or looks for the label. -/
theorem walk_leaves {done : Label} (each : ∀ insn ∈ code, Leaves done insn) {facts : Facts}
    (has : facts.Has written) {first last : Flow} {visited : List Insn}
    (here : first = .running ∨ first = .seeking done) (walk : Walk first code visited last) :
    (last = .running ∨ last = .seeking done) ∧ facts.Passes good visited ∧
      (facts.after visited).Has written := by
  induction code generalizing first facts visited with
  | nil =>
      cases walk
      exact ⟨here, trivial, has⟩
  | cons insn code ih =>
      have others : ∀ other ∈ code, Leaves done other := fun other member =>
        each other (List.mem_cons_of_mem _ member)
      cases walk with
      | pass stands rest =>
          refine ih others has ?_ rest
          rcases here with rfl | rfl
          · exact absurd rfl stands
          · cases insn with
            | label name =>
                simp only [Flow.passing]
                split
                · exact .inl rfl
                · exact .inr rfl
            | plain _ _ _ _ _ | wide _ _ | mapRef _ _ | jump _ _ _ _ _ => exact .inr rfl
      | visit possible rest =>
          obtain ⟨exits, kept, calls⟩ := each insn List.mem_cons_self
          have next : (facts.step insn).Has written :=
            ⟨(facts.known_frame_step kept).trans has.frame,
              fun position before => facts.written_step insn (has.written position before)⟩
          obtain ⟨ends, passes, final⟩ := ih others next (exits _ possible) rest
          refine ⟨ends, ⟨?_, passes⟩, final⟩
          intro helper called onMap
          rw [calls helper called] at onMap
          cases onMap

theorem of_leaves {done : Label} (each : ∀ insn ∈ code, Leaves done insn) :
    Audit good written (code ++ [.label done]) written := by
  refine iff_leads.mpr (Watch.Breaks.close (steady_inspection good) ?_)
  intro facts has visited last walk
  obtain ⟨ends, passes, behind⟩ := walk_leaves each has (.inl rfl) walk
  exact ⟨Facts.passes_iff_inspection.mp passes, ends.imp (⟨·, behind⟩) (⟨·, behind⟩)⟩

end Audit

end TraceProbe
