import TraceProbe.Proofs.Machine.Walks

/-!
# Judgements on walks

A watch follows a walk with a state of its own and asks something of every
instruction that the walk carries out.  A judgement says what holds behind all
walks through a piece of a listing, and judgements are put together as the
pieces are.
-/

namespace TraceProbe

/-- A state that instructions change, and what is asked of them. -/
structure Watch (State : Type) where
  step : State → Insn → State
  good : State → Insn → Prop

namespace Watch

variable {State : Type} (watch : Watch State)

/-- The state behind instructions. -/
def after (state : State) (visited : List Insn) : State :=
  visited.foldl watch.step state

/-- What is asked holds at every instruction. -/
def Passes : State → List Insn → Prop
  | _, [] => True
  | state, insn :: rest => watch.good state insn ∧ Passes (watch.step state insn) rest

/-- Every walk comes to the end of the code, and does what is asked on the way. -/
def Leads (pre : State → Prop) (code : List Insn) (post : State → Prop) : Prop :=
  ∀ state, pre state → ∀ visited last, Walk .running code visited last →
    last = .running ∧ watch.Passes state visited ∧ post (watch.after state visited)

/-- Every walk comes to the end of the code or leaves it for a label. -/
def Breaks (done : Label) (pre : State → Prop) (code : List Insn)
    (post away : State → Prop) : Prop :=
  ∀ state, pre state → ∀ visited last, Walk .running code visited last →
    watch.Passes state visited ∧ (last = .running ∧ post (watch.after state visited) ∨
      last = .seeking done ∧ away (watch.after state visited))

/-- Whatever a walk carries out of the code, it does what is asked there, and is in
such a state again behind it. -/
def Keeps (holds : State → Prop) (code : List Insn) : Prop :=
  ∀ state, holds state → ∀ first visited last, Walk first code visited last →
    watch.Passes state visited ∧ holds (watch.after state visited)

/-- Jumps and labels change nothing, and nothing is asked where nothing is
compared. -/
structure Steady : Prop where
  jump : ∀ state code dst src imm target, watch.step state (.jump code dst src imm target) = state
  label : ∀ state name, watch.step state (.label name) = state
  goto : ∀ state target, watch.good state (.goto target)
  bound : ∀ state name, watch.good state (.label name)

variable {watch} {state : State} {first second code visited : List Insn} {done : Label}
  {pre middle post away : State → Prop}

@[simp] theorem passes_nil : watch.Passes state [] :=
  trivial

@[simp] theorem passes_cons {insn : Insn} : watch.Passes state (insn :: code) ↔
    watch.good state insn ∧ watch.Passes (watch.step state insn) code :=
  Iff.rfl

@[simp] theorem after_nil : watch.after state [] = state :=
  rfl

@[simp] theorem after_cons {insn : Insn} :
    watch.after state (insn :: code) = watch.after (watch.step state insn) code :=
  rfl

theorem after_append : watch.after state (first ++ second) =
    watch.after (watch.after state first) second :=
  List.foldl_append

theorem passes_append : watch.Passes state (first ++ second) ↔
    watch.Passes state first ∧ watch.Passes (watch.after state first) second := by
  induction first generalizing state with
  | nil => simp
  | cons insn first ih => simp only [List.cons_append, passes_cons, ih, and_assoc, after_cons]

namespace Leads

theorem nil : watch.Leads pre [] pre := by
  intro state holds visited last walk
  cases walk
  exact ⟨rfl, trivial, holds⟩

theorem append (before : watch.Leads pre first middle) (behind : watch.Leads middle second post) :
    watch.Leads pre (first ++ second) post := by
  intro state holds visited last walk
  obtain ⟨between, earlier, later, start, finish, rfl⟩ := walk.split
  obtain ⟨rfl, passes, reached⟩ := before state holds _ _ start
  obtain ⟨rfl, more, final⟩ := behind _ reached _ _ finish
  rw [after_append]
  exact ⟨rfl, passes_append.mpr ⟨passes, more⟩, final⟩

theorem weaken {less more : State → Prop} (leads : watch.Leads pre code post)
    (enough : ∀ state, more state → pre state) (weaker : ∀ state, post state → less state) :
    watch.Leads more code less := by
  intro state holds visited last walk
  obtain ⟨ends, passes, final⟩ := leads state (enough state holds) visited last walk
  exact ⟨ends, passes, weaker _ final⟩

theorem of_straight (straight : code.all Insn.straight = true)
    (effect : ∀ state, pre state → watch.Passes state code ∧ post (watch.after state code)) :
    watch.Leads pre code post := by
  intro state holds visited last walk
  obtain ⟨rfl, rfl⟩ := walk.of_straight straight
  exact ⟨rfl, effect state holds⟩

theorem breaks (leads : watch.Leads pre code post) : watch.Breaks done pre code post away := by
  intro state holds visited last walk
  obtain ⟨ends, passes, final⟩ := leads state holds visited last walk
  exact ⟨passes, .inl ⟨ends, final⟩⟩

end Leads

namespace Breaks

theorem append (before : watch.Breaks done pre first middle away)
    (behind : watch.Breaks done middle second post away) (free : .label done ∉ second) :
    watch.Breaks done pre (first ++ second) post away := by
  intro state holds visited last walk
  obtain ⟨between, earlier, later, start, finish, rfl⟩ := walk.split
  obtain ⟨passes, ⟨rfl, reached⟩ | ⟨rfl, gone⟩⟩ := before state holds _ _ start
  · obtain ⟨more, final⟩ := behind _ reached _ _ finish
    rw [after_append]
    exact ⟨passes_append.mpr ⟨passes, more⟩, final⟩
  · obtain ⟨rfl, rfl⟩ := finish.of_seeking free
    rw [List.append_nil]
    exact ⟨passes, .inr ⟨rfl, gone⟩⟩

theorem weaken {less more gone : State → Prop} (breaks : watch.Breaks done pre code post away)
    (enough : ∀ state, more state → pre state) (weaker : ∀ state, post state → less state)
    (weaker' : ∀ state, away state → gone state) : watch.Breaks done more code less gone := by
  intro state holds visited last walk
  obtain ⟨passes, final⟩ := breaks state (enough state holds) visited last walk
  exact ⟨passes, final.imp (And.imp_right (weaker _)) (And.imp_right (weaker' _))⟩

theorem jump (steady : watch.Steady) {insn : Insn} {code : UInt8} {dst src : Reg} {imm : Int32}
    (same : insn = .jump code dst src imm done) (exits : insn.exits = [.running, .seeking done])
    (good : ∀ state, pre state → watch.good state insn) :
    watch.Breaks done pre [insn] pre pre := by
  subst same
  intro state holds visited last walk
  cases walk with
  | pass stands _ => exact absurd rfl stands
  | visit possible rest =>
      rw [exits] at possible
      cases rest
      refine ⟨⟨good state holds, trivial⟩, ?_⟩
      rw [after_cons, after_nil, steady.jump]
      rcases List.mem_cons.mp possible with rfl | sought
      · exact .inl ⟨rfl, holds⟩
      · obtain rfl := List.mem_singleton.mp sought
        exact .inr ⟨rfl, holds⟩

theorem close (steady : watch.Steady) (breaks : watch.Breaks done pre code post post) :
    watch.Leads pre (code ++ [.label done]) post := by
  intro state holds visited last walk
  obtain ⟨between, earlier, later, start, finish, rfl⟩ := walk.split
  obtain ⟨passes, ⟨rfl, reached⟩ | ⟨rfl, reached⟩⟩ := breaks state holds _ _ start
  · cases finish with
    | pass stands _ => exact absurd rfl stands
    | visit stays ended =>
        obtain rfl : _ = Flow.running := List.mem_singleton.mp stays
        cases ended
        rw [after_append, after_cons, after_nil, steady.label]
        exact ⟨rfl, passes_append.mpr ⟨passes, steady.bound _ _, trivial⟩, reached⟩
  · cases finish.of_found
    rw [List.append_nil]
    exact ⟨rfl, passes, reached⟩

end Breaks

/-- Two ways that a comparison decides between, and that meet again. -/
theorem Leads.branch (steady : watch.Steady) {hitCode missCode : List Insn} {reg : Reg}
    {imm : Int32} {miss hit : Label} (different : miss ≠ hit)
    (hitFree : ∀ name, .label name ∉ hitCode) (missFree : ∀ name, .label name ∉ missCode)
    (good : ∀ state, pre state → watch.good state (.jumpImm Opcode.jeq reg imm miss))
    (hitLeads : watch.Leads pre hitCode post) (missLeads : watch.Leads pre missCode post) :
    watch.Leads pre (.jumpImm Opcode.jeq reg imm miss ::
      (hitCode ++ (.goto hit :: .label miss :: (missCode ++ [.label hit])))) post := by
  intro state holds visited last walk
  cases walk with
  | pass stands _ => exact absurd rfl stands
  | visit possible rest =>
      have exits : (Insn.jumpImm Opcode.jeq reg imm miss).exits = [.running, .seeking miss] := rfl
      have stays : watch.step state (.jumpImm Opcode.jeq reg imm miss) = state := steady.jump ..
      rw [exits] at possible
      obtain ⟨middle, earlier, later, first, second, rfl⟩ := rest.split
      rw [after_cons, stays, passes_cons, stays]
      rcases List.mem_cons.mp possible with rfl | sought
      · obtain ⟨rfl, passes, reached⟩ := hitLeads state holds _ _ first
        cases second with
        | pass stands _ => exact absurd rfl stands
        | visit left skipped =>
            obtain rfl : _ = Flow.seeking hit := List.mem_singleton.mp left
            rw [← List.cons_append] at skipped
            obtain ⟨_, _, _, passed, found, rfl⟩ := skipped.split
            have absent : .label hit ∉ .label miss :: missCode := by
              rw [List.mem_cons, not_or]
              exact ⟨fun same => different (Insn.label.inj same).symm, missFree hit⟩
            obtain ⟨rfl, rfl⟩ := passed.of_seeking absent
            cases found.of_found
            refine ⟨rfl,
              ⟨good state holds, passes_append.mpr ⟨passes, steady.goto _ _, trivial⟩⟩, ?_⟩
            have gone (state : State) : watch.step state (.goto hit) = state := steady.jump ..
            rw [after_append, List.nil_append, after_cons, gone, after_nil]
            exact reached
      · obtain rfl := List.mem_singleton.mp sought
        obtain ⟨rfl, rfl⟩ := first.of_seeking (hitFree miss)
        cases second with
        | pass _ searched =>
            obtain ⟨_, visited, _, third, fourth, rfl⟩ := searched.of_found.split
            obtain ⟨rfl, passes, reached⟩ := missLeads state holds _ _ third
            cases fourth with
            | pass stands _ => exact absurd rfl stands
            | visit stays ended =>
                obtain rfl : _ = Flow.running := List.mem_singleton.mp stays
                cases ended
                rw [List.nil_append, after_append, after_cons, after_nil,
                  steady.label, passes_append]
                exact ⟨rfl, ⟨good state holds, passes, steady.bound _ _, trivial⟩, reached⟩

namespace Keeps

variable {holds : State → Prop}

theorem append (before : watch.Keeps holds first) (behind : watch.Keeps holds second) :
    watch.Keeps holds (first ++ second) := by
  intro state here flow visited last walk
  obtain ⟨_, earlier, later, start, finish, rfl⟩ := walk.split
  obtain ⟨passes, between⟩ := before state here _ _ _ start
  obtain ⟨more, there⟩ := behind _ between _ _ _ finish
  rw [after_append]
  exact ⟨passes_append.mpr ⟨passes, more⟩, there⟩

theorem of_each (each : ∀ insn ∈ code, ∀ state, holds state →
    watch.good state insn ∧ holds (watch.step state insn)) : watch.Keeps holds code := by
  intro state here flow visited last walk
  have each : ∀ insn ∈ visited, ∀ state, holds state →
      watch.good state insn ∧ holds (watch.step state insn) :=
    fun insn member => each insn (walk.mem_of_mem_visited member)
  clear walk
  induction visited generalizing state with
  | nil => exact ⟨trivial, here⟩
  | cons insn visited ih =>
      obtain ⟨good, next⟩ := each insn List.mem_cons_self state here
      obtain ⟨passes, there⟩ := ih _ next fun other member =>
        each other (List.mem_cons_of_mem _ member)
      exact ⟨⟨good, passes⟩, there⟩

/-- Straight code without labels is carried out as a whole or not at all. -/
theorem of_straight (straight : code.all Insn.straight = true) (free : ∀ name, .label name ∉ code)
    (effect : ∀ state, holds state → watch.Passes state code ∧ holds (watch.after state code)) :
    watch.Keeps holds code := by
  intro state here flow visited last walk
  by_cases running : flow = .running
  · subst running
    obtain ⟨rfl, -⟩ := walk.of_straight straight
    exact effect state here
  · rw [walk.of_passing running free]
    exact ⟨trivial, here⟩

theorem passes_before (keeps : watch.Keeps holds (first ++ second))
    (here : holds state) {flow last : Flow}
    (walk : Walk flow first visited last) : watch.Passes state visited := by
  obtain ⟨later, finish, rest⟩ := Walk.exists_walk last second
  exact (passes_append.mp (keeps state here _ _ _ (walk.append rest)).1).1

end Keeps

end Watch

end TraceProbe
