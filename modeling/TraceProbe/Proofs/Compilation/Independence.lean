import TraceProbe.Proofs.Compilation.Asking
import TraceProbe.Proofs.Typing.Registrations

/-!
# Independence of probes

Probes of a unit share a registry and take turns at it.  What a registry has
been asked before, and what others ask in between, shows in the names of
anonymous structs only.  The names that two runs of one dialogue are answered
are exchanged by a renaming, so both runs end alike.
-/

namespace TraceProbe

namespace Dialogue

variable {α : Type}

/-- A dialogue at a registry that others ask in between. -/
inductive Amid : Dialogue α → Registry → α → Prop
  | done {types : Registry} (result : α) : Amid (done result) types result
  | other {dialogue : Dialogue α} {types : Registry} {result : α} (members : List Ty) :
      Amid dialogue (types.anonymousStruct members).2 result → Amid dialogue types result
  | own {members : List Ty} {next : Ty → Dialogue α} {types : Registry} {result : α} :
      Amid (next (types.anonymousStruct members).1) (types.anonymousStruct members).2 result →
        Amid (ask members next) types result

/-- Dialogues that take turns at one registry, which others ask as well, and
what each of them ends with. -/
inductive Turns : List (Dialogue α) → Registry → List α → Prop
  | done (results : List α) (types : Registry) : Turns (results.map .done) types results
  | other {dialogues : List (Dialogue α)} {types : Registry} {results : List α}
      (members : List Ty) : Turns dialogues (types.anonymousStruct members).2 results →
        Turns dialogues types results
  | turn {before after : List (Dialogue α)} {members : List Ty} {next : Ty → Dialogue α}
      {types : Registry} {results : List α} :
      Turns (before ++ next (types.anonymousStruct members).1 :: after)
        (types.anonymousStruct members).2 results →
        Turns (before ++ ask members next :: after) types results

variable {β : Type} {same : α → β → Prop} {naming : Renaming} {start left right : Dialogue α}
  {types types' : Registry} {result result' : α} {members : List Ty}

section Turns

variable {dialogues : List (Dialogue α)} {results : List α}

theorem Turns.length_eq (turns : Turns dialogues types results) :
    results.length = dialogues.length := by
  induction turns with
  | done results types => exact (List.length_map _).symm
  | other _ _ ih => exact ih
  | turn _ ih =>
      rw [ih, List.length_append, List.length_append]
      rfl

theorem Turns.amid (turns : Turns dialogues types results) {index : Nat}
    (found : dialogues[index]? = some left) (ended : results[index]? = some result) :
    Amid left types result := by
  -- Induction on the turns.
  induction turns generalizing left with
  | done results types =>
      rw [List.getElem?_map, ended] at found
      cases found
      exact .done result
  | other members _ ih => exact .other members (ih found ended)
  | @turn before after members next types results _ ih =>
      by_cases place : index = before.length
      · subst place
        rw [List.getElem?_append_right (Nat.le_refl _), Nat.sub_self] at found
        cases found
        refine .own (ih ?_ ended)
        rw [List.getElem?_append_right (Nat.le_refl _), Nat.sub_self]
        rfl
      · refine .other members (ih ?_ ended)
        rw [← found]
        simp only [List.getElem?_append]
        split
        · rfl
        · obtain ⟨later, same⟩ := Nat.exists_eq_succ_of_ne_zero
            (show index - before.length ≠ 0 by omega)
          rw [same]
          rfl

theorem Turns.run {before after : List (Dialogue α)} (dialogue : Dialogue α)
    (turns : Turns (before ++ .done (dialogue.run types).1 :: after)
      (dialogue.run types).2 results) :
    Turns (before ++ dialogue :: after) types results := by
  induction dialogue generalizing types with
  | done result => exact turns
  | ask members next ih => exact .turn (ih _ turns)

theorem amid_run (dialogue : Dialogue α) (types : Registry) :
    Amid dialogue types (dialogue.run types).1 := by
  induction dialogue generalizing types with
  | done result => exact .done result
  | ask members next ih => exact .own (ih _ _)

end Turns

section Paths

/-- The questions of a dialogue, with the numbers of the structs that it was
answered. -/
inductive Path : Dialogue α → List (List Ty × Nat) → Dialogue α → Prop
  | here (dialogue : Dialogue α) : Path dialogue [] dialogue
  | answered {members : List Ty} {next : Ty → Dialogue α} {number : Nat}
      {asked : List (List Ty × Nat)} {last : Dialogue α} :
      Path (next (Registry.anonymousRecord number members)) asked last →
        Path (ask members next) ((members, number) :: asked) last

theorem Path.more {next : Ty → Dialogue α} {asked : List (List Ty × Nat)} (number : Nat)
    (path : Path start asked (ask members next)) :
    Path start (asked ++ [(members, number)])
      (next (Registry.anonymousRecord number members)) := by
  generalize reached : ask members next = last at path
  induction path with
  | here dialogue =>
      subst reached
      exact .answered (.here _)
  | answered _ ih => exact .answered (ih reached)

/-- Dialogues that are renamed stay so while the names they are answered are
exchanged. -/
theorem Renamed.replay {other : Dialogue β} {last : Dialogue α} {last' : Dialogue β}
    {asked : List ((List Ty × Nat) × (List Ty × Nat))} (renamed : Renamed naming same left other)
    (path : Path left (asked.map Prod.fst) last) (path' : Path other (asked.map Prod.snd) last')
    (names : ∀ entry ∈ asked, naming.names s!":anon_{entry.1.2}" = s!":anon_{entry.2.2}") :
    (∀ entry ∈ asked, entry.2.1 = entry.1.1.map (Ty.rename naming)) ∧
      Renamed naming same last last' := by
  -- Induction on the path; the names answered so far are exchanged.
  induction asked generalizing left other with
  | nil =>
      cases path
      cases path'
      exact ⟨fun _ member => (by cases member), renamed⟩
  | cons entry asked ih =>
      obtain ⟨⟨members, number⟩, members', number'⟩ := entry
      have name := names _ List.mem_cons_self
      cases path with
      | answered path =>
          cases path' with
          | answered path' =>
              cases renamed with
              | ask each =>
                  have next := each (Registry.anonymousRecord number members)
                  rw [Registry.rename_anonymousRecord members name] at next
                  obtain ⟨inner, reached⟩ := ih next path path' fun entry member =>
                    names entry (List.mem_cons_of_mem _ member)
                  refine ⟨?_, reached⟩
                  intro entry member
                  rcases List.mem_cons.mp member with rfl | later
                  · rfl
                  · exact inner entry later

/-- A dialogue on its way, at a registry that knows what it has answered. -/
structure Standing (start : Dialogue α) (asked : List (List Ty × Nat)) (dialogue : Dialogue α)
    (types : Registry) : Prop where
  path : Path start asked dialogue
  listed : types.Listed
  knows : ∀ entry ∈ asked, types.Knows entry.1 entry.2

variable {asked : List (List Ty × Nat)}

theorem Standing.other (standing : Standing start asked left types) (members : List Ty) :
    Standing start asked left (types.anonymousStruct members).2 where
  path := standing.path
  listed := standing.listed.anonymousStruct members
  knows entry member := .later standing.listed (standing.knows entry member) members

theorem Standing.own {next : Ty → Dialogue α}
    (standing : Standing start asked (ask members next) types) :
    ∃ number, Standing start (asked ++ [(members, number)])
      (next (types.anonymousStruct members).1) (types.anonymousStruct members).2 := by
  obtain ⟨number, answer, knows⟩ := standing.listed.answer members
  refine ⟨number, answer ▸ standing.path.more number, standing.listed.anonymousStruct members, ?_⟩
  intro entry member
  rcases List.mem_append.mp member with earlier | last
  · exact (standing.other members).knows entry earlier
  · obtain rfl := List.mem_singleton.mp last
    exact knows

theorem Standing.number_iff (standing : Standing start asked left types)
    {entry other : List Ty × Nat} (member : entry ∈ asked) (member' : other ∈ asked) :
    entry.2 = other.2 ↔ entry.1 = other.1 := by
  have knows := standing.knows entry member
  have knows' := standing.knows other member'
  constructor
  · intro equal
    rw [← equal] at knows'
    exact knows.members_eq knows'
  · intro equal
    rw [← equal] at knows'
    exact knows.number_eq knows'

end Paths

section Runs

theorem Amid.done_eq (amid : Amid (Dialogue.done result') types result) : result = result' := by
  generalize reached : Dialogue.done result' = last at amid
  induction amid with
  | done result =>
      cases reached
      rfl
  | other _ _ ih => exact ih reached
  | own _ => cases reached

/-- Others ask, and then the dialogue does. -/
theorem Amid.ask_inv {next : Ty → Dialogue α} {asked : List (List Ty × Nat)}
    (amid : Amid (ask members next) types result)
    (standing : Standing start asked (ask members next) types) :
    ∃ later : Registry, Standing start asked (ask members next) later ∧
      Amid (next (later.anonymousStruct members).1) (later.anonymousStruct members).2 result := by
  generalize reached : ask members next = last at amid standing
  induction amid with
  | done _ => cases reached
  | other members _ ih => exact ih reached (standing.other members)
  | @own members next types result rest =>
      cases reached
      exact ⟨types, standing, rest⟩

/-- Two runs of one dialogue, up to where they are now, that were answered names
which a renaming exchanges, end alike. -/
theorem Amid.related {same : α → α → Prop}
    (renamed : ∀ naming, Renamed naming same start start) (amid : Amid left types result)
    {asked : List ((List Ty × Nat) × (List Ty × Nat))}
    (standing : Standing start (asked.map Prod.fst) left types)
    (standing' : Standing start (asked.map Prod.snd) right types')
    (amid' : Amid right types' result')
    (names : ∀ entry ∈ asked, naming.names s!":anon_{entry.1.2}" = s!":anon_{entry.2.2}") :
    same result result' := by
  -- Induction on the first run; the second one answers the same questions.
  induction amid generalizing right types' asked naming with
  | done result =>
      obtain ⟨-, reached⟩ := (renamed naming).replay standing.path standing'.path names
      cases reached with
      | done related =>
          rw [amid'.done_eq]
          exact related
  | other members _ ih => exact ih (standing.other members) standing' amid' names
  | @own members next types result _ ih =>
      obtain ⟨questions, reached⟩ := (renamed naming).replay standing.path standing'.path names
      cases reached with
      | ask each =>
          obtain ⟨later, standing', rest'⟩ := amid'.ask_inv standing'
          obtain ⟨number, next⟩ := standing.own
          obtain ⟨number', next'⟩ := standing'.own
          refine @ih (naming.extend number number') _ _ (asked ++
            [((members, number), (members.map (Ty.rename naming), number'))])
            (by rw [List.map_append]; exact next) (by rw [List.map_append]; exact next') rest' ?_
          intro entry member
          rcases List.mem_append.mp member with earlier | last
          · refine naming.names_extend_of_names (names entry earlier) ?_
            -- a number stands for a question, and the questions are renamed
            have here := next.number_iff
              (List.mem_append_left _ (List.mem_map_of_mem earlier))
              (List.mem_append_right _ List.mem_cons_self)
            have there := next'.number_iff
              (List.mem_append_left _ (List.mem_map_of_mem earlier))
              (List.mem_append_right _ List.mem_cons_self)
            rw [here, there, questions entry earlier]
            exact (List.map_injective_iff.mpr Ty.rename_injective).eq_iff.symm
          · obtain rfl := List.mem_singleton.mp last
            exact naming.names_extend number number'

end Runs

/-- A dialogue ends alike at all registries, whatever others ask. -/
theorem Amid.agree {start : Dialogue (Except Fault CompiledProbe)}
    {result result' : Except Fault CompiledProbe}
    (renamed : ∀ naming, Renamed naming (Agrees Eq) start start) (amid : Amid start types result)
    (built : types.Built) (amid' : Amid start types' result') (built' : types'.Built) :
    Agrees Eq result result' := by
  let naming : Renaming := ⟨Equiv.refl _, fun _ _ => rfl⟩
  let asked : List ((List Ty × Nat) × (List Ty × Nat)) := []
  have standing : Standing start (asked.map Prod.fst) start types := {
    path := .here _
    listed := built.listed
    knows := fun _ member => (List.not_mem_nil member).elim }
  have standing' : Standing start (asked.map Prod.snd) start types' := {
    path := .here _
    listed := built'.listed
    knows := fun _ member => (List.not_mem_nil member).elim }
  have names : ∀ entry ∈ asked,
      naming.names s!":anon_{entry.1.2}" = s!":anon_{entry.2.2}" := by
    intro _ member
    exact (List.not_mem_nil member).elim
  exact Amid.related renamed amid standing standing' amid' names

end Dialogue

namespace Probe

variable {options : Options} {types types' : Registry}

/-- Probes that are compiled at one registry and take turns at it in any way,
while others ask it too, and what compilation makes of each. -/
def Together (options : Options) (types : Registry) (probes : List Probe)
    (results : List (Except Fault CompiledProbe)) : Prop :=
  Dialogue.Turns (probes.map (Probe.asking options)) types results

/-- With the probes before done, the next one takes all its turns at once. -/
theorem turns_compileEach (probes : List Probe) (earlier : List (Except Fault CompiledProbe)) :
    Dialogue.Turns (earlier.map .done ++ probes.map (Probe.asking options)) types
      (earlier ++ (compileEach options types probes).map Prod.fst) := by
  induction probes generalizing types earlier with
  | nil =>
      rw [List.map_nil, List.append_nil, compileEach, List.map_nil, List.append_nil]
      exact .done earlier types
  | cons probe probes ih =>
      refine .run (probe.asking options) ?_
      rw [run_asking]
      have rest := @ih (compile options types probe).2
        (earlier ++ [(compile options types probe).1])
      rw [List.map_append, List.append_assoc, List.append_assoc] at rest
      exact rest

theorem together_compileAll (options : Options) (types : Registry) (probes : List Probe) :
    Together options types probes (compileAll options types probes).1 :=
  turns_compileEach probes []

theorem Together.result {probes : List Probe} {results : List (Except Fault CompiledProbe)}
    {index : Nat} {probe : Probe} (together : Together options types probes results)
    (found : probes[index]? = some probe) :
    ∃ result, results[index]? = some result ∧
      Dialogue.Amid (probe.asking options) types result := by
  have same : results.length = probes.length := by
    rw [together.length_eq, List.length_map]
  obtain ⟨inside, -⟩ := List.getElem?_eq_some_iff.mp found
  have ended : results[index]? = some results[index] := List.getElem?_eq_getElem _
  refine ⟨_, ended, together.amid ?_ ended⟩
  rw [List.getElem?_map, found]
  rfl

end Probe

/-- What a probe is compiled to does not depend on the probes that it is compiled
with, nor on what the registry was asked before. -/
theorem compile_independent {options : Options} {probe : Probe} (plain : probe.Plain)
    {types : Registry} (built : types.Built) {probes : List Probe}
    {results : List (Except Fault CompiledProbe)} {index : Nat}
    (together : Probe.Together options types probes results)
    (found : probes[index]? = some probe) :
    ∃ result, results[index]? = some result ∧
      ∀ types' : Registry, types'.Built →
        Agrees Eq result (compile options types' probe).1 ∧
        (∀ (others : List Probe) results' (position : Nat),
          Probe.Together options types' others results' →
          others[position]? = some probe →
            ∃ result', results'[position]? = some result' ∧ Agrees Eq result result') ∧
        ∀ (order : List Probe) (position : Nat), order[position]? = some probe →
          ∃ result', (compileAll options types' order).1[position]? = some result' ∧
            Agrees Eq result result' := by
  obtain ⟨result, ended, amid⟩ := together.result found
  refine ⟨result, ended, ?_⟩
  intro types' built'
  have agree {result' : Except Fault CompiledProbe}
      (amid' : Dialogue.Amid (probe.asking options) types' result') : Agrees Eq result result' :=
    amid.agree (fun _ => plain.asking) built amid' built'
  have history (others : List Probe) (results' : List (Except Fault CompiledProbe))
      (position : Nat) (together' : Probe.Together options types' others results')
      (found' : others[position]? = some probe) :
      ∃ result', results'[position]? = some result' ∧ Agrees Eq result result' := by
    obtain ⟨result', ended', amid'⟩ := together'.result found'
    exact ⟨result', ended', agree amid'⟩
  refine ⟨?_, history, fun order position => history _ _ _ (Probe.together_compileAll ..)⟩
  rw [← Probe.run_asking]
  exact agree (Dialogue.amid_run _ _)

namespace Node

theorem Fresh.plain {node : Node} (fresh : node.Fresh) : node.Plain := by
  intro part inside type typed
  rw [show part.type? = none from (fresh part inside).1] at typed
  cases typed

/-- A statement `map[:struct(1, ..., 1)] = 7`. -/
def keyedBy (map : String) (members : Nat) : Node :=
  apply "=" [apply "[]" [ident map {}, apply ":struct" (.replicate members (num 1 false {})) {}] {},
    num 7 false {}] {}

end Node

/-- The keys of `m` are pairs. -/
def pairedProbe : Probe :=
  { name := "paired", statements := [Node.keyedBy "m" 2] }

/-- The keys of `m` are triples, and those of `n` are pairs. -/
def tripledProbe : Probe :=
  { name := "tripled", statements := [Node.keyedBy "m" 3, Node.keyedBy "n" 2] }

theorem plain_tripledProbe : tripledProbe.Plain := by
  refine ⟨fun statement member => Node.Fresh.plain ?_, fun symbol member => by cases member⟩
  revert statement
  simp [tripledProbe, Node.keyedBy, Node.fresh_apply_iff, Node.fresh_ident_iff,
    Node.fresh_num_iff, List.replicate]

/-- Pairs are called `:anon_0` in one history and `:anon_1` in the other. -/
theorem tripledProbe_independent :
    ∃ result result', (compileAll {} .new [pairedProbe, tripledProbe]).1[1]? = some result ∧
      (compileAll {} .new [tripledProbe, pairedProbe]).1[0]? = some result' ∧
      Agrees Eq result result' ∧ result.isOk = true := by
  obtain ⟨result, ended, alike⟩ := compile_independent plain_tripledProbe .new
    (Probe.together_compileAll {} .new [pairedProbe, tripledProbe])
    (show [pairedProbe, tripledProbe][1]? = some tripledProbe from rfl)
  obtain ⟨-, -, sequential⟩ := alike .new .new
  obtain ⟨result', ended', agree⟩ := sequential [tripledProbe, pairedProbe] 0 rfl
  refine ⟨result, result', ended, ended', agree, ?_⟩
  have succeeds : ((compileAll {} .new [pairedProbe, tripledProbe]).1[1]?.map Except.isOk) =
      some true := by decide +kernel
  rw [ended] at succeeds
  exact Option.some.inj succeeds

end TraceProbe
