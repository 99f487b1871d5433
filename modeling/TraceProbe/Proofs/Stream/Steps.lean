import TraceProbe.Proofs.Results
import TraceProbe.Stream.Basic

/-!
# Outcomes of steps

Steps on a stream and steps at an operator both change a state and may end with
a fault.  What a step does is read off its outcome, and a sequence of steps
yields a value exactly when each of them does.
-/

namespace TraceProbe

/-- What a step does to a state. -/
def outcome {σ α : Type} (step : ExceptT Fault (StateM σ) α) (start : σ) :
    Except Fault α × σ :=
  step.run.run start

/-- The step ends without a fault, with a value and a state. -/
def Yields {σ α : Type} (step : ExceptT Fault (StateM σ) α) (start : σ) (value : α)
    (finish : σ) : Prop :=
  outcome step start = (.ok value, finish)

section Outcomes

variable {σ α β : Type}

@[simp] theorem outcome_pure (value : α) (start : σ) :
    outcome (pure value) start = (.ok value, start) :=
  rfl

@[simp] theorem outcome_throw (fault : Fault) (start : σ) :
    outcome (throw fault : ExceptT Fault (StateM σ) α) start = (.error fault, start) :=
  rfl

@[simp] theorem outcome_get (start : σ) :
    outcome (get : ExceptT Fault (StateM σ) σ) start = (.ok start, start) :=
  rfl

@[simp] theorem outcome_set (start finish : σ) :
    outcome (set finish : ExceptT Fault (StateM σ) PUnit) start = (.ok ⟨⟩, finish) :=
  rfl

@[simp] theorem outcome_modify (change : σ → σ) (start : σ) :
    outcome (modify change : ExceptT Fault (StateM σ) PUnit) start = (.ok ⟨⟩, change start) :=
  rfl

theorem outcome_bind (step : ExceptT Fault (StateM σ) α) (next : α → ExceptT Fault (StateM σ) β)
    (start : σ) :
    outcome (step >>= next) start =
      match outcome step start with
      | (.ok value, middle) => outcome (next value) middle
      | (.error fault, middle) => (.error fault, middle) := by
  rcases found : outcome step start with ⟨result, middle⟩
  have here : (step.run.run start : Except Fault α × σ) = (result, middle) := found
  simp only [outcome, ExceptT.run_bind, StateT.run_bind]
  cases result <;> simp [here] <;> rfl

theorem outcome_getThe (start : σ) :
    outcome (getThe σ : ExceptT Fault (StateM σ) σ) start = (.ok start, start) :=
  rfl

theorem outcome_modifyThe (start : σ) (change : σ → σ) :
    outcome (modifyThe σ change : ExceptT Fault (StateM σ) PUnit) start = (.ok ⟨⟩, change start) :=
  rfl

theorem outcome_bind_pure (step : ExceptT Fault (StateM σ) α) (change : α → β) (start : σ) :
    outcome (step >>= fun value => pure (change value)) start =
      ((outcome step start).1.map change, (outcome step start).2) := by
  rw [outcome_bind]
  rcases outcome step start with ⟨fault | value, finish⟩ <;> rfl

theorem yields_bind_iff {step : ExceptT Fault (StateM σ) α}
    {next : α → ExceptT Fault (StateM σ) β} {start finish : σ} {result : β} :
    Yields (step >>= next) start result finish ↔
      ∃ value middle, Yields step start value middle ∧
        Yields (next value) middle result finish := by
  unfold Yields
  rw [outcome_bind]
  constructor
  · intro found
    split at found
    · rename_i value middle here
      exact ⟨value, middle, here, found⟩
    · cases found
  · rintro ⟨value, middle, here, later⟩
    rw [here]
    exact later

@[simp] theorem yields_pure_iff {value result : α} {start finish : σ} :
    Yields (pure value) start result finish ↔ value = result ∧ start = finish := by
  simp [Yields]

@[simp] theorem not_yields_throw {fault : Fault} {start finish : σ} {result : α} :
    ¬ Yields (throw fault) start result finish := by
  simp [Yields]

@[simp] theorem yields_get_iff {start finish result : σ} :
    Yields (get : ExceptT Fault (StateM σ) σ) start result finish ↔
      start = result ∧ start = finish := by
  simp [Yields]

@[simp] theorem yields_getThe_iff {start finish result : σ} :
    Yields (getThe σ : ExceptT Fault (StateM σ) σ) start result finish ↔
      start = result ∧ start = finish :=
  yields_get_iff

@[simp] theorem yields_modify_iff {start finish : σ} {change : σ → σ} {result : PUnit} :
    Yields (modify change : ExceptT Fault (StateM σ) PUnit) start result finish ↔
      change start = finish := by
  simp [Yields]

@[simp] theorem yields_modifyThe_iff {start finish : σ} {change : σ → σ} {result : PUnit} :
    Yields (modifyThe σ change : ExceptT Fault (StateM σ) PUnit) start result finish ↔
      change start = finish :=
  yields_modify_iff

@[simp] theorem yields_liftExcept_iff {given : Except Fault α} {start finish : σ} {result : α} :
    Yields (liftM given : ExceptT Fault (StateM σ) α) start result finish ↔
      given = .ok result ∧ start = finish := by
  have lifted : outcome (liftM given : ExceptT Fault (StateM σ) α) start = (given, start) := rfl
  simp [Yields, lifted]

end Outcomes

namespace Emit

@[simp] theorem outcome_code (insns : List Insn) (stream : Stream) :
    outcome (code insns) stream = (.ok (), stream.append insns) :=
  rfl

@[simp] theorem outcome_freshLabel (stream : Stream) :
    outcome freshLabel stream =
      (.ok ⟨stream.labels.size⟩, { stream with labels := stream.labels.push false }) :=
  rfl

@[simp] theorem outcome_freshReg (stream : Stream) :
    outcome freshReg stream =
      (.ok (.virtual stream.nextReg), { stream with nextReg := stream.nextReg + 1 }) :=
  rfl

/-- The stream once a label is bound at its end. -/
def bound (stream : Stream) (label : Label) : Stream :=
  { stream with
    labels := stream.labels.setIfInBounds label.index true
    insns := stream.insns.push (.label label) }

theorem outcome_bind_of_free {stream : Stream} {label : Label}
    (free : stream.labels[label.index]? = some false) :
    outcome (bind label) stream = (.ok (), bound stream label) := by
  simp only [bind, outcome_bind, outcome_get, free, outcome_set]
  rfl

theorem outcome_bind_of_not_free {stream : Stream} {label : Label}
    (taken : stream.labels[label.index]? ≠ some false) :
    ∃ fault, outcome (bind label) stream = (.error fault, stream) := by
  simp only [bind, outcome_bind, outcome_get]
  split
  · rename_i free
    exact absurd free taken
  · exact ⟨_, rfl⟩
  · exact ⟨_, rfl⟩

theorem exists_slotOffset? {used : Nat} (small : used ≤ 32767) :
    ∃ offset, slotOffset? used = some offset := by
  have narrow : (Int16.ofNat used).toInt = used := Int16.toInt_ofNat_of_lt (by omega)
  refine ⟨_, if_neg ?_⟩
  intro same
  have least : (Int16.minValue).toInt = -32768 := rfl
  rw [same] at narrow
  omega

theorem outcome_freshSlot (size alignment : Nat) (stream : Stream) :
    ∃ result used, outcome (freshSlot size alignment) stream =
      (result, { stream with used := used }) := by
  simp only [freshSlot, outcome_bind, outcome_get]
  split
  · exact ⟨_, stream.used, rfl⟩
  · cases found : slotOffset? (frameEnd stream.used size alignment) with
    | none => exact ⟨_, _, rfl⟩
    | some offset => exact ⟨_, _, rfl⟩

section Yields

variable {stream finish : Stream}

@[simp] theorem yields_code_iff {insns : List Insn} {result : Unit} :
    Yields (code insns) stream result finish ↔ stream.append insns = finish := by
  simp [Yields]

@[simp] theorem yields_insn_iff {added : Insn} {result : Unit} :
    Yields (insn added) stream result finish ↔ stream.append [added] = finish :=
  yields_code_iff

@[simp] theorem yields_freshLabel_iff {result : Label} :
    Yields freshLabel stream result finish ↔
      ⟨stream.labels.size⟩ = result ∧
        { stream with labels := stream.labels.push false } = finish := by
  simp [Yields]

@[simp] theorem yields_freshReg_iff {result : Reg} :
    Yields freshReg stream result finish ↔
      .virtual stream.nextReg = result ∧
        { stream with nextReg := stream.nextReg + 1 } = finish := by
  simp [Yields]

theorem yields_bind_label_iff {label : Label} {result : Unit} :
    Yields (bind label) stream result finish ↔
      stream.labels[label.index]? = some false ∧ bound stream label = finish := by
  by_cases free : stream.labels[label.index]? = some false
  · simp [Yields, outcome_bind_of_free free, free]
  · obtain ⟨fault, same⟩ := outcome_bind_of_not_free free
    simp [Yields, same, free]

@[simp] theorem not_yields_inconsistent {α : Type} {description : String} {result : α} :
    ¬ Yields (inconsistent description) stream result finish :=
  not_yields_throw

/-- A slot that is handed out ends the frame in use. -/
theorem yields_freshSlot_iff {size alignment : Nat} {offset : Int16} :
    Yields (freshSlot size alignment) stream offset finish ↔
      frameEnd stream.used size alignment ≤ stream.limit ∧
        slotOffset? (frameEnd stream.used size alignment) = some offset ∧
          { stream with used := frameEnd stream.used size alignment } = finish := by
  unfold Yields
  simp only [freshSlot, outcome_bind, outcome_get]
  rcases Nat.lt_or_ge stream.limit (frameEnd stream.used size alignment) with full | fits
  · rw [if_pos full]
    simp [Nat.not_le.mpr full]
  · rw [if_neg (Nat.not_lt.mpr fits)]
    cases known : slotOffset? (frameEnd stream.used size alignment) with
    | none => simp [outcome_bind]
    | some place =>
        simp only [outcome_bind, outcome_set, outcome_pure, Prod.mk.injEq, Except.ok.injEq,
          Option.some.injEq]
        exact ⟨fun both => ⟨fits, both⟩, fun all => all.2⟩

end Yields

end Emit

end TraceProbe
