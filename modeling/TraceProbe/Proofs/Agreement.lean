import TraceProbe.Proofs.Stream.Steps

/-!
# Agreement

Two computations agree if they end with related values, or both with a fault of
the same kind at the same place.  The texts of diagnostics do not matter.  Two
steps are paired if they agree from every state and leave the same state.
-/

namespace TraceProbe

/-- A diagnostic without its texts: what kind it is and where it points. -/
def Diagnostic.outline : Diagnostic → Diagnostic
  | typeError _ loc => typeError "" loc
  | shapeError _ loc => shapeError "" loc
  | resourceLimit _ loc => resourceLimit "" loc
  | unresolvedType _ loc => unresolvedType "" loc
  | unknownOperator _ loc => unknownOperator "" loc
  | arity _ _ _ loc => arity "" "" 0 loc
  | unsupported _ loc => unsupported "" loc
  | internal _ => internal ""
  | rejectedProgram _ => rejectedProgram ""
  | invalidOptions _ => invalidOptions ""

/-- A fault without its texts. -/
def Fault.outline : Fault → Fault
  | diagnostic cause => .diagnostic cause.outline
  | defect cause => .defect cause

/-- Two results that are related, or two faults that differ in their texts at
most. -/
inductive Agrees {α β : Type} (same : α → β → Prop) : Except Fault α → Except Fault β → Prop
  | ok {value : α} {other : β} : same value other → Agrees same (.ok value) (.ok other)
  | error {fault other : Fault} : fault.outline = other.outline →
      Agrees same (.error fault) (.error other)

section Results

variable {α β γ δ : Type} {same : α → β → Prop} {later : γ → δ → Prop}

theorem Agrees.refl (result : Except Fault α) : Agrees Eq result result := by
  cases result with
  | error fault => exact .error rfl
  | ok value => exact .ok rfl

theorem Agrees.bind {left : Except Fault α} {right : Except Fault β} {next : α → Except Fault γ}
    {next' : β → Except Fault δ} (agree : Agrees same left right)
    (each : ∀ value other, same value other → Agrees later (next value) (next' other)) :
    Agrees later (left >>= next) (right >>= next') := by
  cases agree with
  | ok related => exact each _ _ related
  | error equal => exact .error equal

end Results

/-- Two steps that agree from every state and leave the same state. -/
def Paired {σ α β : Type} (same : α → β → Prop) (left : ExceptT Fault (StateM σ) α)
    (right : ExceptT Fault (StateM σ) β) : Prop :=
  ∀ start, Agrees same (outcome left start).1 (outcome right start).1 ∧
    (outcome left start).2 = (outcome right start).2

namespace Paired

variable {σ α β γ δ : Type} {same : α → β → Prop} {later : γ → δ → Prop}

theorem refl (step : ExceptT Fault (StateM σ) α) : Paired Eq step step := by
  intro _
  exact ⟨.refl _, rfl⟩

theorem pure {value : α} {other : β} (related : same value other) :
    Paired (σ := σ) same (Pure.pure value) (Pure.pure other) := by
  intro _
  exact ⟨.ok related, rfl⟩

theorem throw {fault other : Fault} (equal : fault.outline = other.outline) :
    Paired (σ := σ) same (MonadExcept.throw fault) (MonadExcept.throw other) := by
  intro _
  exact ⟨.error equal, rfl⟩

theorem lift {left : Except Fault α} {right : Except Fault β} (agree : Agrees same left right) :
    Paired (σ := σ) same (liftM left) (liftM right) := by
  intro _
  exact ⟨agree, rfl⟩

theorem bind {left : ExceptT Fault (StateM σ) α} {right : ExceptT Fault (StateM σ) β}
    {next : α → ExceptT Fault (StateM σ) γ} {next' : β → ExceptT Fault (StateM σ) δ}
    (paired : Paired same left right)
    (each : ∀ value other, same value other → Paired later (next value) (next' other)) :
    Paired later (left >>= next) (right >>= next') := by
  intro start
  obtain ⟨agree, equal⟩ := paired start
  rw [outcome_bind, outcome_bind]
  generalize outcome left start = first at agree equal ⊢
  generalize outcome right start = second at agree equal ⊢
  obtain ⟨result, middle⟩ := first
  obtain ⟨result', middle'⟩ := second
  obtain rfl : middle = middle' := equal
  cases agree with
  | ok related => exact each _ _ related middle
  | error outlines => exact ⟨.error outlines, rfl⟩

/-- The usual case: the first steps end with the same value. -/
theorem next {left right : ExceptT Fault (StateM σ) α} {next : α → ExceptT Fault (StateM σ) γ}
    {next' : α → ExceptT Fault (StateM σ) δ} (paired : Paired Eq left right)
    (each : ∀ value, Paired later (next value) (next' value)) :
    Paired later (left >>= next) (right >>= next') :=
  paired.bind fun value _ equal => equal ▸ each value

end Paired

end TraceProbe
