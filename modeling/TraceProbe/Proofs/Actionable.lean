import TraceProbe.Proofs.Stream.Steps
import TraceProbe.Typing.Basic
import TraceProbe.Validation

/-!
# Faults that can be acted on

A diagnostic that blames the input and points at it is one that a user can act
on.  Steps of a compilation are told apart by the faults that they may end with;
a sequence ends with a fault of one of its steps.
-/

namespace TraceProbe

/-- A diagnostic that blames the input and points at it. -/
structure Diagnostic.Actionable (cause : Diagnostic) : Prop where
  recoverable : cause.severity = .recoverable
  located : cause.loc?.isSome = true

/-- A diagnostic that a user can act on. -/
def Fault.Actionable (fault : Fault) : Prop :=
  ∃ cause : Diagnostic, fault = .diagnostic cause ∧ cause.Actionable

/-- No diagnostic but those that a user can act on. -/
def Fault.Tolerable (fault : Fault) : Prop :=
  ∀ cause, fault = .diagnostic cause → cause.Actionable

/-- The result is a value or a fault of some kind. -/
def Faults (good : Fault → Prop) {α : Type} (result : Except Fault α) : Prop :=
  ∀ fault, result = .error fault → good fault

/-- The step ends with a tolerable fault, or as it is said. -/
structure Leads {σ α : Type} (post : α → σ → Prop) (step : ExceptT Fault (StateM σ) α) (start : σ) :
    Prop where
  faults : Faults Fault.Tolerable (outcome step start).1
  reaches : ∀ value finish, Yields step start value finish → post value finish

section Causes

variable (description : String) (loc : Loc)

theorem actionable_typeError : (Fault.typeError loc description).Actionable :=
  ⟨_, rfl, rfl, rfl⟩

theorem actionable_shapeError : (Fault.shapeError loc description).Actionable :=
  ⟨_, rfl, rfl, rfl⟩

theorem actionable_unsupported : (Fault.unsupported loc description).Actionable :=
  ⟨_, rfl, rfl, rfl⟩

theorem Fault.Actionable.tolerable {fault : Fault} (actionable : fault.Actionable) :
    fault.Tolerable := by
  obtain ⟨cause, rfl, actionable⟩ := actionable
  intro other same
  cases same
  exact actionable

theorem tolerable_defect (cause : Defect) : (Fault.defect cause).Tolerable := by
  intro _ same
  cases same

end Causes

section Results

variable {good : Fault → Prop} {α β : Type}

theorem faults_ok (value : α) : Faults good (.ok value) := by
  intro _ same
  cases same

theorem faults_error {fault : Fault} (holds : good fault) :
    Faults good (.error fault : Except Fault α) := by
  intro other same
  cases same
  exact holds

theorem Faults.passed_on {fault : Fault} (faults : Faults good (.error fault : Except Fault α)) :
    Faults good (.error fault : Except Fault β) :=
  faults_error (faults fault rfl)

theorem Faults.bind {step : Except Fault α} {next : α → Except Fault β} (faults : Faults good step)
    (each : ∀ value, step = .ok value → Faults good (next value)) :
    Faults good (step >>= next) := by
  cases step with
  | error fault => exact faults.passed_on
  | ok value => exact each value rfl

theorem faults_lift {given : Except Diagnostic α}
    (each : ∀ cause, given = .error cause → good (.diagnostic cause)) :
    Faults good (liftM given : Except Fault α) := by
  cases given with
  | error cause => exact faults_error (each cause rfl)
  | ok value => exact faults_ok value

theorem faults_mapM {f : α → Except Fault β} {items : List α}
    (each : ∀ item ∈ items, Faults good (f item)) : Faults good (items.mapM f) := by
  induction items with
  | nil => exact faults_ok []
  | cons item items ih =>
      rw [List.mapM_cons]
      refine (each item List.mem_cons_self).bind ?_
      intro first _
      exact (ih fun other member => each other (List.mem_cons_of_mem _ member)).bind
        fun others _ => faults_ok _

end Results

namespace Node

variable {good : Fault → Prop}

theorem faults_knownType {node : Node} {type : Ty} (typed : node.type? = some type) :
    Faults good node.knownType := by
  unfold knownType
  rw [typed]
  exact faults_ok _

theorem faults_argument {node : Node} {index : Nat} (there : index < node.args.length) :
    Faults good (node.argument index) := by
  unfold argument
  rw [List.getElem?_eq_getElem there]
  exact faults_ok _

theorem actionable_memberName (node : Node) : Faults Fault.Actionable node.memberName := by
  unfold memberName
  split
  · exact faults_ok _
  · exact faults_error (actionable_shapeError _ _)

end Node

section Steps

variable {σ α β : Type} {start : σ} {post : α → σ → Prop}

theorem leads_of_yields {step : ExceptT Fault (StateM σ) α} {value : α} {finish : σ}
    (found : Yields step start value finish) (holds : post value finish) :
    Leads post step start := by
  have same : outcome step start = (.ok value, finish) := found
  refine ⟨same ▸ faults_ok value, ?_⟩
  intro other last also
  cases same.symm.trans also
  exact holds

theorem leads_pure {value : α} (holds : post value start) : Leads post (pure value) start :=
  leads_of_yields (yields_pure_iff.mpr ⟨rfl, rfl⟩) holds

theorem leads_throw {fault : Fault} (tolerable : fault.Tolerable) :
    Leads post (throw fault) start := by
  constructor
  · exact faults_error tolerable
  · intro value finish found
    exact absurd found not_yields_throw

theorem leads_liftExcept {given : Except Fault α} (faults : Faults Fault.Tolerable given)
    (each : ∀ value, given = .ok value → post value start) :
    Leads post (liftM given : ExceptT Fault (StateM σ) α) start := by
  refine ⟨faults, ?_⟩
  intro value finish found
  obtain ⟨same, rfl⟩ := yields_liftExcept_iff.mp found
  exact each value same

theorem Leads.mono {weaker : α → σ → Prop} {step : ExceptT Fault (StateM σ) α}
    (leads : Leads post step start)
    (weakens : ∀ value finish, post value finish → weaker value finish) :
    Leads weaker step start := by
  constructor
  · exact leads.faults
  · intro value finish found
    exact weakens value finish (leads.reaches value finish found)

theorem Leads.bind {last : β → σ → Prop} {step : ExceptT Fault (StateM σ) α}
    {next : α → ExceptT Fault (StateM σ) β} (leads : Leads post step start)
    (each : ∀ value middle, post value middle → Leads last (next value) middle) :
    Leads last (step >>= next) start := by
  constructor
  · have faults := leads.faults
    have reaches := leads.reaches
    rw [outcome_bind]
    rcases found : outcome step start with ⟨result, middle⟩
    rw [found] at faults
    cases result with
    | error fault => exact faults.passed_on
    | ok value => exact (each value middle (reaches value middle found)).faults
  · intro result finish found
    obtain ⟨value, middle, first, second⟩ := yields_bind_iff.mp found
    exact (each value middle (leads.reaches value middle first)).reaches result finish second

theorem leads_throw_bind {fault : Fault} {next : β → ExceptT Fault (StateM σ) α}
    (tolerable : fault.Tolerable) : Leads post (throw fault >>= next) start := by
  have thrown : Leads (fun _ _ => False) (throw fault : ExceptT Fault (StateM σ) β) start :=
    leads_throw tolerable
  apply thrown.bind
  intro value finish none
  exact none.elim

theorem Leads.bind_known {given : Except Fault α} {value : α} {last : β → σ → Prop}
    {next : α → ExceptT Fault (StateM σ) β} (known : given = .ok value)
    (rest : Leads last (next value) start) :
    Leads last ((liftM given : ExceptT Fault (StateM σ) α) >>= next) start := by
  subst known
  exact rest

end Steps

end TraceProbe
