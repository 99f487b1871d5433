import TraceProbe.Proofs.Emission.Finishing

/-!
# Plans

Most operators leave the storage of their arguments to them.  Only assignments
and struct literals reserve their own storage first and ask for arguments in it.
-/

namespace TraceProbe

/-- A plan that leaves the slots of the arguments open. -/
structure Plan.Passive (plan : Plan) (request : Request) : Prop where
  slot : plan.own.slot = request.slot
  target : plan.own.target = request.target
  free : ∀ asked ∈ plan.args, asked.slot = none

namespace Node

open AtSite

variable {symbols : Symbols} {request : Request} {site finish : Site} {node : Node} {plan : Plan}
  {description : Description}

theorem planned_by (known : OperatorTable.language.lookup node = .ok description)
    (found : Yields (node.planApplication request) site plan finish) :
    Yields (description.operator.plan node request) site plan finish := by
  unfold planApplication at found
  simp only [yields_bind_iff, yields_liftDiagnostic_iff] at found
  obtain ⟨_, _, ⟨looked, rfl⟩, planned, _, found, checked⟩ := found
  rw [known] at looked
  cases looked
  split at checked
  · obtain ⟨rfl, rfl⟩ := yields_pure_iff.mp checked
    exact found
  · exact absurd checked not_yields_throw

theorem length_of_plan (found : Yields (node.planApplication request) site plan finish) :
    plan.args.length = node.args.length := by
  unfold planApplication at found
  simp only [yields_bind_iff] at found
  obtain ⟨_, _, -, planned, _, -, checked⟩ := found
  split at checked
  · rename_i lengths
    obtain ⟨rfl, -⟩ := yields_pure_iff.mp checked
    exact lengths
  · exact absurd checked not_yields_throw

theorem finished_by (known : OperatorTable.language.lookup node = .ok description)
    (found : Yields (node.finishApplication symbols request) site () finish) :
    Yields (description.operator.emit symbols node request) site () finish := by
  unfold finishApplication at found
  simp only [yields_bind_iff, yields_liftDiagnostic_iff] at found
  obtain ⟨_, _, ⟨looked, rfl⟩, found⟩ := found
  rw [known] at looked
  cases looked
  exact found

theorem passive_free (request asked : Request) (slot : asked.slot = request.slot)
    (target : asked.target = request.target) : (Plan.free node asked).Passive request := by
  refine ⟨slot, target, ?_⟩
  intro other member
  rw [List.eq_of_mem_replicate member]

theorem passive_dot (found : Yields (planDot node request) site plan finish) :
    plan.Passive request ∧ finish = site := by
  simp only [planDot, yields_bind_iff, yields_liftExcept_iff] at found
  obtain ⟨base, _, ⟨-, rfl⟩, found⟩ := found
  split at found
  · obtain ⟨rfl, rfl⟩ := yields_pure_iff.mp found
    exact ⟨⟨rfl, rfl, by simp [Request.forMember]⟩, rfl⟩
  · obtain ⟨rfl, rfl⟩ := yields_pure_iff.mp found
    exact ⟨⟨rfl, rfl, by simp [Request.frame]⟩, rfl⟩

theorem passive_subscript (found : Yields (planSubscript node request) site plan finish) :
    plan.Passive request ∧ finish = site := by
  simp only [planSubscript, yields_bind_iff, yields_liftExcept_iff] at found
  obtain ⟨collection, _, ⟨-, rfl⟩, type, _, ⟨-, rfl⟩, found⟩ := found
  split at found
  · obtain ⟨rfl, rfl⟩ := yields_pure_iff.mp found
    exact ⟨⟨rfl, rfl, by simp [Request.frame]⟩, rfl⟩
  · simp only [yields_bind_iff, yields_liftExcept_iff] at found
    obtain ⟨index, _, ⟨-, rfl⟩, found⟩ := found
    split at found
    · obtain ⟨rfl, rfl⟩ := yields_pure_iff.mp found
      exact ⟨⟨rfl, rfl, by simp [Request.frame]⟩, rfl⟩
    · exact absurd found not_yields_throw
  · obtain ⟨rfl, rfl⟩ := yields_pure_iff.mp found
    exact ⟨passive_free request _ rfl rfl, rfl⟩
  · exact absurd found not_yields_throw

/-- Whether an operator reserves storage before its arguments. -/
def reserves (operator : String) : Bool :=
  operator = ":struct" || operator = "="

theorem passive_of_plan {operator : String} {args : List Node} {info : Info}
    (shape : Shape operator args) (other : reserves operator = false)
    (found : Yields ((apply operator args info).planApplication request) site plan finish) :
    plan.Passive request ∧ finish = site := by
  have both {description : Description}
      (known : OperatorTable.language.lookup (apply operator args info) = .ok description)
      (passive : Yields (description.operator.plan (apply operator args info) request) site plan
        finish → plan.Passive request ∧ finish = site) : plan.Passive request ∧ finish = site :=
    passive (planned_by known found)
  have plain {given : Plan} (passive : given.Passive request)
      (planned : Yields (pure given : AtSite Plan) site plan finish) :
      plan.Passive request ∧ finish = site := by
    obtain ⟨rfl, rfl⟩ := yields_pure_iff.mp planned
    exact ⟨passive, rfl⟩
  cases shape with
  | dot named => exact both rfl passive_dot
  | deref pointer => exact both rfl (plain (passive_free request _ rfl rfl))
  | structLiteral _ => cases other
  | subscript collection key => exact both rfl passive_subscript
  | assign value _ => cases other
  | delete _ =>
      exact both rfl (plain ⟨rfl, rfl, by simp [Request.frame, Request.asTarget]⟩)
  | strcmp left right =>
      exact both rfl (plain ⟨rfl, rfl, by simp [Request.frame]⟩)
  | mem source _ => exact both rfl (plain (passive_free request _ rfl rfl))
  | str source _ => exact both rfl (plain (passive_free request _ rfl rfl))

end Node

end TraceProbe
