import TraceProbe.Emission.Leaves
import TraceProbe.Emission.Maps
import TraceProbe.Emission.Records
import TraceProbe.Emission.Strings

/-!
# Emission of trees

Each operator plans the storage of its arguments, the arguments are emitted
from left to right, and then the operator itself.  Nodes keep the storage they
were given, also when emission ends early.
-/

namespace TraceProbe

namespace Operator

/-- What an operator does before its arguments. -/
def plan (operator : Operator) (node : Node) (request : Request) : AtSite Plan :=
  match operator with
  | dot => AtSite.planDot node request
  | structLiteral => AtSite.planStructLiteral node request
  | subscript => AtSite.planSubscript node request
  | assign => AtSite.planAssign node request
  | delete => return ⟨request, [Request.frame.asTarget]⟩
  | strcmp => return ⟨request, [.frame, .frame]⟩
  | deref | mem | str => return .free node request.onFrame
  | arrow => return .free node request

/-- What an operator does after its arguments. -/
def emit (operator : Operator) (symbols : Symbols) (node : Node) (request : Request) :
    AtSite Unit :=
  match operator with
  | dot => AtSite.emitDot node request
  | deref => AtSite.emitDeref node request
  | structLiteral => AtSite.emitStructLiteral node
  | subscript => AtSite.emitSubscript symbols node request
  | assign => AtSite.emitAssign symbols node
  | delete => AtSite.emitDelete symbols node
  | strcmp => AtSite.emitStrcmp node request
  | mem => AtSite.emitMem node request
  | str => AtSite.emitStr node request
  | arrow => return ()

end Operator

/-- What the emission of a tree leaves behind. -/
structure Emitted (α : Type) where
  tree : α
  stream : Stream
  outcome : Outcome

namespace Node

/-- Runs a step at a node: the node gets the storage that the step leaves. -/
def runAt {α : Type} (node : Node) (stream : Stream) (step : AtSite α) :
    Except Fault α × Node × Stream :=
  let (result, site) := step.run.run ⟨stream, node.storage⟩
  (result, node.withStorage site.own, site.stream)

/-- Emits one step at a node that has no result of its own. -/
def emitAt (node : Node) (stream : Stream) (step : AtSite Unit) : Emitted Node :=
  let (outcome, node, stream) := node.runAt stream step
  ⟨node, stream, outcome⟩

/-- The storage that an application plans for itself and its arguments. -/
def planApplication (node : Node) (request : Request) : AtSite Plan := do
  let description ← OperatorTable.language.lookup node
  let plan ← description.operator.plan node request
  if plan.args.length = node.args.length then return plan
  else
    throw (.internal
      s!"`{node.text}`: {plan.args.length} storage requests for {node.args.length} arguments")

/-- The code of an application whose arguments are emitted. -/
def finishApplication (symbols : Symbols) (node : Node) (request : Request) : AtSite Unit := do
  let description ← OperatorTable.language.lookup node
  description.operator.emit symbols node request

mutual

/-- Emits a tree with the storage that its parent asks for. -/
def emit (symbols : Symbols) : Node → Request → Stream → Emitted Node
  | apply operator args info, request, stream =>
      let (planned, node, stream) :=
        (apply operator args info).runAt stream
          ((apply operator args info).planApplication request)
      match planned with
      | .error fault => ⟨node, stream, .error fault⟩
      | .ok plan =>
          let inner := emitAll symbols args plan.args stream
          let node := node.withArguments inner.tree
          match inner.outcome with
          | .error fault => ⟨node, inner.stream, .error fault⟩
          | .ok () => node.emitAt inner.stream (node.finishApplication symbols plan.own)
  | ident name info, request, stream =>
      (ident name info).emitAt stream (AtSite.leaf symbols (ident name info) request)
  | str value info, request, stream =>
      (str value info).emitAt stream (AtSite.leaf symbols (str value info) request)
  | num value unsigned info, request, stream =>
      (num value unsigned info).emitAt stream
        (AtSite.leaf symbols (num value unsigned info) request)
termination_by structural node => node

/-- Emits several trees, each with its own request, up to the first that
fails. -/
def emitAll (symbols : Symbols) :
    List Node → List Request → Stream → Emitted (List Node)
  | node :: nodes, request :: requests, stream =>
      let first := emit symbols node request stream
      match first.outcome with
      | .error fault => ⟨first.tree :: nodes, first.stream, .error fault⟩
      | .ok () =>
          let others := emitAll symbols nodes requests first.stream
          ⟨first.tree :: others.tree, others.stream, others.outcome⟩
  | nodes, _, stream => ⟨nodes, stream, .ok ()⟩
termination_by structural nodes => nodes

end

end Node

end TraceProbe
