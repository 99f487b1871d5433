import TraceProbe.Proofs.Compilation.Undisturbed
import TraceProbe.Proofs.Emission.Literals

/-!
# Struct literals of typed probes

Inference leaves struct literals whose emission lays them out byte for byte, if
the registry gave each the struct of its arguments.
-/

namespace TraceProbe.Node

open Symbolic

variable {symbols : Symbols} {request : Request} {stream finish : Stream} {tree : Node}

/-- Every struct literal of typed statements is the struct of its arguments if the
registry was built by registering types. -/
theorem literal_of_passes {options : Options} {statements prepared trees args : List Node}
    {scope after : Scope} {count : Nat} {root : Node} {info : Info} {members : List Ty} {type : Ty}
    (registry : scope.types.Built) (fresh : ∀ statement ∈ statements, statement.Fresh)
    (prepares : statements.mapM prepare = .ok prepared)
    (passed : passes options count prepared scope = ⟨trees, after, .ok ()⟩)
    (complete : ∀ tree ∈ trees, tree.Complete) (member : root ∈ trees)
    (part : PartOf (apply ":struct" args info) root) (known : valueTypes? args = some members)
    (typed : info.type = some type) : Registry.Literal members type := by
  have emittable :=
    emittable_of_passes Registry.gives_literal registry.honest fresh prepares passed complete
  obtain ⟨role, emittable⟩ := (emittable root member).part part
  obtain ⟨_, typed', rule⟩ := emittable.rule_structLiteral
  obtain ⟨_, known', literal⟩ := rule.members rfl
  cases typed.symm.trans typed'
  cases known.symm.trans known'
  exact literal

/-- `m[:struct(strcmp(str(p), "ab"), :struct(1, "x"))] = 3`, for a context variable `p`. -/
def nestedKey : List Node :=
  [apply "="
    [apply "[]" [ident "m" {}, apply ":struct" [
        apply "strcmp" [apply "str" [ident "p" {}] {}, str "ab" {}] {},
        apply ":struct" [num 1 false {}, str "x" {}] {}] {}] {},
      num 3 false {}] {}]

/-- The statement, once it is typed. -/
def nestedTyped : Node :=
  (passes {} 2 nestedKey pointerScope).tree.head?.getD default

/-- The key of the statement. -/
def nestedLiteral : Node :=
  (nestedTyped.args.head?.getD default).args.getLastD default

/-- A stream with room for the key. -/
def roomy : Stream :=
  { Stream.new 512 with used := 24 }

/-- The emission of the key into the bytes in use. -/
def nestedEmission : Emitted Node :=
  emit (passes {} 2 nestedKey pointerScope).scope.symbols nestedLiteral (Request.inSlot (-24)) roomy

end TraceProbe.Node
