import TraceProbe.Proofs.Compilation.Stages
import TraceProbe.Proofs.Emission.Faultless
import TraceProbe.Proofs.Typing.Faultless
import TraceProbe.Proofs.Typing.Sizes

/-!
# Compilation without defects

Fresh statements are compiled, or there is something to say about them, and
nothing overflows on the way.
-/

namespace TraceProbe

variable {options : Options} {types : Registry} {probe : Probe} {symbols typing : Symbols}
  {statements trees : List Node}

theorem eq_of_asked {request : Request} {index : Nat}
    (found : (statements.map fun _ => ({} : Request))[index]? = some request) : request = {} := by
  rw [List.getElem?_map, Option.map_eq_some_iff] at found
  obtain ⟨_, -, same⟩ := found
  exact same.symm

theorem flawless_emitStatements (small : options.maxStack ≤ 32767)
    (emittable : ∀ tree ∈ trees, Node.Emittable Registry.Literal typing .value tree) :
    Flawless (emitStatements options symbols trees) := by
  refine Flawless.bind ?_ fun _ _ => flawless_ok _
  refine Node.flawless_emitAll (fun tree _ => Node.faultless tree)
    (fun index tree found => emittable tree (List.mem_of_getElem? found))
    (fun _ _ _ target => (by cases target)) ?_
  intro index tree request _ found
  exact .of_free small (Nat.zero_le _) (by rw [eq_of_asked found])

theorem flawless_compileTyped (small : options.maxStack ≤ 32767) (name : String)
    (emittable : ∀ tree ∈ trees, Node.Emittable Registry.Literal typing .value tree) :
    Flawless (compileTyped options name symbols trees) := by
  apply (flawless_emitStatements small emittable).bind
  intro stream _
  apply (flawless_lift _).bind
  intro lowered _
  apply (flawless_lift _).bind
  intro _ _
  apply (flawless_lift _).bind
  intro maps _
  exact flawless_ok _

/-- What inference makes of the statements of a probe, however it ends. -/
def Probe.inference? (options : Options) (types : Registry) (probe : Probe) :
    Option (Typed (List Node)) :=
  match probe.statements.mapM Node.prepare with
  | .error _ => none
  | .ok prepared => some (Node.inferTypes options prepared ⟨probe.symbols, types⟩)

/-- Nothing overflows in the layout of any type that a probe is compiled with: those
of its nodes and symbols, and whatever they are built of. -/
structure Probe.Measured (options : Options) (types : Registry) (probe : Probe) : Prop where
  nodes : ∀ inference ∈ probe.inference? options types, ∀ tree ∈ inference.tree,
    tree.TypedBy fun type => ∀ part, Ty.Component part type → part.Measured
  symbols : ∀ inference ∈ probe.inference? options types,
    inference.scope.symbols.TypedBy fun type => ∀ part, Ty.Component part type → part.Measured

theorem Probe.measured (small : options.maxStack ≤ 32767) (text : options.stringSize < 2 ^ 31)
    (built : types.Built) (declared : probe.symbols.TypedBy (Ty.Below (2 ^ 31)))
    (fresh : ∀ statement ∈ probe.statements, statement.Fresh)
    (literals : ∀ inference ∈ probe.inference? options types, ∀ tree ∈ inference.tree,
      tree.LiteralsBelow (2 ^ 63)) : probe.Measured options types := by
  have within : options.Bounded (2 ^ 63) := ⟨by decide, by omega, by omega⟩
  have around : (Scope.mk probe.symbols types).Bounded (2 ^ 63) :=
    ⟨fun name type known => (declared name type known).mono (by decide), built.honest⟩
  have bounded (inference : Typed (List Node))
      (member : inference ∈ probe.inference? options types) :
      Node.BoundedAll (2 ^ 63) inference := by
    have literals := literals inference member
    unfold Probe.inference? at member
    split at member
    · cases member
    · rename_i prepared prepares
      cases member
      refine Node.bounded_inferTypes within ?_ around literals
      intro tree among part inside type known
      obtain ⟨fresh, -⟩ := Node.prepare_all_ok prepares fresh tree among
      cases (fresh part inside).1.symm.trans known
  refine ⟨?_, ?_⟩
  · intro inference member tree among part inside type known
    exact fun component within =>
      (((bounded inference member).trees tree among part inside type known).component
          within).measured
  · intro inference member name type known
    exact fun component within =>
      (((bounded inference member).scope.symbols name type known).component within).measured

/-- Compilation of fresh statements ends with a program or a diagnostic, and what it
computes on the way fits the machine: for declared types and strings below 2^31
bytes, frame offsets that fit their field, a host that keeps away from the names
of anonymous structs, and literals of less than 2^63 bytes. -/
theorem compile_flawless (small : options.maxStack ≤ 32767) (text : options.stringSize < 2 ^ 31)
    (built : types.Built) (declared : probe.symbols.TypedBy (Ty.Below (2 ^ 31)))
    (fresh : ∀ statement ∈ probe.statements, statement.Fresh)
    (literals : ∀ inference ∈ probe.inference? options types, ∀ tree ∈ inference.tree,
      tree.LiteralsBelow (2 ^ 63)) :
    Flawless (compile options types probe).1 ∧ probe.Measured options types := by
  refine ⟨?_, Probe.measured small text built declared fresh literals⟩
  unfold compile
  cases prepares : probe.statements.mapM Node.prepare with
  | error fault =>
      have actionable := faults_mapM fun statement (_ : statement ∈ probe.statements) =>
        statement.actionable_prepare
      rw [prepares] at actionable
      exact actionable.passed_on.flawless
  | ok prepared =>
      have shaped := Node.prepare_all_ok prepares fresh
      have typed := Node.flawless_inferTypes options (fun tree member => (shaped tree member).2)
        ⟨probe.symbols, types⟩
      dsimp only
      rcases inferred : Node.inferTypes options prepared ⟨probe.symbols, types⟩ with
        ⟨trees, finish, outcome⟩
      rw [inferred] at typed
      cases outcome with
      | error fault => exact typed.passed_on
      | ok _ =>
          exact flawless_compileTyped small _
            (Node.emittable_of_inferTypes Registry.gives_literal built.honest
              fresh prepares inferred)

/-- `m[1] = :struct(:struct(x, y))`, where `x` has 32768 bytes and `y` has one. -/
def nestedProbe : Probe where
  name := "nested"
  statements := [.apply "=" [.apply "[]" [.ident "m" {}, .num 1 false {}] {},
    .apply ":struct" [.apply ":struct" [.ident "x" {}, .ident "y" {}] {}] {}] {}]
  symbols :=
    ((Symbols.declareContext {} "x" (.array (.scalar .u8) 32768) 0).2.declareContext
        "y" (.scalar .u8) 0).2

theorem nestedProbe_declared : nestedProbe.symbols.TypedBy (Ty.Below (2 ^ 31)) := by
  have byte : (Ty.scalar .u8).Below (2 ^ 31) := Ty.below_scalar (by decide) .u8
  have bytes : (Ty.array (.scalar .u8) 32768).Below (2 ^ 31) := Ty.below_array byte (by decide)
  refine Symbols.typedBy_of_entries ?_
  intro symbol member type typed
  rw [show nestedProbe.symbols.entries = [⟨"x", some (.array (.scalar .u8) 32768), .context 0⟩,
    ⟨"y", some (.scalar .u8), .context 0⟩] from rfl] at member
  simp only [List.mem_cons, List.not_mem_nil, or_false] at member
  rcases member with rfl | rfl <;> cases typed
  · exact bytes
  · exact byte

theorem nestedProbe_flawless :
    Flawless (compile {} .new nestedProbe).1 ∧ nestedProbe.Measured {} .new := by
  have fresh : ∀ statement ∈ nestedProbe.statements, statement.Fresh := by
    simp [nestedProbe, Node.fresh_apply_iff, Node.fresh_ident_iff, Node.fresh_num_iff]
  exact compile_flawless (by decide) (by decide) .new nestedProbe_declared fresh
    (by decide +kernel)

/-- The outer struct is taken for one of the host that has a single byte, and there
is no room in it for the inner one. -/
theorem nestedProbe_namesake :
    ((compile {} (Registry.new.add (.record ⟨":anon_1", [⟨"f0", .scalar .u8⟩], false, false⟩)).2
      nestedProbe).1.map fun _ => ()) = .error (.defect .frameOffset) := by
  decide +kernel

end TraceProbe
