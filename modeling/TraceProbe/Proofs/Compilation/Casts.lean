import TraceProbe.Proofs.Compilation.Faultless
import TraceProbe.Proofs.Emission.Casts

/-!
# Narrowed numbers of compiled probes

Compilation wraps what does not fit.  With a small frame and a registry that
gives struct literals the structs of their arguments, everything fits but the
offset of a member behind a pointer, which nothing bounds.
-/

namespace TraceProbe

open Node

/-- An emission inside that of the statements of a probe. -/
def Emission.OccursIn (emission : Emission) (symbols : Symbols) (limit : Nat)
    (statements : List Node) : Prop :=
  emission.Occurs symbols statements (statements.map fun _ => {})
      ((Stream.new limit).append prologue)

/-- Every node of a compiled probe is emitted, and what its emission narrows has the
value of its field wrapped round.  It has its own value exactly if that is in the
range of the field: with a small frame that goes for all slots, parts of values in
the frame, elements and reads, and for the members behind pointers whose offset is
below 2^31. -/
theorem compile_casts {options : Options} {types : Registry} {probe : Probe}
    {compiled : CompiledProbe} (fresh : ∀ statement ∈ probe.statements, statement.Fresh)
    (found : (compile options types probe).1 = .ok compiled) :
    ∃ prepared trees scope, probe.statements.mapM prepare = .ok prepared ∧
      inferTypes options prepared ⟨probe.symbols, types⟩ = ⟨trees, scope, .ok ()⟩ ∧
      (∀ root ∈ trees, ∀ part, PartOf part root →
        ∃ emission : Emission, emission.node = part ∧
        emission.OccursIn scope.symbols options.maxStack trees) ∧
      ∀ emission : Emission, emission.OccursIn scope.symbols options.maxStack trees →
        emission.finish.code <+: compiled.listing ∧ emission.stream.limit = options.maxStack ∧
          emission.Casts (options.maxStack ≤ 32767 ∧ types.Built) := by
  obtain ⟨prepared, trees, scope, prepares, typed, completed⟩ := compile_ok found
  obtain ⟨stream, emitted, -, -, -, listing, -⟩ := compileTyped_ok completed
  obtain ⟨stored, finish, emits, rfl⟩ := emitStatements_ok emitted
  have emittable :=
    emittable_of_inferTypes (Registry.gives_literalIf (options.maxStack ≤ 32767 ∧ types.Built))
    (fun sure => sure.2.honest) fresh prepares typed
  have ongoing : Ongoing (options.maxStack ≤ 32767 ∧ types.Built) scope.symbols
      scope.symbols (fun _ => .value)
      trees (trees.map fun _ => {}) ((Stream.new options.maxStack).append prologue) stored
          finish := by
    refine ⟨emits, fun index tree here => emittable tree (List.mem_of_getElem? here),
      fun _ _ _ target => (by cases target), ?_⟩
    intro sure index tree request _ there
    rw [eq_of_asked there]
    exact .of_free sure.1 (Nat.zero_le _) rfl
  refine ⟨prepared, trees, scope, prepares, typed, fun root member part inside =>
    Emission.exists_occurs ongoing (List.length_map _) member inside, ?_⟩
  intro emission occurs
  obtain ⟨situated, limit, code⟩ := occurs.situated ongoing
  refine ⟨code.trans ?_, limit, situated.casts⟩
  rw [listing, Stream.code_append]
  exact List.prefix_append _ _

/-- `m[1] = p->b`, where `p` points to a record with the bytes `a` in front of `b`. -/
def memberProbe (length : Nat) : Probe where
  name := "member"
  statements :=
    [apply "=" [apply "[]" [ident "m" {}, num 1 false {}] {},
        apply "->" [ident "p" {}, str "b" {}] {}] {}]
  symbols := (Symbols.declareContext {} "p" (.pointer (.record
    { name := "s", fields := [⟨"a", .array (.scalar .u8) length⟩, ⟨"b", .u64⟩] })) 0).2

theorem memberProbe_casts :
    ∃ compiled, (compile {} .new (memberProbe 8)).1 = .ok compiled ∧
      ∃ prepared trees scope, (memberProbe 8).statements.mapM prepare = .ok prepared ∧
        inferTypes {} prepared ⟨(memberProbe 8).symbols, .new⟩ = ⟨trees, scope, .ok ()⟩ ∧
        (∀ root ∈ trees, ∀ part, PartOf part root →
          ∃ emission : Emission, emission.node = part ∧ emission.OccursIn scope.symbols 512 trees) ∧
        ∀ emission : Emission, emission.OccursIn scope.symbols 512 trees →
          emission.finish.code <+: compiled.listing ∧ emission.stream.limit = 512 ∧
            emission.Casts (512 ≤ 32767 ∧ Registry.new.Built) := by
  have compiles : (compile {} .new (memberProbe 8)).1.toOption.isSome = true := by decide +kernel
  have fresh : ∀ statement ∈ (memberProbe 8).statements, statement.Fresh := by
    simp [memberProbe, fresh_apply_iff, fresh_ident_iff, fresh_str_iff, fresh_num_iff]
  cases found : (compile {} .new (memberProbe 8)).1 with
  | error fault =>
      rw [found] at compiles
      cases compiles
  | ok compiled => exact ⟨compiled, rfl, compile_casts fresh found⟩

/-- A member 2^32 bytes behind its pointer is read from the pointer itself. -/
example : ((compile {} .new (memberProbe (2 ^ 32))).1.toOption.map fun compiled =>
    compiled.listing.filter fun insn => insn = .alu64Imm Opcode.add .r3 0) =
      some [.alu64Imm Opcode.add .r3 0] := by
  decide +kernel

end TraceProbe
