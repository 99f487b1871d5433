import TraceProbe.Proofs.Compilation.Stages
import TraceProbe.Proofs.Emission.Arrows
import TraceProbe.Proofs.Typing.Marking

/-!
# Arrows of typed probes

A member behind a pointer has the bytes that a read of the whole object would
have brought, and those that a dot takes from a copy of the object in the frame.
-/

namespace TraceProbe.Node

open Symbolic

variable {pointer base root : Node} {hop : Hop} {hops : List Hop} {name : String}
  {inner member outer : Info} {options : Options} {statements prepared trees : List Node}
  {scope after : Scope}

/-- Typed statements fold the names of members into their operators. -/
theorem membersFolded_of_inferTypes (declared : scope.symbols.Declared)
    (fresh : ∀ statement ∈ statements, statement.Fresh)
    (prepares : statements.mapM prepare = .ok prepared)
    (inferred : inferTypes options prepared scope = ⟨trees, after, .ok ()⟩) (among : root ∈ trees) :
    root.MembersFolded := by
  intro base member info part
  obtain ⟨-, complete⟩ := passes_of_inferTypes inferred
  obtain ⟨noted, -⟩ := marked_of_inferTypes fresh prepares declared.mapsTyped inferred root among
  obtain ⟨-, vetted⟩ := noted _ part
  exact vetted.members rfl (complete root among _ part) member rfl

/-- An arrow of typed statements, at the end of a chain of any length, leaves the bytes
that its member has in the object at the end of the chain, and every arrow asks the
helper once, for its member.  A dereference instead of the last arrow leaves the whole
object, and a dot leaves the bytes of the member from a copy in the frame. -/
theorem arrow_reads_member (declared : scope.symbols.Declared)
    (fresh : ∀ statement ∈ statements, statement.Fresh)
    (prepares : statements.mapM prepare = .ok prepared)
    (inferred : inferTypes options prepared scope = ⟨trees, after, .ok ()⟩) (among : root ∈ trees)
    (part : PartOf (apply "." [apply "u*" [base] inner, str name member] outer) root)
    (chain : Chain pointer hops base) (arrow : Arrow base hop name) (room : 0 < hop.type.size) :
    (∀ symbols request stream tree finish,
      Emits symbols (apply "." [apply "u*" [base] inner, str name member] outer) request stream tree
        finish → ReadsBehind symbols pointer hops hop hop.part hop.asked stream tree finish) ∧
    (∀ symbols request stream tree finish, request.memberOnly = false → request.target = false →
      Emits symbols (apply "u*" [base] inner) request stream tree finish →
        ReadsBehind symbols pointer hops hop id (askedRead hop.size) stream tree finish) ∧
    ∀ record member' outer' root', root' ∈ trees →
      PartOf (apply "." [record, str name member'] outer') root' → record.applies "u*" = false →
      record.type? = some (.record hop.shape) →
      ∀ symbols request stream tree finish,
        Emits symbols (apply "." [record, str name member'] outer') request stream tree finish →
          TakesFromFrame symbols record hop stream tree finish := by
  have folded {root : Node} (among : root ∈ trees) : root.MembersFolded :=
    membersFolded_of_inferTypes declared fresh prepares inferred among
  have emittable {root part : Node} (among : root ∈ trees) (inside : PartOf part root) :
      ∃ role, Emittable (fun _ _ => True) after.symbols role part :=
    (emittable_of_inferTypes Registry.gives_anything trivial fresh prepares inferred
        root among).part inside
  have deref : PartOf (apply "u*" [base] inner) root :=
    .trans (.inner List.mem_cons_self .root) part
  refine ⟨?_, ?_, ?_⟩
  · intro symbols request stream tree finish emits
    obtain ⟨role, known⟩ := emittable among part
    exact readsBehind_arrow chain arrow known ((folded among).part part) emits
  · intro symbols request stream tree finish whole read emits
    obtain ⟨role, known⟩ := emittable among deref
    exact readsBehind_deref chain arrow.pointer arrow.short known
      ((folded among).part deref) whole read emits
  · intro record member' outer' root' among' part' plain typed symbols request
      stream tree finish emits
    obtain ⟨role, known⟩ := emittable among' part'
    exact takesFromFrame arrow.names room typed plain known (folded among' _ _ _ part') emits

/-- A record at the end of a chain. -/
def leafShape : Record :=
  { name := "leaf", fields := [⟨"flags", .scalar .u32⟩, ⟨"pid", .scalar .s32⟩] }

/-- A record that points to it. -/
def linkShape : Record :=
  { name := "link", fields := [⟨"count", .u64⟩, ⟨"next", .pointer (.record leafShape)⟩] }

/-- One context variable, a pointer to a record. -/
def linkScope : Scope :=
  ⟨(Symbols.declareContext {} "p" (.pointer (.record linkShape)) 0).2, .new⟩

/-- `m[0] = p->next->pid`, for a context variable `p`. -/
def linkStatement : Node :=
  apply "="
    [apply "[]" [ident "m" {}, num 0 false {}] {},
      apply "->" [apply "->" [ident "p" {}, str "next" {}] {}, str "pid" {}] {}] {}

/-- The statement without arrows. -/
def linkPrepared : List Node :=
  ([linkStatement].mapM prepare).toOption.getD []

/-- The statement, once it is typed. -/
def linkTyped : Typed (List Node) :=
  inferTypes {} linkPrepared linkScope

/-- The second arrow. -/
def linkArrow : Node :=
  (linkTyped.tree.head?.getD default).args.getLastD default

/-- The dereference in an arrow. -/
def arrowObject (arrow : Node) : Node :=
  arrow.args.head?.getD default

/-- What an arrow follows. -/
def arrowBase (arrow : Node) : Node :=
  (arrowObject arrow).args.head?.getD default

/-- The slots of an arrow are its own and those of its parts. -/
theorem spares_arrow {arrow : Node} {frame address : UInt64}
    (two : arrow = apply "." [apply "u*" [arrowBase arrow] (arrowObject arrow).info,
      arrow.args.getLastD default] arrow.info)
    (leaf : (arrow.args.getLastD default).operator? = none)
    (here : arrow.storage.Avoids frame address)
    (object : (arrowObject arrow).storage.Avoids frame address)
    (name : (arrow.args.getLastD default).storage.Avoids frame address)
    (base : (arrowBase arrow).Spares frame address) : arrow.Spares frame address := by
  rw [two]
  refine spares_apply here ?_
  intro arg member
  rcases List.mem_pair.mp member with rfl | rfl
  · exact spares_apply object fun arg member => List.mem_singleton.mp member ▸ base
  · exact spares_leaf leaf name

/-- The emission of the second arrow. -/
def linkEmission : Emitted Node :=
  emit linkTyped.scope.symbols linkArrow {} (Stream.new 512)

/-- The emission of the pointer. -/
def linkSource : Emitted Node :=
  emit linkTyped.scope.symbols (arrowBase (arrowBase linkArrow)) {} (Stream.new 512)

/-- The members that the arrows read. -/
def nextHop : Hop := ⟨linkShape, 8, .pointer (.record leafShape)⟩

def pidHop : Hop := ⟨leafShape, 4, .scalar .s32⟩

theorem arrow_reads_member_linked :
    ∃ added place final, linkEmission.tree.storage = ⟨.slot place, 4⟩ ∧
      linkEmission.stream.code = linkSource.stream.code ++ added ∧
      Runs .copier added Machine.zeros final ∧ final.slot place 4 = [0, 0, 0, 0] ∧
      final.asked = [askedRead 8 8, askedRead 4 4] := by
  have fresh : ∀ statement ∈ [linkStatement], statement.Fresh := by
    simp [linkStatement, fresh_apply_iff, fresh_ident_iff, fresh_str_iff, fresh_num_iff]
  have prepares : [linkStatement].mapM prepare = .ok linkPrepared := rfl
  have inferred : inferTypes {} linkPrepared linkScope =
      ⟨linkTyped.tree, linkTyped.scope, .ok ()⟩ := rfl
  have declared : linkScope.symbols.Declared := .declareContext "p" _ 0 .new
  have among : linkTyped.tree.head?.getD default ∈ linkTyped.tree :=
    List.mem_of_getElem?
        (show linkTyped.tree[0]? = some (linkTyped.tree.head?.getD default) from rfl)
  have part : PartOf (apply "." [apply "u*" [arrowBase linkArrow] (arrowObject linkArrow).info,
      str "pid" (linkArrow.args.getLastD default).info] linkArrow.info)
      (linkTyped.tree.head?.getD default) :=
    .inner (List.mem_cons_of_mem _ List.mem_cons_self) .root
  have first : Arrow (arrowBase (arrowBase linkArrow)) nextHop "next" :=
    ⟨rfl, ⟨⟨_, rfl, rfl⟩, by decide⟩, by decide⟩
  have second : Arrow (arrowBase linkArrow) pidHop "pid" :=
    ⟨rfl, ⟨⟨_, rfl, rfl⟩, by decide⟩, by decide⟩
  have chain : Chain (arrowBase (arrowBase linkArrow)) [nextHop] (arrowBase linkArrow) :=
    .arrow .root first
  obtain ⟨source, before, added, place, size, emitted, stored, code, executes⟩ :=
    (arrow_reads_member declared fresh prepares inferred among part chain second (by decide)).1
      linkTyped.scope.symbols {} (Stream.new 512) linkEmission.tree linkEmission.stream
      (emits_of_succeeds (show linkEmission.outcome.toOption.isSome = true by decide +kernel))
  obtain rfl : source = linkSource.tree := (congrArg Emitted.tree emitted).symm
  obtain rfl : before = linkSource.stream := (congrArg Emitted.stream emitted).symm
  have start : (Machine.zeros.word linkSource.tree.storage) = 0 := by decide +kernel
  have stored' : linkEmission.tree.storage = ⟨.slot (-12), 4⟩ := by decide +kernel
  cases stored.symm.trans stored'
  have spared : ∀ index < 16, linkEmission.tree.Spares 0 (0 + UInt64.ofNat index) := by
    intro index inside
    refine spares_arrow rfl rfl ?_ ?_ ?_ (spares_arrow rfl rfl ?_ ?_ ?_ (spares_leaf rfl ?_))
    all_goals
      revert index
      decide +kernel
  -- all memory is zero, so the second pointer is zero as well
  have target : nextHop.target Machine.zeros.memory 0 = 0 := by decide +kernel
  have reachable : Reachable (fun _ => True) Machine.zeros linkEmission.tree 0
      [nextHop, pidHop] := by
    refine ⟨fun index inside => ⟨trivial, spared index inside⟩, ?_, trivial⟩
    rw [target]
    intro index inside
    exact ⟨trivial, spared index (Nat.lt_of_lt_of_le inside (by decide))⟩
  obtain ⟨final, runs, slot, asked⟩ :=
    executes .copier (fun _ => True) Machine.zeros Environment.copies_copier (start ▸ reachable)
  rw [start] at slot asked
  exact ⟨added, -12, final, stored', code, runs, slot.trans (by decide +kernel),
    asked.trans (by decide +kernel)⟩

end TraceProbe.Node
