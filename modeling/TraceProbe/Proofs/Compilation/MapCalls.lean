import TraceProbe.Proofs.Compilation.RegisterDiscipline
import TraceProbe.Proofs.Emission.AuditedTrees
import TraceProbe.Proofs.Machine.Truth
import TraceProbe.Proofs.MapLanguage.Correctness
import TraceProbe.Proofs.Typing.FixedPoint
import TraceProbe.Proofs.Typing.Marking

/-!
# Calls of map helpers in compiled probes

Every call of a map helper in a listing names a map that the loader creates, and
passes a slot with a key of the size that the loader gives it.  An update passes
the slot of its target, which has the size of the target's own type: that type is
compatible with the map's values, but may be shorter.
-/

namespace TraceProbe

open Insn

namespace MapSpec

variable {entries : Nat} {symbols : Symbols} {maps : List MapSpec} {spec : MapSpec}

theorem number_of_ofSymbol {symbol : Symbol} (made : ofSymbol entries symbol = .ok spec) :
    symbol.kind.map? = some spec.number := by
  unfold ofSymbol at made
  split at made <;> cases made
  rename_i kind _
  rw [kind]
  rfl

theorem numbers_of_ofSymbols (found : ofSymbols entries symbols = .ok maps) :
    maps.map (·.number) = symbols.numbers := by
  unfold ofSymbols Symbols.maps at found
  unfold Symbols.numbers
  generalize symbols.entries = declared at found ⊢
  induction declared generalizing maps with
  | nil =>
      cases found
      rfl
  | cons symbol declared ih =>
      cases kind : symbol.kind.map? with
      | none =>
          rw [List.filter_cons_of_neg (by simp [kind])] at found
          simp only [List.filterMap_cons, kind]
          exact ih found
      | some number =>
          rw [List.filter_cons_of_pos (by simp [kind])] at found
          obtain ⟨spec, others, made, rest, rfl⟩ := cons_of_mapM found
          have same := number_of_ofSymbol made
          rw [kind] at same
          cases same
          simp only [List.filterMap_cons, kind, List.map_cons, ih rest]

theorem count_number (found : ofSymbols entries symbols = .ok maps) (numbered : symbols.Numbered)
    (member : spec ∈ maps) : (maps.map (·.number)).count spec.number = 1 := by
  refine List.count_eq_one_of_mem ?_ (List.mem_map_of_mem member)
  rw [numbers_of_ofSymbols found]
  exact numbered.distinct

end MapSpec

namespace Facts

/-- A call names one of the maps that a loader creates, and passes a slot with a
key of that map. -/
structure PassesKey (maps : List MapSpec) (slots : Int16 → Nat → Prop)
    (facts : Facts) (spec : MapSpec) (key : Int16) : Prop where
  created : spec ∈ maps
  map : facts.known .r1 = .map spec.number
  once : (maps.map (·.number)).count spec.number = 1
  place : facts.known .r2 = .place key.toInt
  slot : slots key spec.keySize
  written : ∀ position, Slot key spec.keySize position → facts.written position

/-- The positions that a helper looks at when it takes so many bytes from where a
register points. -/
def Takes (facts : Facts) (reg : Reg) (size : Nat) (position : Int) : Prop :=
  ∃ place, facts.known reg = .place place ∧ Span place size position

/-- A call passes the slot of a target, which is an element of the map.  The values
of the map are compatible with the target.  What the helper takes as a value lies in
the slot exactly if the map has no longer values, and has all been written then. -/
structure PassesValue (symbols : Symbols) (targets : Node → Prop) (facts : Facts)
    (spec : MapSpec) (target : Node) (type : Ty) (value : Int16) : Prop where
  among : targets target
  map : target.mapName? = some spec.name
  typed : target.type? = some type
  compatible : ∃ shape, symbols.map? spec.name = some shape ∧ shape.value.size = spec.valueSize ∧
    shape.value.compatible type = true
  stored : target.storage = ⟨.slot value, type.size⟩
  place : facts.known .r3 = .place value.toInt
  written : ∀ position, Slot value type.size position → facts.written position
  whole : (∀ position, facts.Takes .r3 spec.valueSize position →
    Slot value type.size position) ↔ spec.valueSize ≤ type.size
  covered : spec.valueSize ≤ type.size →
    ∀ position, facts.Takes .r3 spec.valueSize position → facts.written position

/-- What a call of a map helper has to agree with. -/
def Serves (symbols : Symbols) (maps : List MapSpec) (slots : Int16 → Nat → Prop)
    (targets : Node → Prop) (helper : Helper) (facts : Facts) : Prop :=
  ∃ spec key, facts.PassesKey maps slots spec key ∧ (helper = .mapUpdateElem →
    ∃ target type value, facts.PassesValue symbols targets spec target type value)

/-- What a helper takes from a slot lies in it as far as the slot reaches. -/
theorem takes_subset_iff {facts : Facts} {reg : Reg} {offset : Int16}
    (place : facts.known reg = .place offset.toInt) (size larger : Nat) :
    (∀ position, facts.Takes reg size position → Slot offset larger position) ↔
      size ≤ larger := by
  constructor
  · intro inside
    by_contra longer
    have taken : facts.Takes reg size (offset.toInt + larger) :=
      ⟨offset.toInt, place, by omega, by omega⟩
    obtain ⟨-, high⟩ := inside (offset.toInt + larger) taken
    omega
  · intro shorter position taken
    obtain ⟨start, known, low, high⟩ := taken
    rw [place] at known
    cases known
    exact ⟨low, by omega⟩

/-- The symbols of maps that a loader creates. -/
theorem Agrees.serves {entries : Nat} {symbols : Symbols} {maps : List MapSpec}
    {slots : Int16 → Nat → Prop} {targets : Node → Prop} {helper : Helper} {facts : Facts}
    (specified : MapSpec.ofSymbols entries symbols = .ok maps) (numbered : symbols.Numbered)
    (agrees : Agrees symbols slots targets helper facts) :
    Serves symbols maps slots targets helper facts := by
  obtain ⟨name, shape, key, keyed, updated⟩ := agrees
  obtain ⟨spec, member, rfl, number, keySize, valueSize⟩ :=
    MapSpec.exists_of_map? specified keyed.map
  have passesKey : facts.PassesKey maps slots spec key := {
    created := member
    map := number ▸ keyed.number
    once := MapSpec.count_number specified numbered member
    place := keyed.place
    slot := keySize ▸ keyed.slot
    written := keySize ▸ keyed.written }
  refine ⟨spec, key, passesKey, ?_⟩
  intro update
  obtain ⟨target, type, value, aimed⟩ := updated update
  have whole := takes_subset_iff aimed.place spec.valueSize type.size
  exact ⟨target, type, value, {
    among := aimed.among
    map := aimed.map
    typed := aimed.typed
    compatible := ⟨shape, keyed.map, valueSize.symm, aimed.fits⟩
    stored := aimed.stored
    place := aimed.place
    written := aimed.written
    whole := whole
    covered := fun shorter position taken =>
      aimed.written position (whole.mpr shorter position taken) }⟩

end Facts

namespace Node

/-- The tree assigns to a target. -/
def AssignsTo (tree target : Node) : Prop :=
  ∃ value info, PartOf (apply "=" [target, value] info) tree

/-- What a walk carries out for several statements: it goes through the code of one
after the other, and calls map helpers with slots and targets of the statement. -/
inductive MapCalls (symbols : Symbols) (maps : List MapSpec) :
    Facts → Stream → List Node → Stream → List Insn → Prop
  | nil (facts : Facts) (stream : Stream) : MapCalls symbols maps facts stream [] stream []
  | cons {facts : Facts} {stream middle finish : Stream} {statement tree : Node}
      {others : List Node}
      {code part rest : List Insn} : Emits symbols statement {} stream tree middle →
      middle.code = stream.code ++ code → Walk .running code part .running →
      facts.Passes (Facts.Serves symbols maps (stream.HandsOut middle) tree.AssignsTo) part →
      MapCalls symbols maps (facts.after part) middle others finish rest →
        MapCalls symbols maps facts stream (statement :: others) finish (part ++ rest)

/-- A call of a map helper is one that the code of a statement makes. -/
def CallsFor (symbols : Symbols) (maps : List MapSpec) (statement : Node) (helper : Helper)
    (facts : Facts) : Prop :=
  ∃ stream tree middle, Emits symbols statement {} stream tree middle ∧
    Facts.Serves symbols maps (stream.HandsOut middle) tree.AssignsTo helper facts

variable {symbols : Symbols} {statement tree : Node} {statements trees : List Node}
  {stream middle finish : Stream} {maps : List MapSpec} {facts : Facts} {part : List Insn}

theorem MapCalls.passes (calls : MapCalls symbols maps facts stream statements finish part) :
    facts.Passes (fun helper facts =>
      ∃ statement ∈ statements, CallsFor symbols maps statement helper facts)
      part := by
  induction calls with
  | nil => trivial
  | cons emits _ _ passes _ ih =>
      refine Facts.passes_append.mpr ⟨passes.mono ?_, ih.mono ?_⟩
      · intro helper facts serves
        exact ⟨_, List.mem_cons_self, _, _, _, emits, serves⟩
      · intro helper facts
        rintro ⟨other, member, serves⟩
        exact ⟨other, List.mem_cons_of_mem _ member, serves⟩

theorem tracked_statement (emittable : Emittable Registry.Literal symbols .value statement)
    (noted : statement.AllNoted symbols) (small : stream.limit ≤ 32767)
    (fits : stream.used ≤ stream.limit) :
    Tracked symbols (stream.HandsOut finish) tree.AssignsTo .value {} stream
      statement tree finish where
  emittable := emittable
  noted := noted
  fit := {
    small := small
    fits := fits
    inside := fun _ claims => absurd rfl claims.1
    literal := fun _ _ => id }
  handed _ _ := id
  among _ value info inside := ⟨value, info, inside⟩
  asked target := by cases target
  element target := by cases target

theorem mapCalls_of_emitsAll {entries : Nat}
    (specified : MapSpec.ofSymbols entries symbols = .ok maps) (numbered : symbols.Numbered)
    (emittable : ∀ statement ∈ statements, Emittable Registry.Literal symbols .value statement)
    (noted : ∀ statement ∈ statements, statement.AllNoted symbols)
    (small : stream.limit ≤ 32767) (fits : stream.used ≤ stream.limit)
    (emits : EmitsAll symbols statements (statements.map fun _ => {}) stream trees finish) :
    ∃ code, finish.code = stream.code ++ code ∧ ∀ facts : Facts, (facts.Has fun _ => False) →
      ∀ visited last, Walk .running code visited last →
        last = .running ∧ MapCalls symbols maps facts stream statements finish visited := by
  induction statements generalizing stream trees with
  | nil =>
      obtain ⟨rfl, rfl⟩ := emitsAll_nil_iff.mp emits
      refine ⟨[], (List.append_nil _).symm, ?_⟩
      intro facts _ visited last walk
      cases walk
      exact ⟨rfl, .nil facts _⟩
  | cons statement statements ih =>
      obtain ⟨tree, middle, others, first, rest, rfl⟩ := emitsAll_cons_iff.mp emits
      have emittable' := emittable statement List.mem_cons_self
      obtain ⟨_, composed⟩ := composes statement _ _ _ _ _ emittable' first
      have extended := composed.moved.extended
      obtain ⟨code, added, audit⟩ := audited statement .value {} _ tree middle
        (tracked_statement emittable' (noted statement List.mem_cons_self) small fits)
        first fun _ => False
      obtain ⟨more, added', calls⟩ :=
        ih (fun other member => emittable other (List.mem_cons_of_mem _ member))
        (fun other member => noted other (List.mem_cons_of_mem _ member)) (extended.limit ▸ small)
        (extended.fits fits) rest
      refine ⟨code ++ more, by rw [added', added, List.append_assoc], ?_⟩
      intro facts has visited last walk
      obtain ⟨_, earlier, later, start, behind, rfl⟩ := walk.split
      obtain ⟨rfl, passes, reached⟩ := audit facts has _ _ start
      obtain ⟨rfl, calls⟩ := calls _ (reached.mono fun _ none => none.elim) _ _ behind
      exact ⟨rfl, .cons first added start
        (passes.mono fun _ _ => Facts.Agrees.serves specified numbered) calls⟩

end Node

/-- A listing that calls map helpers for its statements. -/
structure ServesMaps (symbols : Symbols) (maps : List MapSpec) (limit : Nat)
    (statements : List Node) (listing : List Insn) : Prop where
  /-- However control goes, the calls of each statement are made with its slots and targets. -/
  walks : ∃ finish, listing = finish.code ++ epilogue ∧
    ∀ visited last, Walk .running listing visited last → last = .left ∧
      ∃ part, visited = prologue ++ part ++ epilogue ∧
        Node.MapCalls symbols maps (Facts.start.after prologue)
        ((Stream.new limit).append prologue) statements
          finish part
  /-- Where a run comes to a call, the registers hold what the call is made with. -/
  runs : ∀ {World : Type} (env : Environment World) (machine now : Machine World)
    (before after : List Insn) (helper : Helper), listing = before ++ .callOf helper :: after →
      helper.onMap = true → Symbolic.run env before ⟨.running, machine⟩ = ⟨.running, now⟩ →
        ∃ facts, facts.TrueOf env (machine.regs .frame) now ∧
          ∃ statement ∈ statements, Node.CallsFor symbols maps statement helper facts

/-- Walks are enough. -/
theorem servesMaps_of_walks {symbols : Symbols} {maps : List MapSpec} {limit : Nat}
    {statements : List Node}
    {listing : List Insn} {finish : Stream} (whole : listing = finish.code ++ epilogue)
    (walks : ∀ visited last, Walk .running listing visited last → last = .left ∧
      ∃ part, visited = prologue ++ part ++ epilogue ∧
        Node.MapCalls symbols maps (Facts.start.after prologue)
        ((Stream.new limit).append prologue) statements
          finish part) : ServesMaps symbols maps limit statements listing := by
  refine ⟨⟨finish, whole, walks⟩, fun env machine now before after helper split onMap runs => ?_⟩
  obtain ⟨earlier, later, last, walk, known⟩ := exists_known after (.callOf helper) runs
  rw [← split] at walk
  obtain ⟨-, part, visited, calls⟩ := walks _ _ walk
  have passes : Facts.start.Passes (fun helper facts =>
      ∃ statement ∈ statements, Node.CallsFor symbols maps statement helper facts)
      (earlier ++ .callOf helper :: later) := by
    rw [visited, Facts.passes_append, Facts.passes_append]
    exact ⟨⟨Facts.passes_of_harmless rfl, calls.passes⟩, fun _ called => (by cases called),
      fun _ called => (by cases called), trivial⟩
  exact ⟨_, known, passes.at_call onMap⟩

/-- Every call of a map helper in a compiled probe names exactly one map that the
loader creates, with a key of that map, all written, in a slot that the statement
got.  An update stores the slot of its target; the value of the map lies in it
exactly if it is no longer than the type of the target. -/
theorem compile_servesMaps {options : Options} {types : Registry} {probe : Probe}
    {compiled : CompiledProbe}
    (fresh : ∀ statement ∈ probe.statements, statement.Fresh) (declared : probe.symbols.Declared)
    (registry : types.Built) (small : options.maxStack ≤ 32767)
    (found : (compile options types probe).1 = .ok compiled) :
    ∃ prepared trees scope, probe.statements.mapM Node.prepare = .ok prepared ∧
      Node.inferTypes options prepared ⟨probe.symbols, types⟩ = ⟨trees, scope, .ok ()⟩ ∧
      ServesMaps scope.symbols compiled.maps options.maxStack trees compiled.listing := by
  obtain ⟨prepared, trees, scope, prepares, typed, completed⟩ := compile_ok found
  obtain ⟨stream, emitted, -, -, specified, listing, -⟩ := compileTyped_ok completed
  obtain ⟨stored, finish, emits, rfl⟩ := emitStatements_ok emitted
  obtain ⟨⟨count, passed⟩, -⟩ := Node.passes_of_inferTypes typed
  have numbered : scope.symbols.Numbered :=
    (Node.later_of_passes passed).numbered declared.built.numbered
  obtain ⟨code, added, calls⟩ := Node.mapCalls_of_emitsAll specified numbered
    (Node.emittable_of_inferTypes Registry.gives_literal registry.honest fresh prepares typed)
    (fun tree member =>
      (Node.marked_of_inferTypes fresh prepares declared.mapsTyped typed tree member).1)
    (show options.maxStack ≤ 32767 from small) (Nat.zero_le _) emits
  have whole : compiled.listing = finish.code ++ epilogue := by rw [listing, Stream.code_append]
  refine ⟨prepared, trees, scope, prepares, typed, servesMaps_of_walks whole ?_⟩
  intro visited last walk
  rw [whole, added, Stream.code_append] at walk
  obtain ⟨_, body, ending, start, behind, rfl⟩ := walk.split
  obtain ⟨_, opening, part, saves, inner, rfl⟩ := start.split
  obtain ⟨rfl, rfl⟩ := saves.of_straight rfl
  have before : (Facts.start.after prologue).Has fun _ => False := ⟨rfl, fun _ none => none.elim⟩
  obtain ⟨rfl, served⟩ := calls _ before _ _ inner
  obtain ⟨rfl, rfl⟩ := behind.of_epilogue
  exact ⟨rfl, part, rfl, served⟩

open Node in
/-- `m[1] = 5` and `m[2] = x`, for a context variable `x` of one byte. -/
def narrowProbe : Probe where
  name := "narrow"
  statements :=
    [apply "=" [apply "[]" [ident "m" {}, num 1 false {}] {}, num 5 false {}] {},
      apply "=" [apply "[]" [ident "m" {}, num 2 false {}] {}, ident "x" {}] {}]
  symbols := (Symbols.declareContext {} "x" (.scalar .u8) 0).2

theorem narrowProbe_servesMaps :
    ∃ compiled, (compile {} .new narrowProbe).1 = .ok compiled ∧
      ∃ prepared trees scope, narrowProbe.statements.mapM Node.prepare = .ok prepared ∧
        Node.inferTypes {} prepared ⟨narrowProbe.symbols, .new⟩ = ⟨trees, scope, .ok ()⟩ ∧
        ServesMaps scope.symbols compiled.maps 512 trees compiled.listing := by
  have compiles : (compile {} .new narrowProbe).1.toOption.isSome = true := by decide +kernel
  have fresh : ∀ statement ∈ narrowProbe.statements, statement.Fresh := by
    simp [narrowProbe, Node.fresh_apply_iff, Node.fresh_ident_iff, Node.fresh_num_iff]
  have declared : narrowProbe.symbols.Declared := .declareContext _ _ _ .new
  cases found : (compile {} .new narrowProbe).1 with
  | error fault =>
      rw [found] at compiles
      cases compiles
  | ok compiled => exact ⟨compiled, rfl, compile_servesMaps fresh declared .new (by decide) found⟩

/-- The values of the map have eight bytes, and the second target has one. -/
example :
    (compile {} .new narrowProbe).1.toOption.map (fun compiled => compiled.maps.map (·.valueSize)) =
      some [8] ∧
      (Node.inferTypes {} narrowProbe.statements ⟨narrowProbe.symbols, .new⟩).tree.map
        (fun statement =>
        (statement.args.head?.bind Node.type?).map Ty.size) = [some 8, some 1] := by
  decide +kernel

end TraceProbe
