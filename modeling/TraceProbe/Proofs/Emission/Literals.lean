import TraceProbe.Proofs.Emission.Padding
import TraceProbe.Proofs.Emission.Siblings
import TraceProbe.Proofs.Emission.Workable
import TraceProbe.Proofs.MapLanguage.Values

/-!
# Layout of struct literals

A struct literal asks for every argument in the place of its member and clears
what lies between the members before any of them.  No argument touches the
padding or the place of another one, so all of it is there in the end, at every
level of nested literals.
-/

namespace TraceProbe

open Symbolic

/-- Code that runs to its end on every machine and leaves the frame where it is. -/
def Symbolic.Total (code : List Insn) : Prop :=
  ∀ (World : Type) (env : Environment World) (machine : Machine World),
    ∃ final, Runs env code machine final ∧ final.regs .frame = machine.regs .frame

namespace Symbolic

variable {World : Type} {env : Environment World} {first second code : List Insn}
  {machine left right : Machine World}

theorem Runs.unique (runs : Runs env code machine left) (runs' : Runs env code machine right) :
    left = right :=
  congrArg Symbolic.machine (runs.symm.trans runs')

theorem Total.append (total : Total first) (total' : Total second) : Total (first ++ second) := by
  intro World env machine
  obtain ⟨middle, start, frame⟩ := total World env machine
  obtain ⟨final, rest, frame'⟩ := total' World env middle
  exact ⟨final, start.append rest, frame'.trans frame⟩

end Symbolic

theorem Woven.total {first last : Nat} {moves : List Move} (woven : Woven first last moves) :
    Total (moves.flatMap Move.code) := by
  intro World env machine
  obtain ⟨final, runs⟩ := run_of_leads env (woven.fills standing_saved)
    (show ∀ reg, Reg.saved reg → (fun _ => True) reg from fun _ _ => trivial) machine
  have unset : ∀ insn ∈ moves.flatMap Move.code, insn.writes? ≠ some .frame := by
    intro insn member written
    rcases woven.writes? member written with ⟨number, same, small⟩ | ⟨number, same, -⟩
    · cases same
      exact absurd small (by decide)
    · cases same
  have kept := regs_run env Reg.lasting_frame unset ⟨.running, machine⟩
  rw [runs] at kept
  exact ⟨final, runs, kept⟩

theorem total_of_zeroes {code : List Insn} {region : Int → Prop}
    (clears : ∀ {World : Type} (env : Environment World) (machine : Machine World),
      ∃ last, Runs env code machine last ∧ machine.Zeroes region last) : Total code := by
  intro World env machine
  obtain ⟨last, runs, zeroes⟩ := clears env machine
  exact ⟨last, runs, zeroes.frame⟩

theorem Storage.Held.slot {World : Type} {before after : Machine World}
    {offset : Int16} {size : Nat} (held : Storage.Held ⟨.slot offset, size⟩ before after) :
    after.slot offset size = before.slot offset size := by
  apply Machine.slot_congr
  intro position low high
  exact held.2 position (Storage.covers_slot.mpr ⟨low, high⟩)

namespace Node

open AtSite

variable {symbols typing : Symbols} {literal : List Ty → Ty → Prop} {role : Role}
  {request : Request} {stream reserved middle finish : Stream} {own : Storage} {site : Site}
  {info : Info} {args trees : List Node} {requests : List Request} {moves : List Move}
  {node tree whole arg part : Node}

/-- The argument of a struct literal for the member at an offset. -/
def MemberAt (whole arg : Node) (offset : Nat) : Prop :=
  ∃ args info shape field, ∃ index : Nat, whole = apply ":struct" args info ∧
    info.type = some (.record shape) ∧
    (shape.fields.zip shape.offsets)[index]? = some (field, offset) ∧ args[index]? = some arg

/-- An argument of a struct literal or of a literal in it, at any depth, with its
distance from the beginning of the whole. -/
inductive LiesAt (part : Node) : Node → Nat → Prop
  | member {whole : Node} {offset : Nat} : MemberAt whole part offset → LiesAt part whole offset
  | inner {whole arg : Node} {offset distance : Nat} :
      MemberAt whole arg offset → LiesAt part arg distance → LiesAt part whole (offset + distance)

/-- A byte of a struct literal that belongs to no member of it, or to none of a literal
in it, at any depth. -/
inductive Padding : Node → Nat → Prop
  | gap {args : List Node} {info : Info} {shape : Record} {distance : Nat} :
      info.type = some (.record shape) → shape.Gap distance →
      Padding (apply ":struct" args info) distance
  | inner {whole arg : Node} {offset distance : Nat} :
      MemberAt whole arg offset → Padding arg distance → Padding whole (offset + distance)

/-- The bytes of a constant.  A number takes the given room, a text the bytes that it
is written with and the zero byte behind them. -/
def constant? (size : Nat) : Node → Option (List UInt8)
  | num value _ _ => some (littleEndian size value.toNat)
  | str value _ => some (value.toUTF8.toList ++ [0])
  | apply _ _ _ | ident _ _ => none

/-- A part of a tree gets into its place: its own emission puts it there, and the code
behind leaves it alone. -/
def Landed (symbols : Symbols) (stream : Stream) (added : List Insn)
    (part : Node) (position : Int) : Prop :=
  ∃ type place node asked before after early late, part.type? = some type ∧
    part.storage = ⟨.slot place, type.size⟩ ∧ place.toInt = position ∧
    Emits symbols node asked before part after ∧ after.code = stream.code ++ early ∧
    added = early ++ late ∧
    ∀ (World : Type) (env : Environment World) (machine : Machine World),
      env.Spares (machine.regs .frame) → ∃ middle final, Runs env early machine middle ∧
        Runs env late middle final ∧ final.slot place type.size = middle.slot place type.size ∧
        ∀ bytes, part.constant? type.size = some bytes → final.slot place type.size = bytes

/-- The code of a struct literal puts its parts into their places and zeros into its
padding, which together are all of its bytes. -/
structure LaidOut (symbols : Symbols) (stream : Stream) (added : List Insn)
    (tree : Node) (base : Int16) (size : Nat) : Prop where
  total : Total added
  inside : ∀ distance, Padding tree distance → distance < size
  covered : ∀ distance < size, Padding tree distance ∨ ∃ part offset type, LiesAt part tree offset ∧
    part.operator? ≠ some ":struct" ∧ part.type? = some type ∧ offset ≤ distance ∧
      distance < offset + type.size
  zero : ∀ distance, Padding tree distance → ∀ (World : Type) (env : Environment World)
    (machine final : Machine World), env.Spares (machine.regs .frame) →
      Runs env added machine final →
      final.cell (base.toInt + distance) = 0
  parts : ∀ part distance, LiesAt part tree distance →
    Landed symbols stream added part (base.toInt + distance)

theorem MemberAt.partOf (member : MemberAt whole arg size) : PartOf arg whole := by
  obtain ⟨_, _, _, _, _, rfl, -, -, found⟩ := member
  exact .inner (List.mem_of_getElem? found) .root

theorem LiesAt.partOf {distance : Nat} (lies : LiesAt part whole distance) : PartOf part whole := by
  induction lies with
  | member member => exact member.partOf
  | inner member _ ih => exact ih.trans member.partOf

/-- Trees that are emitted one after the other leave alone what is in use before them
and not asked of them. -/
theorem ComposedAll.cell_kept {room : Int → Prop} {position : Int} {nodes : List Node}
    (composed : ComposedAll literal nodes requests stream trees finish moves)
    (fit : FitAll literal requests stream trees room)
    (inside : ∀ position, room position → -(stream.used : Int) ≤ position ∧ position < 0)
    (low : -(stream.used : Int) ≤ position) (high : position < 0) (outside : ¬ room position)
    {World : Type} {env : Environment World} {machine final : Machine World}
    (spares : env.Spares (machine.regs .frame))
    (runs : Runs env (moves.flatMap Move.code) machine final) :
    final.cell position = machine.cell position := by
  have used := composed.moved.extended.used
  have limit := composed.moved.extended.limit
  have fits := composed.moved.extended.fits fit.fits
  have small := fit.small
  have same : (Int16.ofInt position).toInt = position :=
    Int16.toInt_ofInt_of_le (by omega) (by omega)
  have byte {other : Int} (covers : Storage.Covers ⟨.slot (Int16.ofInt position), 1⟩ other) :
      other = position := by
    obtain ⟨first, last⟩ := Storage.covers_slot.mp covers
    omega
  have whole : moves.flatMap Move.code = moves.flatMap Move.code ++ [] := (List.append_nil _).symm
  have held : Storage.Held ⟨.slot (Int16.ofInt position), 1⟩ machine _ :=
    held_of_moves composed.moved.pieces (fun reg placed => (by cases placed))
        (fun move member reg fills => ?_)
      (fun other covers => ?_) (fun move member dst filled other covers => ?_)
          whole env machine spares
  · rw [runs] at held
    exact held.2 position (Storage.covers_slot.mpr ⟨by omega, by omega⟩)
  · obtain ⟨number, rfl, -⟩ := composed.fresh move member reg fills
    exact ⟨fun same => (by cases same), fun placed => (by cases placed)⟩
  · obtain rfl := byte covers
    exact ⟨by omega, high⟩
  · rcases composed.writes room fit move member dst filled other covers with ⟨first, last⟩ | asked
    · refine ⟨⟨by omega, by omega⟩, ?_⟩
      intro covers'
      obtain rfl := byte covers'
      omega
    · obtain ⟨first, last⟩ := inside other asked
      refine ⟨⟨by omega, last⟩, ?_⟩
      intro covers'
      obtain rfl := byte covers'
      exact outside asked

/-- The code of a text leaves its bytes, also if there are none. -/
theorem runs_text {World : Type} (env : Environment World) (machine : Machine World)
    {place : Int16} {value : String} {size : Nat} (known : size = (literalType value).size)
    (room : ∀ position, Slot place size position → position < 0) :
    ∃ final, Runs env (Block.fill place (paddedBytes value size)) machine final ∧
      final.slot place size = value.toUTF8.toList ++ [0] := by
  have length := length_paddedBytes value size
  rw [← paddedBytes_literalType, ← known]
  rcases Nat.eq_zero_or_pos size with rfl | some
  · rw [List.eq_nil_of_length_eq_zero length]
    exact ⟨machine, by rw [Block.fill, List.length_nil, Block.cut]; rfl, rfl⟩
  · have last := room (place.toInt + size - 1) ⟨by omega, by omega⟩
    have first := place.le_toInt
    have inside : place.toInt + (paddedBytes value size).length ≤ 0 := by omega
    obtain ⟨final, runs, wrote⟩ := Block.runs_fill env machine inside
    have bytes := wrote.slot (by omega)
    rw [length] at bytes
    exact ⟨final, runs, bytes⟩

/-- The code of a constant leaves its bytes. -/
theorem runs_constant {place : Int16} {type : Ty} {bytes : List UInt8}
    (unstored : node.storage = {})
    (texts : ∀ value info, node = str value info → info.type = some (literalType value))
    (emits : Emits symbols node request stream tree finish) (typed : tree.type? = some type)
    (placed : tree.storage = ⟨.slot place, type.size⟩)
    (room : ∀ position, Slot place type.size position → position < 0)
    (constant : tree.constant? type.size = some bytes) :
    ∃ code, finish.code = stream.code ++ code ∧
      ∀ (World : Type) (env : Environment World) (machine : Machine World),
        ∃ final, Runs env code machine final ∧ final.slot place type.size = bytes := by
  cases leaf : node.operator? with
  | some operator =>
      cases node with
      | apply operator args info =>
          obtain ⟨_, _, _, _, _, -, -, -, rfl⟩ := emits_apply_iff.mp emits
          cases constant
      | ident _ _ | str _ _ | num _ _ _ => cases leaf
  | none =>
      obtain ⟨own, found, rfl⟩ := (emits_leaf_iff leaf).mp emits
      rw [storage_withStorage] at placed
      rw [unstored] at found
      subst placed
      rcases yields_leaf leaf found with ⟨-, same⟩ | ⟨_, middle, -, extended, -, filled⟩
      · cases same
      · have appended (code : List Insn) : (middle.append code).code = stream.code ++ code := by
          rw [Stream.code_append, extended.code, List.append_nil]
        cases node with
        | apply _ _ _ => exact filled.elim
        | ident _ _ => cases constant
        | num value unsigned info =>
            cases constant
            obtain ⟨width, wide, rfl⟩ := Emit.yields_constant_slot_iff.mp filled
            rw [← Width.bytes_of_ofBytes? wide]
            refine ⟨Emit.constantCode width place value, appended _, ?_⟩
            intro World env machine
            obtain ⟨final, runs, wrote⟩ :=
              Emit.wrote_constantCode env machine width place value
            have bytes := wrote.slot (by rw [length_littleEndian]; cases width <;> decide)
            rw [length_littleEndian] at bytes
            exact ⟨final, runs, bytes⟩
        | str value info =>
            cases constant
            obtain ⟨offset, same, rfl⟩ := filled
            cases same
            have known : some type = some (literalType value) :=
              typed.symm.trans (texts value info rfl)
            have sizes : type.size = (literalType value).size := by rw [Option.some.inj known]
            exact ⟨_, appended _, fun World env machine => runs_text env machine sizes room⟩

/-- A struct literal that is emitted: its padding is cleared, and its arguments are
emitted into the places of their members. -/
structure Assembled (symbols : Symbols) (sure : Prop) (args : List Node) (request : Request)
    (plan : Plan) (stream reserved : Stream) (trees : List Node) (finish : Stream) (shape : Record)
    (base : Int16) (planned inner finished : List Move) : Prop where
  applied : Applied symbols sure Registry.Literal ":struct" args request plan stream
      reserved trees finish
    finish ⟨.slot base, (Ty.record shape).size⟩ planned inner finished
  cleared : stream.Cleared reserved fun position =>
    ∃ distance : Nat, position = base.toInt + distance ∧ shape.Gap distance
  room : ∀ position, Slot base (Ty.record shape).size position →
    -(reserved.used : Int) ≤ position ∧ position < 0
  count : shape.fields.length = trees.length
  members : ∀ (index : Nat) (tree : Node), trees[index]? = some tree → ∃ field offset place,
    (shape.fields.zip shape.offsets)[index]? = some (field, offset) ∧ tree.type? = some field.type ∧
      tree.storage = ⟨.slot place, field.type.size⟩ ∧ place.toInt = base.toInt + offset

theorem assembled_of_emits
    (emittable : Emittable Registry.Literal typing role (apply ":struct" args info))
    (emits : Emits symbols (apply ":struct" args info) request stream tree finish)
    (fit : Fit Registry.Literal request stream tree.storage) :
    ∃ shape base plan reserved trees planned inner finished,
      info.type = some (.record shape) ∧
      tree = apply ":struct" trees { info with storage := ⟨.slot base, (Ty.record shape).size⟩ } ∧
      Yields ((apply ":struct" args info).planApplication request) ⟨stream, {}⟩ plan
        ⟨reserved, ⟨.slot base, (Ty.record shape).size⟩⟩ ∧
      Assembled symbols (role = .target → request.target = true) args request plan stream reserved
        trees finish shape base planned inner finished := by
  obtain ⟨plan, ⟨reserved, own'⟩, trees, middle, own, planned, inner, finished, plans, finishes,
    applied, placed, rfl⟩ := applied_of_emits (fun arg _ => composes arg) emittable emits
  obtain ⟨type, typed, rule⟩ := emittable.rule_structLiteral
  have free := emittable.unstored.args_free
  have supplied := supplied_of_composed applied.lengths applied.composed
  obtain ⟨shape, base, moves, rfl, whole, moved, owns, asks, -, -⟩ :=
    reserved_structLiteral typed free plans
  obtain ⟨union, members, known, fields⟩ :=
    positional_of_rule (rule.follows supplied.follows) fun _ _ => id
  obtain rfl : own' = ⟨.slot base, _⟩ := whole
  have lengths : plan.args.length = trees.length :=
    applied.lengths.trans (length_of_bares supplied.bares)
  have typed' :
      (apply ":struct" trees { info with storage := ⟨.slot base, (Ty.record shape).size⟩ }).type? =
      some (.record shape) := typed
  have unchanged := finished_structLiteral typed' rfl rfl lengths asks supplied.placed finishes
  cases unchanged
  have room (position : Int) (inside : Slot base (Ty.record shape).size position) :
      -(reserved.used : Int) ≤ position ∧ position < 0 :=
    fit.bounds moved.extended owns (Storage.covers_slot.mpr inside)
  have count : shape.fields.length = trees.length := by
    rw [fields, Registry.positionalFields, List.length_mapIdx, length_of_valueTypes? known]
  have assigned := assigned_of_copyMembers (Nat.le_of_eq (by rw [shape.length_offsets, count]))
    (copied_of_structLiteral typed' rfl finishes)
  have small := fit.size_le moved.extended owns
  have cleared :=
    cleared_structLiteral typed union (count.trans (length_of_bares supplied.bares).symm) free
    plans rfl small fun position inside => (room position inside).2
  refine ⟨shape, base, plan, reserved, trees, planned, inner, finished, typed, rfl, plans, applied,
    cleared, room, count, ?_⟩
  intro index tree here
  obtain ⟨asked, there, placed⟩ := supplied.exists_request here
  obtain ⟨field, offset, place, found, reached, stored⟩ := Member.whole known fields here placed
    (assigned tree (List.mem_of_getElem? here)) (asks index asked there)
  obtain ⟨_, _, _, found', -, -, valued, -⟩ := (asks index asked there).asked known fields here
  cases found.symm.trans found'
  have bound := Record.bounds_of_mem (List.mem_of_getElem? found)
  exact ⟨field, offset, place, found, valued, stored, toInt_of_movedOffset (by omega) reached⟩

/-- An argument of a struct literal in the place of its member: the code before its
own, its own, and the code behind, which leaves its values alone. -/
structure Enclosed (symbols : Symbols) (args : List Node) (stream : Stream) (added : List Insn)
    (arg : Node) (place : Int16) (type : Ty) (node : Node) (asked : Request) (before after : Stream)
    (front own back : List Insn) : Prop where
  given : node ∈ args
  emits : Emits symbols node asked before arg after
  fit : Fit Registry.Literal asked before arg.storage
  operator : arg.operator? = node.operator?
  typed : arg.type? = some type
  stored : arg.storage = ⟨.slot place, type.size⟩
  room : ∀ position, Slot place type.size position → position < 0
  start : before.code = stream.code ++ front
  middle : after.code = before.code ++ own
  split : added = front ++ (own ++ back)
  totals : Total front ∧ Total own ∧ Total back
  kept : ∀ part, PartOf part arg → ∀ (World : Type) (env : Environment World)
    (machine final : Machine World), env.Spares (machine.regs .frame) →
      Runs env back machine final →
      part.storage.Held machine final

section Assembled

variable {sure : Prop} {plan : Plan} {shape : Record} {base : Int16}
    {planned inner finished : List Move}
  (assembled : Assembled symbols sure args request plan stream reserved trees finish shape base
    planned inner finished)

include assembled

/-- A byte of a struct literal is padding between its members or in one of them. -/
theorem Assembled.covered {distance : Nat} (typed : info.type = some (.record shape))
    (inside : distance < (Ty.record shape).size) : shape.Gap distance ∨ ∃ arg offset type,
      MemberAt (apply ":struct" trees { info with storage := own }) arg offset ∧
        arg.type? = some type ∧
        offset ≤ distance ∧ distance < offset + type.size := by
  by_cases taken : ∃ field offset, (field, offset) ∈ shape.fields.zip shape.offsets ∧
      offset ≤ distance ∧ distance < offset + field.type.size
  · obtain ⟨field, offset, among, low, high⟩ := taken
    obtain ⟨index, found⟩ := List.mem_iff_getElem?.mp among
    have short : index < trees.length := by
      rw [← assembled.count]
      exact (List.getElem?_eq_some_iff.mp (List.getElem?_zip_eq_some.mp found).1).1
    have here := List.getElem?_eq_getElem short
    obtain ⟨_, _, _, found', valued, -⟩ := assembled.members index _ here
    cases found.symm.trans found'
    exact .inr ⟨_, offset, field.type,
      ⟨_, _, shape, field, index, rfl, typed, found, here⟩, valued, low, high⟩
  · exact .inl ⟨inside, fun field offset among within => taken ⟨field, offset, among, within⟩⟩

variable (fit : Fit Registry.Literal request stream ⟨.slot base, (Ty.record shape).size⟩)

include fit

theorem Assembled.enclosed {added : List Insn} {offset : Nat}
    (typed : info.type = some (.record shape))
    (emittable : Emittable Registry.Literal typing role (apply ":struct" args info))
    (whole : finish.code = stream.code ++ added)
    (member : MemberAt (apply ":struct" trees { info with storage := own }) arg offset) :
    ∃ place type node asked before after front own back,
      Enclosed symbols args stream added arg place type node asked before after front own back ∧
        place.toInt = base.toInt + offset ∧ offset + type.size ≤ (Ty.record shape).size := by
  obtain ⟨_, _, shape', field, index, same, typed', found, here⟩ := member
  cases same
  cases typed.symm.trans typed'
  obtain ⟨_, _, place, found', valued, stored, reached⟩ := assembled.members index arg here
  cases found.symm.trans found'
  have bound := Record.bounds_of_mem (List.mem_of_getElem? found)
  have around := assembled.applied.around
  obtain ⟨node, asked, before, after, moves, late, argument⟩ :=
    assembled.applied.argument (fun index arg found => emittable.arg found) here
  obtain ⟨first, code, clears⟩ := assembled.cleared.zeroes
  obtain ⟨earlier, started⟩ := argument.earlier
  obtain ⟨_, composed⟩ := argument.composed
  have total := total_of_zeroes clears
  have start : before.code = stream.code ++ (first ++ earlier.flatMap Move.code) := by
    rw [started.moved.extended.code, code, List.append_assoc]
  have middle := composed.moved.extended.code
  have rest : finish.code = after.code ++ late.flatMap Move.code :=
    argument.rest.moved.extended.code
  have idle : finished.flatMap Move.code = [] := by simpa using around.finishes.extended.code
  have other : Role.of ":struct" trees index ≠ .target :=
    fun target => absurd (Role.of_eq_target_iff.mp target).1 (by decide)
  refine ⟨place, field.type, node, asked, before, after, _, _, _,
    ⟨List.mem_of_getElem? argument.given, argument.emits, argument.roomy around fit here, ?_,
      valued, stored, ?_, start, middle, ?_,
      ⟨total.append started.woven.total, composed.woven.total, argument.rest.woven.total⟩, ?_⟩,
        reached, bound⟩
  · have same := congrArg operator? composed.same
    simpa only [unstored, operator?_mapInfo] using same
  · intro position inside
    obtain ⟨low, high⟩ := inside
    exact (assembled.room position ⟨by omega, by omega⟩).2
  · rw [rest, middle, start] at whole
    simp only [List.append_assoc, List.append_cancel_left_eq] at whole
    rw [← whole, List.append_assoc]
  · intro part among World env machine final spares runs
    have split : (late ++ finished).flatMap Move.code = late.flatMap Move.code ++ [] := by
      rw [List.flatMap_append, idle]
    have held := argument.held around fit here among (fun target => absurd target other)
      (fun target => absurd target other) split env machine spares
    rwa [runs] at held

theorem Assembled.gap_kept {distance : Nat} (gap : shape.Gap distance) {World : Type}
    {env : Environment World} {machine final : Machine World}
    (spares : env.Spares (machine.regs .frame))
    (runs : Runs env (inner.flatMap Move.code) machine final) :
    final.cell (base.toInt + distance) = machine.cell (base.toInt + distance) := by
  have inside := gap.inside
  obtain ⟨low, high⟩ := assembled.room (base.toInt + distance) ⟨by omega, by omega⟩
  have extended := assembled.applied.around.plans.extended
  refine assembled.applied.composed.cell_kept
    (show FitAll Registry.Literal plan.args reserved trees fun position =>
      (-(reserved.used : Int) ≤ position ∧ position < 0) ∧
          position ≠ base.toInt + distance from
            ⟨extended.limit ▸ fit.small, extended.fits fit.fits, ?_, fit.literal⟩)
                (fun position => And.left) low high (fun outside => outside.2 rfl) spares runs
  intro index tree asked here there position claims
  obtain ⟨-, frame⟩ :=
    assembled.applied.around.asked fit index tree asked here there position claims
  obtain ⟨field, offset, place, found, -, stored, reached⟩ := assembled.members index tree here
  have covers := claims.2
  rw [stored, Storage.covers_slot] at covers
  obtain ⟨start, stop⟩ := covers
  refine ⟨⟨frame, ?_⟩, frame⟩
  rintro rfl
  exact gap.apart field offset (List.mem_of_getElem? found) ⟨by omega, by omega⟩

end Assembled

section Enclosed

variable {added front own back : List Insn} {place : Int16} {type : Ty} {before after : Stream}
  {asked : Request}
  (enclosed : Enclosed symbols args stream added arg place type node asked before
      after front own back)

include enclosed

theorem Enclosed.runs {World : Type} (env : Environment World) (machine : Machine World)
    (spares : env.Spares (machine.regs .frame)) :
    ∃ ready settled final, Runs env front machine ready ∧ Runs env own ready settled ∧
      Runs env back settled final ∧ ready.regs .frame = machine.regs .frame ∧
      ∀ part, PartOf part arg → part.storage.Held settled final := by
  obtain ⟨total, total', total''⟩ := enclosed.totals
  obtain ⟨ready, start, frame⟩ := total World env machine
  obtain ⟨settled, inside, frame'⟩ := total' World env ready
  obtain ⟨final, rest, -⟩ := total'' World env settled
  have spares' : env.Spares (settled.regs .frame) := (frame'.trans frame).symm ▸ spares
  exact ⟨ready, settled, final, start, inside, rest, frame, fun part among =>
    enclosed.kept part among World env settled final spares' rest⟩

theorem Enclosed.landed (unstored : node.storage = {})
    (texts : ∀ value info, node = str value info → info.type = some (literalType value)) :
    Landed symbols stream added arg place.toInt := by
  have reaches : after.code = stream.code ++ (front ++ own) := by
    rw [enclosed.middle, enclosed.start, List.append_assoc]
  have splits : added = (front ++ own) ++ back := by
    rw [enclosed.split, List.append_assoc]
  refine ⟨type, place, node, asked, before, after, front ++ own, back, enclosed.typed,
    enclosed.stored, rfl, enclosed.emits, reaches, splits, ?_⟩
  intro World env machine spares
  obtain ⟨ready, settled, final, start, inside, rest, -, held⟩ := enclosed.runs env machine spares
  have held := held arg .root
  rw [enclosed.stored] at held
  refine ⟨settled, final, start.append inside, rest, held.slot, ?_⟩
  intro bytes constant
  obtain ⟨code, same, runs⟩ := runs_constant unstored texts enclosed.emits enclosed.typed
    enclosed.stored enclosed.room constant
  obtain rfl := List.append_cancel_left (same.symm.trans enclosed.middle)
  obtain ⟨other, inside', bytes'⟩ := runs World env ready
  rw [held.slot, inside.unique inside', bytes']

/-- What gets into its place within the code of an argument is still there behind that
code. -/
theorem Enclosed.landed_inner {position : Int} (among : PartOf part arg)
    (landed : Landed symbols before own part position) :
    Landed symbols stream added part position := by
  obtain ⟨type, place, leaf, asked', before', after', early, late, typed, stored, reached, emits,
    code, split, runs⟩ := landed
  have reaches : after'.code = stream.code ++ (front ++ early) := by
    rw [code, enclosed.start, List.append_assoc]
  have splits : added = (front ++ early) ++ (late ++ back) := by
    rw [enclosed.split, split]
    simp only [List.append_assoc]
  refine ⟨type, place, leaf, asked', before', after', front ++ early, late ++ back, typed, stored,
    reached, emits, reaches, splits, ?_⟩
  intro World env machine spares
  obtain ⟨ready, settled, final, start, inside, rest, frame, held⟩ :=
    enclosed.runs env machine spares
  obtain ⟨middle, settled', here, there, same, constant⟩ :=
    runs World env ready (frame.symm ▸ spares)
  obtain rfl := inside.unique (split ▸ here.append there)
  have held := held part among
  rw [stored] at held
  refine ⟨middle, final, start.append here, there.append rest, held.slot.trans same, ?_⟩
  intro bytes found
  exact held.slot.trans (constant bytes found)

theorem Enclosed.zero_inner {distance : Nat} (laid : LaidOut symbols before own arg place type.size)
    (padding : Padding arg distance) {World : Type} {env : Environment World}
    {machine final : Machine World} (spares : env.Spares (machine.regs .frame))
    (runs : Runs env added machine final) : final.cell (place.toInt + distance) = 0 := by
  obtain ⟨ready, settled, last, start, inside, rest, frame, held⟩ :=
    enclosed.runs env machine spares
  rw [enclosed.split] at runs
  obtain rfl := runs.unique (start.append (inside.append rest))
  have bound := laid.inside distance padding
  have covers : arg.storage.Covers (place.toInt + distance) := by
    rw [enclosed.stored]
    exact Storage.covers_slot.mpr ⟨by omega, by omega⟩
  rw [(held arg .root).2 _ covers]
  exact laid.zero distance padding World env ready settled (frame.symm ▸ spares) inside

end Enclosed

theorem Padding.operator {distance : Nat} (padding : Padding whole distance) :
    whole.operator? = some ":struct" := by
  cases padding with
  | gap _ _ => rfl
  | inner member _ =>
      obtain ⟨_, _, _, _, _, rfl, -⟩ := member
      rfl

theorem LiesAt.operator {distance : Nat} (lies : LiesAt part whole distance) :
    whole.operator? = some ":struct" := by
  cases lies with
  | member member | inner member _ =>
      obtain ⟨_, _, _, _, _, rfl, -⟩ := member
      rfl

section Levels

variable {sure : Prop} {plan : Plan} {shape : Record} {base : Int16}
    {planned inner finished : List Move}
  {added : List Insn} {distance : Nat}
  (assembled : Assembled symbols sure args request plan stream reserved trees finish shape base
    planned inner finished)
  (fit : Fit Registry.Literal request stream ⟨.slot base, (Ty.record shape).size⟩)
  (typed : info.type = some (.record shape))
  (emittable : Emittable Registry.Literal typing role (apply ":struct" args info))
  (appended : finish.code = stream.code ++ added)
  (nested : ∀ {arg node : Node} {place : Int16} {type : Ty} {asked : Request}
    {before after : Stream} {front own back : List Insn},
    Enclosed symbols args stream added arg place type node asked before after front own back →
      arg.operator? = some ":struct" → LaidOut symbols before own arg place type.size)

include assembled fit typed emittable appended nested

theorem Assembled.padding_inside
    (padding : Padding (apply ":struct" trees { info with storage := own }) distance) :
    distance < (Ty.record shape).size := by
  cases padding with
  | gap typed' gap =>
      cases typed.symm.trans typed'
      exact gap.inside
  | inner member padding =>
      obtain ⟨_, _, _, _, _, _, _, _, _, enclosed, -, bound⟩ :=
        assembled.enclosed fit typed emittable appended member
      have inside := (nested enclosed padding.operator).inside _ padding
      omega

theorem Assembled.padding_or_part (inside : distance < (Ty.record shape).size) :
    Padding (apply ":struct" trees { info with storage := own }) distance ∨
      ∃ part offset type, LiesAt part (apply ":struct" trees { info with storage := own }) offset ∧
        part.operator? ≠ some ":struct" ∧ part.type? = some type ∧ offset ≤ distance ∧
          distance < offset + type.size := by
  rcases assembled.covered typed inside with gap | ⟨arg, offset, type, member, valued, low, high⟩
  · exact .inl (.gap typed gap)
  · by_cases literal : arg.operator? = some ":struct"
    · obtain ⟨_, _, _, _, _, _, _, _, _, enclosed, -, -⟩ :=
        assembled.enclosed fit typed emittable appended member
      cases valued.symm.trans enclosed.typed
      have same : offset + (distance - offset) = distance := by omega
      rcases (nested enclosed literal).covered (distance - offset) (by omega) with
        padding | ⟨part, place, type, lies, other, valued, low', high'⟩
      · exact .inl (same ▸ .inner member padding)
      · exact .inr ⟨part, _, type, .inner member lies, other, valued, by omega, by omega⟩
    · exact .inr ⟨arg, offset, type, .member member, literal, valued, low, high⟩

/-- Padding is cleared first, and the arguments leave it alone. -/
theorem Assembled.padding_zero {first : List Insn}
    (split : added = first ++ inner.flatMap Move.code)
    (clears : ∀ {World : Type} (env : Environment World) (machine : Machine World),
      ∃ last, Runs env first machine last ∧ machine.Zeroes
        (fun position => ∃ distance : Nat, position = base.toInt + distance ∧
          shape.Gap distance) last)
    (padding : Padding (apply ":struct" trees { info with storage := own }) distance) {World : Type}
    {env : Environment World} {machine final : Machine World}
    (spares : env.Spares (machine.regs .frame))
    (runs : Runs env added machine final) : final.cell (base.toInt + distance) = 0 := by
  cases padding with
  | gap typed' gap =>
      cases typed.symm.trans typed'
      subst split
      obtain ⟨ready, start, zeroes⟩ := clears env machine
      obtain ⟨last, rest, -⟩ := assembled.applied.composed.woven.total World env ready
      obtain rfl := runs.unique (start.append rest)
      rw [assembled.gap_kept fit gap (zeroes.frame.symm ▸ spares) rest]
      exact zeroes.zero _ ⟨distance, rfl, gap⟩
  | inner member padding =>
      obtain ⟨_, _, _, _, _, _, _, _, _, enclosed, reached, -⟩ :=
        assembled.enclosed fit typed emittable appended member
      rw [Int.natCast_add, ← Int.add_assoc, ← reached]
      exact enclosed.zero_inner (nested enclosed padding.operator) padding spares runs

theorem Assembled.landed
    (lies : LiesAt part (apply ":struct" trees { info with storage := own }) distance) :
    Landed symbols stream added part (base.toInt + distance) := by
  cases lies with
  | member member =>
      obtain ⟨_, _, _, _, _, _, _, _, _, enclosed, reached, -⟩ :=
        assembled.enclosed fit typed emittable appended member
      rw [← reached]
      refine enclosed.landed (emittable.unstored _ (.inner enclosed.given .root)) ?_
      rintro value info rfl
      obtain ⟨index, found⟩ := List.mem_iff_getElem?.mp enclosed.given
      exact literal_of_sound (emittable.arg found).sound.here rfl
  | inner member lies =>
      obtain ⟨_, _, _, _, _, _, _, _, _, enclosed, reached, -⟩ :=
        assembled.enclosed fit typed emittable appended member
      rw [Int.natCast_add, ← Int.add_assoc, ← reached]
      exact enclosed.landed_inner lies.partOf ((nested enclosed lies.operator).parts _ _ lies)

end Levels

/-- Struct literals are laid out at every level. -/
theorem laidOut (node : Node) :
    ∀ {role : Role} {request : Request} {stream finish : Stream} {tree : Node},
    node.operator? = some ":struct" → Emittable Registry.Literal typing role node →
      Emits symbols node request stream tree finish →
        Fit Registry.Literal request stream tree.storage →
        ∃ base size added, tree.storage = ⟨.slot base, size⟩ ∧ finish.code = stream.code ++ added ∧
          LaidOut symbols stream added tree base size := by
  induction node using induct with
  | leaf node leaf =>
      intro _ _ _ _ _ literal
      rw [leaf] at literal
      cases literal
  | apply operator args info ih =>
      intro role request stream finish tree literal emittable emits fit
      cases literal
      obtain ⟨shape, base, plan, reserved, trees, planned, inner, finished, typed,
        rfl, -, assembled⟩ :=
        assembled_of_emits emittable emits fit
      obtain ⟨first, code, clears⟩ := assembled.cleared.zeroes
      have whole : finish.code = stream.code ++ (first ++ inner.flatMap Move.code) := by
        rw [assembled.applied.composed.moved.extended.code, code, List.append_assoc]
      -- An argument that is a literal itself.
      have nested {arg node : Node} {place : Int16} {type : Ty} {asked : Request}
          {before after : Stream} {front own back : List Insn}
          (enclosed : Enclosed symbols args stream (first ++ inner.flatMap Move.code) arg place type
            node asked before after front own back)
          (literal : arg.operator? = some ":struct") :
          LaidOut symbols before own arg place type.size := by
        obtain ⟨index, found⟩ := List.mem_iff_getElem?.mp enclosed.given
        obtain ⟨_, _, _, stored, code, laid⟩ := ih node enclosed.given (enclosed.operator ▸ literal)
          (emittable.arg found) enclosed.emits enclosed.fit
        cases stored.symm.trans enclosed.stored
        obtain rfl := List.append_cancel_left (code.symm.trans enclosed.middle)
        exact laid
      refine ⟨base, (Ty.record shape).size, _, rfl, whole, ?_⟩
      exact
        { total := (total_of_zeroes clears).append assembled.applied.composed.woven.total
          inside := fun _ => assembled.padding_inside fit typed emittable whole nested
          covered := fun _ => assembled.padding_or_part fit typed emittable whole nested
          zero := by
            intro _ padding _ _ _ _
            exact assembled.padding_zero fit typed emittable whole nested rfl clears padding
          parts := fun _ _ => assembled.landed fit typed emittable whole nested }

end Node

end TraceProbe
