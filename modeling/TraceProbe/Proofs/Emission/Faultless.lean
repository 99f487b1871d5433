import TraceProbe.Proofs.Emission.Composition
import TraceProbe.Proofs.Emission.Defects

/-!
# Emission without defects

The emission of a typed tree ends with a tree or a diagnostic.  Every value that
is in the frame lies there as a whole, and so does everything that an operator
computes an offset of.  By induction on the tree, along with the room that
parents leave for what they ask of their arguments.
-/

namespace TraceProbe

/-- There is room in the frame for what is asked of a node: a chosen slot is in
use for the whole value. -/
structure Request.Suits (request : Request) (node : Node) (stream : Stream) : Prop where
  small : stream.limit ≤ 32767
  fits : stream.used ≤ stream.limit
  inside : ∀ slot type, request.slot = some slot → node.type? = some type →
    type ≠ .void ∧ ∀ position, Slot slot type.size position →
      -(stream.used : Int) ≤ position ∧ position < 0

namespace Request.Suits

variable {request : Request} {node : Node} {stream finish : Stream} {type : Ty} {own : Storage}
  {added : List Insn}

theorem of_free (small : stream.limit ≤ 32767) (fits : stream.used ≤ stream.limit)
    (free : request.slot = none) : request.Suits node stream where
  small := small
  fits := fits
  inside slot _ chosen := by
    rw [free] at chosen
    cases chosen

theorem alike {other : Request} {tree : Node} (suits : request.Suits node stream)
    (slot : other.slot = request.slot) (types : tree.type? = node.type?) :
    other.Suits tree stream := by
  refine ⟨suits.small, suits.fits, ?_⟩
  intro place type chosen typed
  rw [slot] at chosen
  rw [types] at typed
  exact suits.inside place type chosen typed

theorem later (suits : request.Suits node stream) (extended : stream.Extends finish added) :
    request.Suits node finish := by
  refine ⟨extended.limit ▸ suits.small, extended.fits suits.fits, ?_⟩
  intro slot type chosen typed
  obtain ⟨real, inside⟩ := suits.inside slot type chosen typed
  have used := extended.used
  refine ⟨real, ?_⟩
  intro position covers
  obtain ⟨low, high⟩ := inside position covers
  exact ⟨by omega, high⟩

theorem fit (suits : request.Suits node stream) (typed : node.type? = some type)
    (sized : request.slot ≠ none → own.isAssigned = true → own.size = type.size)
    (obeyed : ∀ offset, request.slot = some offset → own.isAssigned = true →
      own.place = .slot offset) : Fit Registry.Literal request stream own := by
  refine ⟨suits.small, suits.fits, ?_, fun _ _ => id⟩
  intro position claims
  obtain ⟨chosen, offset, placed, covers⟩ := claims
  obtain ⟨slot, same⟩ := Option.ne_none_iff_exists'.mp chosen
  have assigned : own.isAssigned = true := by simp [Storage.isAssigned, placed]
  have there := obeyed slot same assigned
  rw [placed] at there
  cases there
  rw [sized chosen assigned] at covers
  exact (suits.inside offset type same typed).2 position covers

end Request.Suits

theorem Fit.near {literal : List Ty → Ty → Prop} {request : Request} {stream finish : Stream}
    {own : Storage} {type : Ty} {added : List Insn} (fit : Fit literal request stream own)
    (extended : stream.Extends finish added) (owns : Owns type request.slot stream finish own) :
    own.Near := by
  intro position covers
  obtain ⟨low, high⟩ := fit.bounds extended owns covers
  have fits := extended.fits fit.fits
  have small := fit.small
  have limit := extended.limit
  exact ⟨by omega, high⟩

namespace Node

open AtSite

variable {symbols typing : Symbols} {operator : String} {args trees : List Node} {info : Info}
  {request : Request} {stream middle : Stream} {plan : Plan} {site : Site} {type : Ty} {role : Role}
  {description : Description} {node : Node}

theorem clean_planned (known : OperatorTable.language.lookup node = .ok description)
    (clean : Clean (description.operator.plan node request) site) :
    Clean (node.planApplication request) site := by
  refine .bind (clean_liftDiagnostic _ _) ?_
  intro looked _ found
  obtain ⟨same, rfl⟩ := yields_liftDiagnostic_iff.mp found
  rw [known] at same
  cases same
  refine clean.bind ?_
  intro plan _ _
  split
  · exact clean_pure _ _
  · exact clean_throw _ _

theorem clean_finished (known : OperatorTable.language.lookup node = .ok description)
    (clean : Clean (description.operator.emit symbols node request) site) :
    Clean (node.finishApplication symbols request) site := by
  refine .bind (clean_liftDiagnostic _ _) ?_
  intro looked _ found
  obtain ⟨same, rfl⟩ := yields_liftDiagnostic_iff.mp found
  rw [known] at same
  cases same
  exact clean

/-- A struct literal reserves its slot first, and clears and asks inside it. -/
theorem clean_planStructLiteral (typed : info.type = some type)
    (suits : request.Suits (apply ":struct" args info) stream) :
    Clean (planStructLiteral (apply ":struct" args info) request) ⟨stream, {}⟩ := by
  have typed : (apply ":struct" args info).type? = some type := typed
  refine (clean_allocateFor suits.small _ _).bind ?_
  intro own reserved found
  obtain ⟨-, extended, owns, -⟩ := owns_of_allocateFor typed found
  have owns : Owns type request.slot stream reserved.stream own := owns
  have near := (suits.fit typed (fun _ => owns.sized) owns.obeyed).near extended owns
  refine .bind ?_ ?_
  · refine .then (clean_knownType _) ?_
    intro type _
    split
    · exact clean_throw _ _
    · exact .then (clean_slotOf _ _) fun _ => clean_pure _
  · intro shaped middle found
    obtain ⟨type', shape, base⟩ := shaped
    simp only [literalShape, yields_bind_iff, yields_liftExcept_iff, knownType_eq_ok_iff] at found
    obtain ⟨_, _, ⟨known, rfl⟩, found⟩ := found
    rw [typed] at known
    cases known
    split at found
    · exact absurd found not_yields_throw
    · rename_i shape' record
      simp only [yields_bind_iff, yields_slotOf_iff, yields_pure_iff, Prod.mk.injEq] at found
      obtain ⟨start, _, ⟨placed, rfl⟩, ⟨rfl, rfl, rfl⟩, rfl⟩ := found
      obtain rfl := Ty.eq_of_record? record
      have assigned : own.isAssigned = true := by simp [Storage.isAssigned, placed]
      have slot :
          own = ⟨.slot start, (Ty.record shape').size⟩ := by rw [← owns.sized assigned, ← placed]
      rw [slot] at near
      refine .then (clean_planMembers near ?_ _ _) ?_
      · intro member among
        obtain ⟨field, offset⟩ := member
        exact Record.le_size_of_mem (List.of_mem_zip among).2
      · intro planned _
        exact .then (fun _ => clean_clearGap near (Nat.le_refl _)) fun _ => clean_pure _

theorem clean_planApplication (shape : Shape operator args) (typed : info.type = some type)
    (suits : request.Suits (apply operator args info) stream) :
    Clean ((apply operator args info).planApplication request) ⟨stream, {}⟩ := by
  cases shape with
  | dot named =>
      refine clean_planned rfl (.then (clean_liftExcept (flawless_ok _)) ?_)
      intro base _
      split <;> exact clean_pure _ _
  | structLiteral some => exact clean_planned rfl (clean_planStructLiteral typed suits)
  | subscript collection key => exact clean_planned rfl (clean_planSubscript request _)
  | assign value targets => exact clean_planned rfl (clean_planAssign suits.small)
  | deref _ | delete _ | strcmp _ _ | mem _ _ | str _ _ => exact clean_planned rfl (clean_pure _ _)

theorem clean_emitStructLiteral (held : (apply ":struct" trees info).Held)
    (stored : ∀ tree ∈ trees, tree.storage.Near) (site : Site) :
    Clean (emitStructLiteral (apply ":struct" trees info)) site := by
  refine .bind (clean_knownType _ _) ?_
  intro type _ found
  obtain ⟨known, rfl⟩ := yields_liftExcept_iff.mp found
  refine .bind (clean_slotOf _ _ _) ?_
  intro base _ found
  obtain ⟨placed, rfl⟩ := yields_slotOf_iff.mp found
  split
  · exact clean_throw _ _
  · rename_i shape record
    obtain rfl := Ty.eq_of_record? record
    have slot : (apply ":struct" trees info).storage =
        ⟨.slot base, (apply ":struct" trees info).storage.size⟩ := by rw [← placed]
    have near := held.near_of_slot (knownType_eq_ok_iff.mp known) slot (Nat.le_refl _)
    exact clean_copyMembers near stored (fun _ => Record.le_size_of_mem) _

/-- What is allocated for a node lies in the frame if there is room for what is
asked of it. -/
theorem near_of_allocateFor {own : Storage} (suits : request.Suits node stream)
    (typed : node.type? = some type)
    (found : Yields (allocateFor node request) ⟨stream, {}⟩ own site) : own.Near := by
  obtain ⟨-, extended, owns, -⟩ := owns_of_allocateFor typed found
  exact (suits.fit typed (fun _ => owns.sized) owns.obeyed).near extended owns

/-- What an application does behind its arguments is clean if their values are in
the frame, and so is what it allocates. -/
theorem clean_finishApplication (shape : Shape operator trees)
    (shaped : ∀ tree ∈ trees, tree.Shaped) (typed : info.type = some type) {own : Storage}
    (small : stream.limit ≤ 32767) (held : ∀ tree ∈ trees, tree.Held)
    (inner : ∀ tree ∈ trees, ∀ arg ∈ tree.args, arg.storage.Near)
    (room : reserves operator = false →
      request.Suits (apply operator trees { info with storage := own }) stream ∧ own = {})
    (reserved : operator = ":struct" → (apply operator trees { info with storage := own }).Held)
    (rule : operator = "[]" → request.target = false →
      Rule Registry.Literal operator trees type) :
    Clean ((apply operator trees { info with storage := own }).finishApplication symbols request)
      ⟨stream, own⟩ := by
  cases shape with
  | dot named => exact clean_finished rfl (clean_emitDot small (held _ List.mem_cons_self))
  | deref pointer => exact clean_finished rfl (clean_emitDeref small)
  | structLiteral some =>
      have near : ∀ tree ∈ trees, tree.storage.Near := fun tree member => (held tree member).near
      exact clean_finished rfl (clean_emitStructLiteral (reserved rfl) near _)
  | subscript collection key =>
      obtain ⟨suits, rfl⟩ := room rfl
      refine clean_finished rfl (clean_emitSubscript small typed held
        (fun _ _ => near_of_allocateFor suits typed) ?_)
      intro read element length known position number
      obtain ⟨_, _, same, -, elements⟩ := (rule rfl read).subscript rfl rfl
      rw [known] at same
      cases same
      obtain ⟨rfl, -, inside⟩ := elements
      rw [Ty.size, Nat.mul_comm type.size]
      exact Nat.mul_le_mul_right _ (inside position number)
  | @assign target value targets =>
      obtain ⟨collection, key, arguments⟩ := (shaped _ List.mem_cons_self).element_args targets
      have there : 0 < target.args.length := arguments ▸ Nat.zero_lt_succ [key].length
      have stored := held value (List.mem_cons_of_mem _ List.mem_cons_self)
      have clean :
          Clean (emitAssign symbols (apply "=" [target, value] { info with storage := own }))
          ⟨stream, own⟩ := clean_emitAssign small there (inner _ List.mem_cons_self) stored
      exact clean_finished rfl clean
  | @delete target targets =>
      obtain ⟨collection, key, arguments⟩ := (shaped _ List.mem_cons_self).element_args targets
      have there : 0 < target.args.length := arguments ▸ Nat.zero_lt_succ [key].length
      exact clean_finished rfl (clean_emitDelete small there (inner _ List.mem_cons_self))
  | strcmp left right => exact clean_finished rfl (clean_emitStrcmp small held)
  | mem source _ => exact clean_finished rfl (clean_emitMem small)
  | str source _ =>
      obtain ⟨suits, rfl⟩ := room rfl
      exact clean_finished rfl (clean_emitStr small fun _ _ => near_of_allocateFor suits typed)

/-- What a plan leaves behind: room for what is asked of the arguments, and the
slot of a struct literal. -/
structure Planned (operator : String) (args : List Node) (info : Info) (request : Request)
    (stream : Stream) (plan : Plan) (site : Site) : Prop where
  extended : ∃ added, stream.Extends site.stream added
  suits : ∀ (index : Nat) (arg : Node) (asked : Request), args[index]? = some arg →
    plan.args[index]? = some asked → asked.Suits arg site.stream
  passive : reserves operator = false → plan.Passive request ∧ site.own = {}
  held : operator = ":struct" → ∀ trees,
    (apply operator trees { info with storage := site.own }).Held

/-- Members lie inside the slot of their struct literal. -/
theorem planned_structLiteral (typed : info.type = some type)
    (rule : Rule Registry.Literal ":struct" args type)
    (free : ∀ arg ∈ args, arg.storage.isAssigned = false)
    (suits : request.Suits (apply ":struct" args info) stream)
    (found : Yields ((apply ":struct" args info).planApplication request) ⟨stream, {}⟩ plan site) :
    Planned ":struct" args info request stream plan site := by
  obtain ⟨members, known, name, rfl⟩ := rule.members rfl
  obtain ⟨shape, base, moves, same, whole, moved, owns, asks, -, -⟩ :=
    reserved_structLiteral typed free found
  obtain rfl := Ty.record.inj same
  have fit := suits.fit typed (fun _ => owns.sized) owns.obeyed
  have near := fit.near moved.extended owns
  have small := (whole ▸ near).size_le
  refine ⟨⟨_, moved.extended⟩, ?_, fun other => (by cases other),
    fun _ trees => ⟨near, ?_, fun value text => (by cases text)⟩⟩
  · intro index arg asked here there
    obtain ⟨field, distance, place, member, reached, rfl, same, real⟩ :=
      (asks index asked there).asked known rfl here
    refine ⟨moved.extended.limit ▸ fit.small, moved.extended.fits fit.fits, ?_⟩
    intro slot other chosen typed
    cases chosen
    rw [same] at typed
    cases typed
    refine ⟨real, fun position covers => fit.bounds moved.extended owns ?_⟩
    rw [whole]
    exact covers_of_part reached (Record.bounds_of_mem (List.mem_of_getElem? member)) small
      (Storage.covers_slot.mpr covers)
  · intro other same _ assigned
    obtain rfl : _ = other := Option.some.inj (typed.symm.trans same)
    exact owns.sized assigned

/-- Target and value are put where the assignment is, which has no value of its
own and is not asked anywhere. -/
theorem planned_assign {target value : Node} (typed : info.type = some type)
    (rule : Rule Registry.Literal "=" [target, value] type)
    (suits : request.Suits (apply "=" [target, value] info) stream)
    (found : Yields ((apply "=" [target, value] info).planApplication request)
      ⟨stream, {}⟩ plan site) :
    Planned "=" [target, value] info request stream plan site := by
  obtain ⟨targetType, valueType, known, known', real, real', rfl⟩ := rule.assigned rfl rfl
  obtain ⟨_, _, slot, same, same', whole, extended, owns, asks⟩ := reserved_assign found
  rw [known] at same
  rw [known'] at same'
  cases same
  cases same'
  have free : request.slot = none := by
    cases chosen : request.slot with
    | none => rfl
    | some slot => exact absurd rfl (suits.inside slot _ chosen typed).1
  have fit : Fit Registry.Literal request stream site.own :=
    suits.fit typed (fun chosen => absurd free chosen) owns.obeyed
  have inside {type : Ty} (real : type ≠ .void) (sizes : type.size = targetType.size) :
      type ≠ .void ∧ ∀ position, Slot slot type.size position →
        -(site.stream.used : Int) ≤ position ∧ position < 0 := by
    refine ⟨real, fun position covers => fit.bounds extended owns ?_⟩
    rw [whole]
    exact Storage.covers_slot.mpr (sizes ▸ covers)
  have small := extended.limit ▸ fit.small
  have fits := extended.fits fit.fits
  refine ⟨⟨_, extended⟩, ?_, fun other => (by cases other),
    fun literal => absurd literal (by decide)⟩
  intro index arg asked here there
  rw [asks] at there
  obtain _ | _ | index := index
  · cases here
    cases there
    refine ⟨small, fits, ?_⟩
    intro place type chosen typed
    cases chosen
    rw [known] at typed
    cases typed
    exact inside real rfl
  · cases here
    cases there
    split
    · rename_i sizes
      refine ⟨small, fits, ?_⟩
      intro place type chosen typed
      cases chosen
      rw [known'] at typed
      cases typed
      exact inside real' sizes
    · exact .of_free small fits rfl
  · cases here

theorem planned_of_yields (shape : Shape operator args) (typed : info.type = some type)
    (rule : operator ≠ "[]" → Rule Registry.Literal operator args type)
    (free : ∀ arg ∈ args, arg.storage.isAssigned = false)
    (suits : request.Suits (apply operator args info) stream)
    (found : Yields ((apply operator args info).planApplication request) ⟨stream, {}⟩ plan site) :
    Planned operator args info request stream plan site := by
  by_cases reserving : reserves operator = true
  · cases shape with
    | structLiteral some => exact planned_structLiteral typed (rule (by decide)) free suits found
    | assign value targets => exact planned_assign typed (rule (by decide)) suits found
    | _ => cases reserving
  · have other : reserves operator = false := Bool.not_eq_true _ ▸ reserving
    obtain ⟨passive, rfl⟩ := passive_of_plan shape other found
    refine ⟨⟨[], .refl stream⟩, ?_, fun _ => ⟨passive, rfl⟩, ?_⟩
    · intro index arg asked _ there
      exact .of_free suits.small suits.fits (passive.free asked (List.mem_of_getElem? there))
    · rintro rfl
      cases other

/-- Whatever the arguments hold is in the frame. -/
theorem near_of_composed {moves : List Move}
    (composed : ComposedAll Registry.Literal args plan.args stream trees middle moves)
    (supplied : Supplied plan args trees) (typed : ∀ arg ∈ args, ∃ type, arg.type? = some type)
    (small : stream.limit ≤ 32767) (fits : stream.used ≤ stream.limit)
    (suits : ∀ (index : Nat) (arg : Node) (asked : Request), args[index]? = some arg →
      plan.args[index]? = some asked → asked.Suits arg stream) :
    ∀ tree ∈ trees, ∀ part, PartOf part tree → part.storage.Near := by
  have fit : FitAll Registry.Literal plan.args stream trees fun position =>
      -(stream.used : Int) ≤ position ∧ position < 0 := by
    refine ⟨small, fits, ?_, fun _ _ => id⟩
    intro index tree asked here there position claims
    have inside : index < args.length := by
      rw [length_of_bares supplied.bares]
      exact (List.getElem?_eq_some_iff.mp here).1
    have arg := List.getElem?_eq_getElem inside
    obtain ⟨type, known⟩ := typed _ (List.getElem_mem inside)
    have room := suits index _ asked arg there
    have placed := supplied.placed index tree asked here there
    have fit := room.fit known (fun chosen assigned => ?_) placed.obeyed
    · exact ⟨fit.inside position claims, fit.inside position claims⟩
    · obtain ⟨slot, same⟩ := Option.ne_none_iff_exists'.mp chosen
      exact placed.sized type ((supplied.types index _ tree arg here).trans known)
        (room.inside slot type same known).1 assigned
  have extended := composed.moved.extended
  have limit := extended.limit
  have used := extended.used
  have last := extended.fits fits
  intro tree member part inside position covers
  rcases composed.parts _ fit tree member part inside position covers with ⟨low, high⟩ | ⟨low, high⟩
  · exact ⟨by omega, by omega⟩
  · exact ⟨by omega, high⟩

theorem held_of_near (supplied : Supplied plan args trees)
    (near : ∀ tree ∈ trees, ∀ part, PartOf part tree → part.storage.Near) :
    ∀ tree ∈ trees, tree.Held := by
  intro tree member
  obtain ⟨asked, -, placed⟩ := supplied.placed_of_mem member
  exact ⟨near tree member tree .root, placed.toStored⟩

/-- A tree is emitted without a defect wherever there is room for what is asked of
it. -/
def Faultless (symbols typing : Symbols) (node : Node) : Prop :=
  ∀ (role : Role) (request : Request) (stream : Stream),
    Emittable Registry.Literal typing role node → (role = .target → request.target = true) →
      request.Suits node stream → Flawless (emit symbols node request stream).outcome

theorem flawless_emitAll {requests : List Request} {roles : Nat → Role}
    (each : ∀ arg ∈ args, Faultless symbols typing arg)
    (emittable : ∀ (index : Nat) (arg : Node), args[index]? = some arg →
      Emittable Registry.Literal typing (roles index) arg)
    (targets : ∀ (index : Nat) (asked : Request), requests[index]? = some asked →
      roles index = .target → asked.target = true)
    (suits : ∀ (index : Nat) (arg : Node) (asked : Request), args[index]? = some arg →
      requests[index]? = some asked → asked.Suits arg stream) :
    Flawless (emitAll symbols args requests stream).outcome := by
  -- Each tree is emitted if those before it were.
  induction args generalizing roles requests stream with
  | nil => cases requests <;> exact flawless_ok ()
  | cons arg args ih =>
      cases requests with
      | nil => exact flawless_ok ()
      | cons asked requests =>
          have first := each arg List.mem_cons_self (roles 0) asked stream (emittable 0 arg rfl)
            (targets 0 asked rfl) (suits 0 arg asked rfl rfl)
          rw [emitAll]
          rcases head : emit symbols arg asked stream with ⟨tree, middle, outcome⟩
          rw [head] at first
          cases outcome with
          | error fault => exact first
          | ok value =>
              obtain ⟨moves, composed⟩ :=
                composes arg _ asked stream tree middle (emittable 0 arg rfl) head
              apply ih
              · intro other member
                exact each other (List.mem_cons_of_mem _ member)
              · intro index other found
                exact emittable (index + 1) other found
              · intro index other found
                exact targets (index + 1) other found
              · intro index other asked here there
                exact (suits (index + 1) other asked here there).later composed.moved.extended

/-- An application is emitted without a defect if its plan, its arguments and its
own code are. -/
theorem flawless_emit_apply (planned : Clean ((apply operator args info).planApplication request)
      ⟨stream, info.storage⟩)
    (inner : ∀ plan site, Yields ((apply operator args info).planApplication request)
      ⟨stream, info.storage⟩ plan site →
      Flawless (emitAll symbols args plan.args site.stream).outcome)
    (finished : ∀ plan site trees middle,
      Yields ((apply operator args info).planApplication request)
      ⟨stream, info.storage⟩ plan site → EmitsAll symbols args plan.args site.stream trees middle →
        Clean ((apply operator trees { info with storage := site.own }).finishApplication symbols
          plan.own) ⟨middle, site.own⟩) :
    Flawless (emit symbols (apply operator args info) request stream).outcome := by
  apply flawless_iff.mpr
  apply faults_emit_apply (flawless_iff.mp planned)
  · intro plan site found
    exact flawless_iff.mp (inner plan site found)
  · intro plan site trees middle found emits
    exact flawless_iff.mp (finished plan site trees middle found emits)

theorem faultless (node : Node) : Faultless symbols typing node := by
  induction node using induct with
  | leaf node leaf =>
      intro role request stream emittable _ suits
      obtain ⟨type, typed⟩ := typed_of_sound emittable.sound.here
      have fresh : node.storage = {} := emittable.unstored node .root
      have clean : Clean (AtSite.leaf symbols node request) ⟨stream, node.storage⟩ := by
        refine clean_leaf suits.small symbols node request ?_
        intro own finish found
        rw [fresh] at found
        have framed : request.onFrame.Suits node stream := suits.alike rfl rfl
        exact near_of_allocateFor framed typed found
      cases node with
      | apply _ _ _ => cases leaf
      | ident _ _ | str _ _ | num _ _ _ => exact clean
  | apply operator args info ih =>
      intro role request stream emittable target suits
      obtain ⟨type, typed⟩ := typed_of_sound emittable.sound.here
      have typed : info.type = some type := typed
      have shape := emittable.shaped operator args info .root
      have fresh : info.storage = {} := emittable.unstored _ .root
      have free := emittable.unstored.args_free
      have rule := emittable.rule typed
      refine flawless_emit_apply ?_ ?_ ?_ <;> rw [fresh]
      · exact clean_planApplication shape typed suits
      · intro plan site found
        have planned := planned_of_yields shape typed rule free suits found
        exact flawless_emitAll ih (fun index arg here => emittable.arg here)
          (fun index asked there => target_of_plan shape found there) planned.suits
      · intro plan site trees middle found emitted
        have planned := planned_of_yields shape typed rule free suits found
        have lengths := length_of_plan found
        obtain ⟨moves, composed⟩ := composesAll (fun arg _ => composes arg)
          (fun index arg here => emittable.arg here) lengths
          (fun index asked there => target_of_plan shape found there) emitted
        have supplied := supplied_of_composed lengths composed
        obtain ⟨added, extended⟩ := planned.extended
        have small := extended.limit ▸ suits.small
        have near := near_of_composed composed supplied
          (fun arg member => by
            obtain ⟨index, here⟩ := List.mem_iff_getElem?.mp member
            exact typed_of_sound (emittable.arg here).sound.here)
          small (extended.fits suits.fits) planned.suits
        refine clean_finishApplication (shape.of_bares supplied.bares) ?_ typed
          (composed.moved.extended.limit ▸ small) (held_of_near supplied near) ?_ ?_
          (fun literal => planned.held literal trees) ?_
        · intro tree member
          have listed : tree.bare ∈ args.map bare := by
            have among : tree.bare ∈ trees.map bare := List.mem_map_of_mem member
            rwa [← supplied.bares] at among
          obtain ⟨arg, among, same⟩ := List.mem_map.mp listed
          exact (emittable.shaped.arg among).of_bare same.symm
        · intro tree member arg inside
          exact near tree member arg (.of_arg inside)
        · intro other
          obtain ⟨passive, free⟩ := planned.passive other
          refine ⟨?_, free⟩
          exact ((suits.later extended).later composed.moved.extended).alike passive.slot rfl
        · intro element read
          rcases emittable.ruled typed with rule | ⟨rfl, -, -⟩
          · exact rule.follows supplied.follows
          · have target := target rfl
            rw [← (planned.passive (element ▸ rfl)).1.target, read] at target
            cases target

end Node

end TraceProbe
