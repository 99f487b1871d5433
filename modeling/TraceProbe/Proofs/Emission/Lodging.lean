import TraceProbe.Proofs.Emission.Carrying
import TraceProbe.Proofs.Emission.Workable

/-!
# Values in their places

What an operator appends when the values of its arguments are where they were
asked: the steps find them there, and leave the value of the operator behind.
-/

namespace TraceProbe

namespace AtSite

open Node

variable {symbols : Symbols} {node map key : Node} {site : Site} {dst src own : Storage}
  {type keyType : Ty} {inFrame : Bool} {info : Info} {operator : String}

theorem steady_convert (into : dst.Carries type true) (carries : src.Carries keyType inFrame)
    (typed : node.type? = some keyType) (movable : Movable keyType.size type.size) :
    Steady (convert dst src node) := by
  unfold convert
  split
  · rename_i same
    exact steady_lift (Emit.tame_copyTo into carries same)
  · rename_i other
    obtain ⟨wide, wide'⟩ := movable.resolve_left fun same =>
      other (by rw [into.sized, carries.sized, same])
    have moved (signed : Bool) : Steady (do
        Emit.loadWidened .r0 src signed
        Emit.storeReg dst .r0 : AtSite Unit) :=
      (steady_lift (Emit.tame_loadWidened carries.isAssigned (carries.sized ▸ wide) _ _)).bind
          fun _ =>
        steady_lift (Emit.tame_storeReg into.isAssigned (into.sized ▸ wide') _)
    dsimp only
    split
    · exact Steady.bind_known (knownType_eq_ok_iff.mpr typed) (moved _)
    · exact moved _

theorem steady_move (into : dst.Carries type true) (carries : src.Carries keyType inFrame)
    (typed : node.type? = some keyType) (movable : Movable keyType.size type.size) :
    Steady (move dst src node) := by
  have converted := steady_convert into carries typed movable
  unfold move
  split
  · exact (steady_reach _).bind fun _ => converted
  · exact converted

/-- A subscript of a named map whose key is in the frame and can be moved to where
the map wants it. -/
structure Addressed (symbols : Symbols) (map key : Node) : Prop where
  names : map.NamesMap symbols
  fits : ∃ wanted value kind keyType, map.type? = some (.map wanted value kind) ∧
    key.type? = some keyType ∧ 0 < keyType.size ∧ key.storage.Carries keyType true ∧
      Movable keyType.size wanted.size

theorem steady_keySlot (addressed : Addressed symbols map key) :
    Steady (keySlot (apply operator [map, key] info)) := by
  obtain ⟨wanted, value, kind, keyType, mapKnown, keyKnown, some, carries, movable⟩ :=
    addressed.fits
  unfold keySlot
  refine Steady.bind_known (knownType_eq_ok_iff.mpr mapKnown) ?_
  dsimp only
  split
  · exact steady_pure _
  · intro site
    have placed : Leads (fun storage finish => finish.labels = site.stream.labels ∧
        storage.Carries wanted true) (Emit.storageFor {} wanted .frame) site.stream := by
      refine (Emit.leads_freshPlace wanted .frame site.stream).bind ?_
      intro place middle placed
      exact leads_pure ⟨placed.1, placed.2 (movable.positive some)⟩
    refine (leads_lift placed).bind ?_
    intro storage middle placed
    obtain ⟨same, labels, into⟩ := placed
    obtain ⟨offset, there⟩ := into.slot
    have rest : Steady (do
        move storage key.storage key
        slotOf storage "map key not on the stack") :=
      (steady_move into carries keyKnown movable).bind fun _ => steady_slotOf there _
    exact (rest middle).mono fun _ _ later => ⟨later.1.trans same, later.2.trans labels⟩

theorem mapNumber_of_namesMap (names : map.NamesMap symbols) :
    ∃ number, mapNumber symbols map = .ok number := by
  obtain ⟨name, symbol, named, known, numbered⟩ := names
  obtain ⟨number, numbered⟩ := Option.isSome_iff_exists.mp numbered
  refine ⟨number, ?_⟩
  unfold mapNumber
  rw [named]
  simp only [known, Option.bind_some, numbered]

section Labels

variable {β : Type} {labels : Array Bool} {post : β → Site → Prop}

theorem leads_freshLabel {next : Label → AtSite β}
    (here : site.own = own ∧ site.stream.labels = labels)
    (rest : ∀ label middle, label.index = labels.size →
      middle.own = own ∧ middle.stream.labels = labels.push false →
      Leads post (next label) middle) :
    Leads post ((liftM Emit.freshLabel : AtSite Label) >>= next) site := by
  have fresh : Leads (fun label finish => label.index = site.stream.labels.size ∧
      finish.labels = site.stream.labels.push false) Emit.freshLabel site.stream :=
    leads_of_yields (Emit.yields_freshLabel_iff.mpr ⟨rfl, rfl⟩) ⟨rfl, rfl⟩
  refine (leads_lift fresh).bind ?_
  intro label middle handed
  obtain ⟨same, index, pushed⟩ := handed
  exact rest label middle (here.2 ▸ index) ⟨same.trans here.1, here.2 ▸ pushed⟩

theorem leads_bind_label {label : Label} (here : site.own = own ∧ site.stream.labels = labels)
    (free : labels[label.index]? = some false) :
    Leads (fun _ finish => finish.own = own ∧
      finish.stream.labels = labels.setIfInBounds label.index true)
      (liftM (Emit.bind label) : AtSite Unit) site := by
  obtain ⟨rfl, rfl⟩ := here
  have bound :
      Leads (fun _ finish => finish.labels = site.stream.labels.setIfInBounds label.index true)
      (Emit.bind label) site.stream :=
    leads_of_yields (show Yields (Emit.bind label) site.stream () _ from
      Emit.yields_bind_label_iff.mpr ⟨free, rfl⟩) rfl
  exact leads_lift bound

end Labels

theorem leads_emitLookup (addressed : Addressed symbols map key) (owned : own.Carries type true) :
    Leads (fun _ finish => finish.own = site.own)
      (emitLookup symbols (apply operator [map, key] info) own) site := by
  obtain ⟨number, numbered⟩ := mapNumber_of_namesMap addressed.names
  obtain ⟨offset, placed⟩ := owned.slot
  unfold emitLookup
  refine .bind_known (rfl : Node.argument _ 0 = .ok map) (.bind_known numbered ?_)
  refine (steady_keySlot addressed).then ⟨rfl, rfl⟩ ?_
  intro _ _ here
  refine (steady_slotOf placed _).then here fun _ _ here =>
    (steady_insn _).then here fun _ _ here => (steady_code _).then here fun _ _ here =>
      (steady_insn _).then here ?_
  intro _ _ here
  refine leads_freshLabel here fun miss _ first here => leads_freshLabel here ?_
  intro hit _ second here
  refine (steady_insn _).then here fun _ _ here =>
    (steady_lift (Emit.tame_readFrom owned _)).then here fun _ _ here =>
      (steady_insn _).then here ?_
  intro _ _ here
  refine (leads_bind_label here ?_).bind fun _ _ here =>
    (steady_clear _ _).then here fun _ _ here =>
    (leads_bind_label here ?_).mono fun _ _ same => same.1
  · grind
  · grind

theorem steady_emitUpdate (addressed : Addressed symbols map key)
    (assigned : info.storage.Carries type true) :
    Steady (emitUpdate symbols (apply operator [map, key] info)) := by
  obtain ⟨number, numbered⟩ := mapNumber_of_namesMap addressed.names
  obtain ⟨offset, placed⟩ := assigned.slot
  unfold emitUpdate
  refine .bind_known (rfl : Node.argument _ 0 = .ok map) (.bind_known numbered ?_)
  refine (steady_keySlot addressed).bind fun _ =>
    (steady_slotOf placed _).bind fun _ => (steady_insn _).bind fun _ =>
      (steady_code _).bind fun _ =>
      (steady_code _).bind fun _ => (steady_insn _).bind fun _ => steady_insn _

theorem steady_emitDelete (addressed : Addressed symbols map key)
    (deletes : node.args = [apply operator [map, key] info]) :
    Steady (emitDelete symbols node) := by
  obtain ⟨number, numbered⟩ := mapNumber_of_namesMap addressed.names
  unfold emitDelete
  refine .bind_known (show node.argument 0 = .ok _ by rw [Node.argument, deletes]; rfl) ?_
  refine .bind_known (rfl : Node.argument _ 0 = .ok map) (.bind_known numbered ?_)
  exact (steady_keySlot addressed).bind fun _ =>
    (steady_insn _).bind fun _ => (steady_code _).bind fun _ => steady_insn _

theorem tolerable_movedOffset (base : Int16) (distance : Nat) :
    Faults Fault.Tolerable (movedOffset base distance) := by
  unfold movedOffset
  dsimp only
  split
  · exact faults_ok _
  · exact faults_error (tolerable_defect _)

theorem tolerable_elementOffset (position : UInt64) (size : Nat) :
    Faults Fault.Tolerable (elementOffset position size) := by
  unfold elementOffset
  dsimp only
  split
  · exact faults_ok _
  · exact faults_error (tolerable_defect _)

section Elements

variable {array pointer index : Node} {position : UInt64} {element pointed : Ty}

theorem steady_emitArrayElement (number : index.num? = some position)
    (base : array.storage.Carries element true) (owned : own.Carries type inFrame) :
    Steady (emitArrayElement (apply operator [array, index] info) own) := by
  obtain ⟨offset, placed⟩ := base.slot
  unfold emitArrayElement
  rw [show subscriptParts (apply operator [array, index] info) = pure (array, index) from rfl,
    pure_bind]
  dsimp only
  rw [number]
  have part (offset : Int16) : Storage.Carries ⟨.slot offset, own.size⟩ type true :=
    ⟨owned.sized, .inl ⟨offset, rfl⟩⟩
  refine (steady_slotOf placed _).bind ?_
  intro _
  refine (steady_liftExcept (tolerable_elementOffset _ _)).bind ?_
  intro distance
  refine (steady_liftExcept (tolerable_movedOffset _ _)).bind ?_
  intro offset
  refine (steady_reach _).bind ?_
  intro _
  exact steady_lift (Emit.tame_copyTo owned (part offset) rfl)

/-- An element behind a pointer that is reached by a number or by a scalar. -/
theorem steady_emitPointerElement (points : pointer.storage.Carries (.pointer pointed) inFrame)
    (indexed : index.num? = none → ∃ kind, index.storage.Carries (.scalar kind) inFrame)
    (owned : own.Carries type true) :
    Steady (emitPointerElement (apply operator [pointer, index] info) own) := by
  have read : Steady (liftM (Emit.readFrom own .r3) : AtSite Unit) :=
    steady_lift (Emit.tame_readFrom owned _)
  have loaded {storage : Storage} {type : Ty} (carries : storage.Carries type inFrame)
      (word : type.isWord = true) (reg : Reg) :
      Steady (liftM (Emit.loadReg reg storage) : AtSite Unit) :=
    steady_lift
        (Emit.tame_loadReg carries.isAssigned (carries.sized ▸ isSome_ofBytes?_of_isWord word) reg)
  unfold emitPointerElement
  rw [show subscriptParts (apply operator [pointer, index] info) = pure (pointer, index) from rfl,
    pure_bind]
  dsimp only
  refine (loaded points rfl _).bind ?_
  intro _
  split
  · split
    · exact (steady_throw (actionable_unsupported _ _).tolerable).bind fun _ => read
    · split
      · exact (steady_insn _).bind fun _ => read
      · exact read
  · rename_i none
    obtain ⟨kind, carries⟩ := indexed none
    exact (loaded carries rfl _).bind fun _ => (steady_insn _).bind fun _ =>
      (steady_insn _).bind fun _ => read

end Elements

section Records

variable {base pointer : Node} {pointed record : Ty} {rest : List Node}

theorem steady_readMember (dereferences : base.args = pointer :: rest)
    (points : pointer.storage.Carries (.pointer pointed) inFrame) (owned : own.Carries type true)
    (offset : Nat) : Steady (readMember base own offset) := by
  have read : Steady (liftM (Emit.readFrom own .r3) : AtSite Unit) :=
    steady_lift (Emit.tame_readFrom owned _)
  have wide : (Width.ofBytes? pointer.storage.size).isSome = true :=
    points.sized ▸ isSome_ofBytes?_of_isWord rfl
  unfold readMember
  rw [dereferences]
  dsimp only
  refine (steady_lift (Emit.tame_loadReg points.isAssigned wide _)).bind ?_
  intro _
  split
  · exact (steady_insn _).bind fun _ => read
  · exact read

theorem steady_takeMember (held : base.storage.Carries record true)
    (owned : own.Carries type inFrame) (offset : Nat) : Steady (takeMember base own offset) := by
  obtain ⟨start, placed⟩ := held.slot
  unfold takeMember
  refine (steady_slotOf placed _).bind ?_
  intro _
  refine (steady_liftExcept (tolerable_movedOffset _ _)).bind ?_
  intro place
  split
  · rename_i reg register
    exact (steady_lift (Emit.tame_accessWidth (owned.wide register) _)).bind fun _ => steady_insn _
  · rename_i other
    have inFrame : own.Carries type true := by
      refine ⟨owned.sized, owned.placed.imp_right ?_⟩
      intro word
      obtain ⟨⟨reg, register⟩, -⟩ := word
      exact absurd register (other reg)
    exact (steady_code _).bind fun _ => steady_lift (Emit.tame_readFrom inFrame _)

theorem steady_clearGap (base : Int16) (start stop : Nat) : Steady (clearGap base start stop) := by
  unfold clearGap
  split
  · exact (steady_liftExcept (tolerable_movedOffset _ _)).bind fun _ => steady_clear _ _
  · exact steady_pure _

/-- Every argument of a struct literal is asked somewhere. -/
theorem leads_planMembers (base : Int16) (stop : Nat)
    {members : List (Field × Nat)} {args : List Node}
    (enough : args.length ≤ members.length) (site : Site) :
    Leads (fun planned finish => finish.own = site.own ∧ planned.1.length = args.length ∧
      ∀ asked ∈ planned.1, asked.memberOnly = false)
      (planMembers base stop members args) site := by
  induction args generalizing members stop site with
  | nil =>
      cases members <;> exact leads_pure ⟨rfl, rfl, fun _ member => by cases member⟩
  | cons arg args ih =>
      cases members with
      | nil => cases enough
      | cons member members =>
          obtain ⟨field, offset⟩ := member
          rw [planMembers]
          have rest (request : Request) (plain : request.memberOnly = false)
              {middle : Site} (same : middle.own = site.own) :
              Leads (fun planned finish => finish.own = site.own ∧
                planned.1.length = (arg :: args).length ∧
                ∀ asked ∈ planned.1, asked.memberOnly = false) (do
                  let planned ← planMembers base (offset + field.type.size) members args
                  return (request :: planned.1, planned.2)) middle := by
            refine (ih _ (Nat.le_of_succ_le_succ enough) middle).bind ?_
            intro planned last found
            refine leads_pure ⟨found.1.trans same, congrArg (· + 1) found.2.1, ?_⟩
            intro asked member
            rcases List.mem_cons.mp member with rfl | later
            · exact plain
            · exact found.2.2 asked later
          refine (steady_clearGap _ _ _ site).bind ?_
          intro _ first same
          dsimp only
          split
          · exact rest {} rfl same.1
          · refine (steady_liftExcept (tolerable_movedOffset _ _) first).bind ?_
            intro place second later
            exact rest (Request.inSlot place) rfl (later.1.trans same.1)

theorem steady_copyMembers (base : Int16) {args : List Node} {offsets : List Nat}
    (held : ∀ arg ∈ args, ∃ type inFrame, arg.storage.Carries type inFrame) :
    Steady (copyMembers base args offsets) := by
  induction args generalizing offsets with
  | nil => cases offsets <;> exact steady_pure _
  | cons arg args ih =>
      cases offsets with
      | nil => exact steady_pure _
      | cons offset offsets =>
          obtain ⟨type, inFrame, carries⟩ := held arg List.mem_cons_self
          refine (steady_liftExcept (tolerable_movedOffset _ _)).bind ?_
          intro place
          refine (steady_reach _).bind ?_
          intro _
          refine (steady_lift (Emit.tame_copyToSlot carries _)).bind ?_
          intro _
          exact ih fun other member => held other (List.mem_cons_of_mem _ member)

end Records

section Strings

variable {left right source : Node} {rest : List Node} {request : Request} {address : Ty}

theorem tolerable_subtract (comparand : Comparand) (dst : Reg) (position : Nat) :
    Faults Fault.Tolerable (comparand.subtract dst position) := by
  cases comparand with
  | slot offset => exact (tolerable_movedOffset _ _).bind fun _ _ => faults_ok _
  | literal bytes => exact faults_ok _

theorem tolerable_compareFrom (comparand : Comparand) (dst : Reg) (base : Int16) (done : Label)
    (position left : Nat) :
    Faults Fault.Tolerable (comparand.compareFrom dst base done position left) := by
  induction left generalizing position with
  | zero => exact faults_ok _
  | succ left ih =>
      rw [Comparand.compareFrom]
      refine (tolerable_movedOffset _ _).bind ?_
      intro place _
      refine (tolerable_subtract _ _ _).bind ?_
      intro difference _
      dsimp only
      split
      · exact faults_ok _
      · exact (ih _).bind fun rest _ => faults_ok _

/-- An operand of a comparison: a literal, or a string in the frame. -/
def ComparisonSide (node : Node) : Prop :=
  (∃ type, node.type? = some type) ∧
    (node.str? = none → ∃ type, node.storage.Carries type true)

theorem steady_comparandOf (comparable : ComparisonSide node) : Steady (comparandOf node) := by
  unfold comparandOf
  split
  · exact steady_pure _
  · rename_i plain
    obtain ⟨type, carries⟩ := comparable.2 plain
    obtain ⟨offset, placed⟩ := carries.slot
    exact (steady_slotOf placed _).bind fun _ => steady_pure _

/-- The operand that is taken first is no literal. -/
theorem leads_comparisonOperands (two : node.args = [left, right])
    (few : node.args.countP (·.str?.isSome) ≠ 2) (first : ComparisonSide left)
    (second : ComparisonSide right) (site : Site) :
    Leads (fun operands finish => finish = site ∧ operands.1.str? = none ∧
      ComparisonSide operands.1 ∧
      ComparisonSide operands.2.1) (comparisonOperands node) site := by
  unfold comparisonOperands
  rw [two] at few ⊢
  dsimp only
  split
  · rename_i literal
    refine leads_pure ⟨rfl, ?_, second, first⟩
    cases text : right.str? with
    | none => rfl
    | some value => simp [literal, text] at few
  · rename_i plain
    exact leads_pure ⟨rfl, by simpa using plain, first, second⟩

theorem leads_emitStrcmp (typed : node.type? = some .int) (two : node.args = [left, right])
    (few : node.args.countP (·.str?.isSome) ≠ 2) (first : ComparisonSide left)
    (second : ComparisonSide right) (free : site.own = {}) :
    Leads (fun _ finish => finish.own.Carries .int request.inFrame)
      (emitStrcmp node request) site := by
  unfold emitStrcmp
  refine (leads_allocateFor request typed free).bind ?_
  intro own _ allocated
  obtain ⟨owned, -, carries⟩ := allocated
  have carries := carries (by decide)
  have stored (reg : Reg) : Steady (liftM (Emit.storeReg own reg) : AtSite Unit) :=
    steady_lift (Emit.tame_storeReg carries.isAssigned (carries.sized ▸ rfl) reg)
  refine (leads_comparisonOperands two few first second _).bind ?_
  intro operands _ chosen
  obtain ⟨left, right, swapped⟩ := operands
  obtain ⟨rfl, plain, first, second⟩ := chosen
  obtain ⟨type, held⟩ := first.2 plain
  obtain ⟨offset, placed⟩ := held.slot
  obtain ⟨leftType, leftKnown⟩ := first.1
  obtain ⟨rightType, rightKnown⟩ := second.1
  refine (steady_slotOf placed _).then ⟨owned, rfl⟩ fun base _ here =>
    (steady_comparandOf second).then here ?_
  intro comparand _ here
  refine .bind_known (knownType_eq_ok_iff.mpr leftKnown)
    (.bind_known (knownType_eq_ok_iff.mpr rightKnown) ?_)
  refine leads_freshLabel here ?_
  intro done _ index here
  refine (steady_liftExcept (tolerable_compareFrom _ _ _ _ _ _)).then here fun code _ here =>
    (steady_code _).then here ?_
  intro _ _ here
  refine (leads_bind_label here (by simp [index])).bind ?_
  intro _ _ here
  dsimp only
  split
  · exact (steady_insn _).then here fun _ _ here => (stored _).last here carries
  · exact (stored _).last here carries

/-- A read of raw bytes at an address. -/
theorem leads_emitMem (typed : node.type? = some type) (some : 0 < type.size)
    (reads : node.args = source :: rest) (points : source.storage.Carries address inFrame)
    (wide : (Width.ofBytes? address.size).isSome = true) (framed : request.inFrame = true)
    (free : site.own = {}) :
    Leads (fun _ finish => finish.own.Carries type request.inFrame)
      (emitMem node request) site := by
  unfold emitMem
  refine (leads_allocateFor request typed free).bind ?_
  intro own _ allocated
  obtain ⟨owned, -, carries⟩ := allocated
  have carries := carries some
  have inFrame : own.Carries type true := framed ▸ carries
  refine .bind_known (show node.argument 0 = .ok source by rw [Node.argument, reads]; rfl) ?_
  exact (steady_lift (Emit.tame_loadReg points.isAssigned (points.sized ▸ wide) _)).then
    ⟨owned, rfl⟩
    fun _ _ here => (steady_lift (Emit.tame_readFrom inFrame _)).last here carries

theorem leads_emitStr (typed : node.type? = some type) (some : 0 < type.size)
    (reads : node.args = source :: rest) (points : source.storage.Carries address inFrame)
    (wide : (Width.ofBytes? address.size).isSome = true) (framed : request.inFrame = true)
    (free : site.own = {}) :
    Leads (fun _ finish => finish.own.Carries type request.inFrame)
      (emitStr node request) site := by
  unfold emitStr
  refine (leads_allocateFor request typed free).bind ?_
  intro own _ allocated
  obtain ⟨owned, -, carries⟩ := allocated
  have carries := carries some
  have inFrame : own.Carries type true := framed ▸ carries
  obtain ⟨offset, placed⟩ := inFrame.slot
  refine (steady_slotOf placed _).then ⟨owned, rfl⟩ ?_
  intro _ _ here
  refine (steady_clear _ _).then here ?_
  intro _ _ here
  refine .bind_known (show node.argument 0 = .ok source by rw [Node.argument, reads]; rfl) ?_
  exact (steady_lift (Emit.tame_loadReg points.isAssigned (points.sized ▸ wide) _)).then here
    fun _ _ here => (steady_code _).then here fun _ _ here =>
      (steady_insn _).then here fun _ _ here =>
      (steady_insn _).last here carries

end Strings

section Leaves

theorem steady_loadContext (owned : own.Carries type inFrame) (node : Node) (offset : Int16) :
    Steady (loadContext node own offset) := by
  unfold loadContext
  split
  · exact steady_insn _
  · rename_i wide
    exact (steady_insn _).bind fun _ =>
      steady_lift (Emit.tame_storeReg owned.isAssigned (by rw [wide]; rfl) _)
  · rename_i placed _
    have inFrame : own.Carries type true := ⟨owned.sized, .inl ⟨_, placed⟩⟩
    exact (steady_insn _).bind fun _ => (steady_insn _).bind fun _ =>
      steady_lift (Emit.tame_readFrom inFrame _)
  · rename_i registers slots slots'
    rcases owned.placed with ⟨offset, placed⟩ | ⟨⟨reg, placed⟩, -⟩
    · cases wide : Width.ofBytes? own.size with
      | none => exact absurd wide (slots' _ placed)
      | some width => exact absurd wide (slots _ _ placed)
    · obtain ⟨width, wide⟩ := Option.isSome_iff_exists.mp (owned.wide placed)
      exact absurd wide (registers _ _ placed)

end Leaves

end AtSite

end TraceProbe
