import TraceProbe.Proofs.Emission.Keys
import TraceProbe.Proofs.Emission.Texts
import TraceProbe.Proofs.Flawless

/-!
# Operators without defects

What an operator does before its arguments and behind them is clean if the
arguments that it looks at are there, and what they hold lies in the frame.
-/

namespace TraceProbe

/-- A value in the frame, or one that is not in the frame at all. -/
def Storage.Near (storage : Storage) : Prop :=
  ∀ position, storage.Covers position → -(32767 : Int) ≤ position ∧ position < 0

theorem Storage.Near.size_le {base : Int16} {size : Nat} (near : Storage.Near ⟨.slot base, size⟩) :
    size ≤ 32767 :=
  Storage.size_le near

/-- Positions up to the end of a value in the frame can be counted. -/
theorem Storage.Near.stop_lt {base : Int16} {size : Nat} (near : Storage.Near ⟨.slot base, size⟩) :
    base.toInt + size < 0x80000000 := by
  have small := near.size_le
  have high := Int16.toInt_lt base
  omega

theorem Storage.Near.copyEnd_lt {src : Storage} (near : src.Near) (dst : Storage) :
    Emit.copyEnd dst src < 0x80000000 := by
  obtain ⟨place, size⟩ := src
  unfold Emit.copyEnd
  split
  · rename_i target start into placed
    dsimp only at placed
    subst placed
    have small := near.size_le
    have high := Int16.toInt_lt target
    have high' := Int16.toInt_lt start
    dsimp only
    split <;> omega
  · decide

theorem Storage.Near.part {base : Int16} {size part : Nat} (near : Storage.Near ⟨.slot base, size⟩)
    (less : part ≤ size) : Storage.Near ⟨.slot base, part⟩ := by
  intro position covers
  obtain ⟨low, high⟩ := Storage.covers_slot.mp covers
  exact near position (Storage.covers_slot.mpr ⟨low, by omega⟩)

theorem Node.Stored.size_le {tree : Node} {type : Ty} (stored : tree.Stored)
    (typed : tree.type? = some type) (assigned : tree.storage.isAssigned = true) :
    type.size ≤ tree.storage.size := by
  by_cases void : type = .void
  · rw [void]
    exact Nat.zero_le _
  · exact Nat.le_of_eq (stored.sized type typed void assigned).symm

/-- A value that is in the frame with the bytes of its type, if it is there. -/
structure Node.Held (tree : Node) : Prop where
  near : tree.storage.Near
  stored : tree.Stored

/-- What is in the slot of an argument, as far as its type goes. -/
theorem Node.Held.near_of_slot {tree : Node} {type : Ty} {base : Int16} {part : Nat}
    (held : tree.Held) (typed : tree.type? = some type)
    (slot : tree.storage = ⟨.slot base, tree.storage.size⟩) (less : part ≤ type.size) :
    Storage.Near ⟨.slot base, part⟩ := by
  have whole : Storage.Near ⟨.slot base, tree.storage.size⟩ := slot ▸ held.near
  have size := held.stored.size_le typed (assigned_of_slot slot)
  exact whole.part (Nat.le_trans less size)

theorem flawless_movedOffset {base : Int16} {size distance : Nat}
    (near : Storage.Near ⟨.slot base, size⟩) (inside : distance ≤ size) :
    Flawless (movedOffset base distance) := by
  have small := near.size_le
  have narrow : (Int16.ofNat distance).toInt = distance := Int16.toInt_ofNat_of_lt (by omega)
  have low := Int16.le_toInt base
  have room : base.toInt + distance < 0x8000 := by
    rcases Nat.eq_zero_or_pos size with rfl | some
    · have high := Int16.toInt_lt base
      omega
    · have last := (near (base.toInt + size - 1) (Storage.covers_slot.mpr ⟨by omega, by omega⟩)).2
      omega
  unfold movedOffset
  rw [narrow, if_pos ⟨by omega, room⟩]
  exact flawless_ok _

namespace Node

theorem Shaped.element_args {target : Node} (shaped : target.Shaped)
    (element : target.applies "[]" = true) : ∃ collection key, target.args = [collection, key] := by
  cases target with
  | apply operator args info =>
      exact (shaped _ _ _ .root).subscript_args (by simpa [applies, operator?] using element)
  | ident _ _ | str _ _ | num _ _ _ => simp [applies, operator?] at element

end Node

namespace AtSite

variable {symbols : Symbols} {site : Site} {node : Node} {request : Request}

theorem clean_lift {α : Type} {step : Emit α} (clean : Clean step site.stream) :
    Clean (liftM step : AtSite α) site :=
  clean

theorem clean_liftDiagnostic {α : Type} (given : Except Diagnostic α) (site : Site) :
    Clean (liftM given : AtSite α) site := by
  have lifted : outcome (liftM given : AtSite α) site =
      (given.mapError Fault.diagnostic, site) := rfl
  unfold Clean
  rw [lifted]
  cases given with
  | error cause => exact flawless_diagnostic cause
  | ok value => exact flawless_ok value

theorem clean_then {α β : Type} {step : Emit α} {next : α → AtSite β}
    (clean : ∀ stream, Clean step stream) (each : ∀ value site, Clean (next value) site) :
    Clean (liftM step >>= next) site :=
  .then (fun site => clean_lift (clean site.stream)) each

theorem clean_allocate (small : site.stream.limit ≤ 32767) (type : Ty) (request : Request) :
    Clean (allocate type request) site := by
  unfold allocate
  refine .bind (flawless_ok _) ?_
  intro value middle found
  obtain ⟨rfl, rfl⟩ := yields_getThe_iff.mp found
  dsimp only
  split
  · exact clean_pure _ _
  · refine .bind (flawless_ok _) ?_
    intro _ middle found
    obtain rfl := yields_modifyThe_iff.mp found
    refine .bind (clean_lift (Emit.clean_freshPlace small type request)) ?_
    intro _ _ _
    exact .bind (flawless_ok _) fun _ _ _ => clean_pure _ _

theorem clean_allocateFor (small : site.stream.limit ≤ 32767) (node : Node) (request : Request) :
    Clean (allocateFor node request) site := by
  refine .bind (clean_liftExcept node.flawless_knownType _) ?_
  intro type middle found
  obtain ⟨-, rfl⟩ := yields_liftExcept_iff.mp found
  exact clean_allocate small type request

theorem clean_slotOf (storage : Storage) (otherwise : String) (site : Site) :
    Clean (slotOf storage otherwise) site := by
  unfold slotOf
  split
  · exact clean_pure _ _
  · exact clean_throw _ _

theorem clean_knownType (node : Node) (site : Site) :
    Clean (liftM node.knownType : AtSite Ty) site :=
  clean_liftExcept node.flawless_knownType site

section Maps

theorem flawless_mapNumber (symbols : Symbols) (node : Node) :
    Flawless (mapNumber symbols node) := by
  unfold mapNumber
  split
  · exact flawless_diagnostic _
  · split
    · exact flawless_ok _
    · exact flawless_diagnostic _

theorem clean_convert (dst src : Storage) (node : Node) (site : Site) :
    Clean (convert dst src node) site := by
  have widened (signed : Bool) (site : Site) : Clean (do
      Emit.loadWidened .r0 src signed
      Emit.storeReg dst .r0 : AtSite Unit) site :=
    clean_then (Emit.clean_loadWidened _ _ _) fun _ site => clean_lift (Emit.clean_storeReg _ _ _)
  unfold convert
  split
  · exact clean_lift (Emit.clean_copyTo _ _ _)
  · split
    · exact .then (clean_knownType node) fun type _ => .then (clean_pure _) widened
    · exact .then (clean_pure _) widened

theorem clean_move {src : Storage} (near : src.Near) (dst : Storage) (node : Node) (site : Site) :
    Clean (move dst src node) site := by
  unfold move
  split
  · exact clean_then (Emit.clean_reach (near.copyEnd_lt dst)) fun _ => clean_convert _ _ _
  · exact clean_convert _ _ _ _

theorem clean_keySlot (small : site.stream.limit ≤ 32767) {subscript : Node}
    (near : ∀ arg ∈ subscript.args, arg.storage.Near) : Clean (keySlot subscript) site := by
  unfold keySlot
  split
  · rename_i map key parts
    have near : key.storage.Near := near key (by simp [parts])
    refine .bind (clean_knownType _ _) ?_
    intro type middle found
    obtain ⟨-, rfl⟩ := yields_liftExcept_iff.mp found
    split
    · split
      · exact clean_pure _ _
      · refine .bind (clean_lift (Emit.clean_storageFor small _ _ _)) ?_
        intro slot _ _
        exact .then (clean_move near _ _) fun _ => clean_slotOf _ _
    · exact clean_throw _ _
  · exact clean_throw _ _

/-- A call of a helper with a map and the slot of a key, and what follows it. -/
theorem clean_keyed {α : Type} {target : Node} {next : Nat → Int16 → AtSite α}
    (small : site.stream.limit ≤ 32767) (there : 0 < target.args.length)
    (near : ∀ arg ∈ target.args, arg.storage.Near)
    (each : ∀ number slot site, Clean (next number slot) site) :
    Clean (do
      let map ← mapNumber symbols (← target.argument 0)
      let key ← keySlot target
      next map key) site := by
  refine .bind (clean_liftExcept (Node.flawless_argument there) _) ?_
  intro map middle found
  obtain ⟨-, rfl⟩ := yields_liftExcept_iff.mp found
  refine .bind (clean_liftExcept (flawless_mapNumber symbols map) _) ?_
  intro number middle found
  obtain ⟨-, rfl⟩ := yields_liftExcept_iff.mp found
  exact (clean_keySlot small near).bind fun slot middle _ => each number slot middle

theorem clean_emitLookup (small : site.stream.limit ≤ 32767) (there : 0 < node.args.length)
    (near : ∀ arg ∈ node.args, arg.storage.Near) {own : Storage} (room : own.Near) :
    Clean (emitLookup symbols node own) site := by
  refine clean_keyed small there near ?_
  intro number slot site
  refine (clean_slotOf _ _ _).bind ?_
  intro offset middle found
  obtain ⟨placed, rfl⟩ := yields_slotOf_iff.mp found
  have slot : own = ⟨.slot offset, own.size⟩ := by rw [← placed]
  have inside := (slot ▸ room : Storage.Near ⟨.slot offset, own.size⟩).stop_lt
  refine clean_then (Emit.clean_insn _) ?_
  intro _ _
  refine clean_then (Emit.clean_code _) fun _ _ => clean_then (Emit.clean_insn _) ?_
  intro _ _
  refine clean_then Emit.clean_freshLabel ?_
  intro miss _
  refine clean_then Emit.clean_freshLabel ?_
  intro hit _
  refine clean_then (Emit.clean_insn _) fun _ _ => clean_then (Emit.clean_readFrom _ _) ?_
  intro _ _
  refine clean_then (Emit.clean_insn _) fun _ _ => clean_then (Emit.clean_bindLabel _) ?_
  intro _ _
  exact clean_then (Emit.clean_clear inside) fun _ _ => clean_lift (Emit.clean_bindLabel _ _)

theorem clean_emitUpdate {target : Node} (small : site.stream.limit ≤ 32767)
    (there : 0 < target.args.length) (near : ∀ arg ∈ target.args, arg.storage.Near) :
    Clean (emitUpdate symbols target) site := by
  refine clean_keyed small there near ?_
  intro number slot site
  refine .then (clean_slotOf _ _) fun value _ => clean_then (Emit.clean_insn _) ?_
  intro _ _
  refine clean_then (Emit.clean_code _) fun _ _ => clean_then (Emit.clean_code _) ?_
  intro _ _
  exact clean_then (Emit.clean_insn _) fun _ _ => clean_lift (Emit.clean_insn _ _)

end Maps

section Records

variable {own : Storage} {base : Int16} {size : Nat}

theorem clean_readMember (base : Node) (own : Storage) (offset : Nat) (site : Site) :
    Clean (readMember base own offset) site := by
  unfold readMember
  split
  · exact clean_throw _ _
  · refine clean_then (Emit.clean_loadReg _ _) ?_
    intro _ _
    split
    · exact clean_then (Emit.clean_insn _) fun _ _ => clean_lift (Emit.clean_readFrom _ _ _)
    · exact clean_lift (Emit.clean_readFrom _ _ _)

theorem clean_takeMember {record : Node} {type : Ty} {offset : Nat} (held : record.Held)
    (typed : record.type? = some type) (inside : offset ≤ type.size) :
    Clean (takeMember record own offset) site := by
  refine .bind (clean_slotOf _ _ _) ?_
  intro start middle found
  obtain ⟨slot, rfl⟩ := Node.slot_of_storage found
  have place := flawless_movedOffset (held.near_of_slot typed slot (Nat.le_refl _)) inside
  refine .bind (clean_liftExcept place _) ?_
  intro _ _ _
  split
  · exact clean_then (Emit.clean_accessWidth _ _) fun _ _ => clean_lift (Emit.clean_insn _ _)
  · exact clean_then (Emit.clean_code _) fun _ _ => clean_lift (Emit.clean_readFrom _ _ _)

theorem clean_emitDot {record member : Node} {info : Info} (small : site.stream.limit ≤ 32767)
    (held : record.Held) :
    Clean (emitDot (.apply "." [record, member] info) request) site := by
  refine (clean_allocateFor small _ _).bind ?_
  intro own _ _
  refine .bind (clean_liftExcept (flawless_ok record) _) ?_
  intro _ _ found
  obtain ⟨same, rfl⟩ := yields_liftExcept_iff.mp found
  cases same
  refine .bind (clean_knownType _ _) ?_
  intro type _ found
  obtain ⟨known, rfl⟩ := yields_liftExcept_iff.mp found
  refine .bind (clean_liftExcept (Node.flawless_memberName _) _) ?_
  intro name _ _
  split
  · exact clean_throw _ _
  · rename_i offset placed
    split
    · exact clean_readMember _ _ _ _
    · refine clean_takeMember held (knownType_eq_ok_iff.mp known) ?_
      obtain ⟨shape, record, there⟩ := Option.bind_eq_some_iff.mp placed
      obtain rfl := Ty.eq_of_record? record
      obtain ⟨index, -, there⟩ := Option.bind_eq_some_iff.mp there
      exact Record.le_size_of_mem (List.mem_of_getElem? there)

theorem clean_emitDeref {pointer : Node} {info : Info} (small : site.stream.limit ≤ 32767) :
    Clean (emitDeref (.apply "u*" [pointer] info) request) site := by
  unfold emitDeref
  split
  · exact clean_pure _ _
  · refine (clean_allocateFor small _ _).bind ?_
    intro own _ _
    split
    · exact clean_pure _ _
    · refine .then (clean_liftExcept (flawless_ok pointer)) ?_
      intro _ _
      exact clean_then (Emit.clean_loadReg _ _) fun _ _ => clean_lift (Emit.clean_readFrom _ _ _)

theorem clean_clearGap (near : Storage.Near ⟨.slot base, size⟩) {start stop : Nat}
    (inside : stop ≤ size) : Clean (clearGap base start stop) site := by
  unfold clearGap
  split
  · refine .then (clean_liftExcept (flawless_movedOffset near (by omega))) ?_
    intro place _
    have small := near.size_le
    have high := Int16.toInt_lt place
    exact clean_lift (Emit.clean_clear (by omega) _)
  · exact clean_pure _ _

theorem clean_planMembers (near : Storage.Near ⟨.slot base, size⟩) {members : List (Field × Nat)}
    (inside : ∀ member ∈ members, member.2 ≤ size) (stop : Nat) (args : List Node) (site : Site) :
    Clean (planMembers base stop members args) site := by
  induction args generalizing stop members site with
  | nil => cases members <;> exact clean_pure _ _
  | cons arg args ih =>
      cases members with
      | nil => exact clean_pure _ _
      | cons member members =>
          obtain ⟨field, offset⟩ := member
          have here : offset ≤ size := inside _ List.mem_cons_self
          refine .then (fun _ => clean_clearGap near here) ?_
          intro _ site
          have rest (request : Request) (site : Site) : Clean (do
              let planned ← planMembers base (offset + field.type.size) members args
              return (request :: planned.1, planned.2)) site :=
            .then (ih (fun other member => inside other (List.mem_cons_of_mem _ member)) _)
              fun _ => clean_pure _
          split
          · exact .then (clean_pure _) rest
          · exact .then (clean_liftExcept (flawless_movedOffset near here)) fun _ _ =>
              .then (clean_pure _) rest

theorem clean_copyMembers (near : Storage.Near ⟨.slot base, size⟩) {args : List Node}
    (stored : ∀ arg ∈ args, arg.storage.Near) {offsets : List Nat}
    (inside : ∀ offset ∈ offsets, offset ≤ size) (site : Site) :
    Clean (copyMembers base args offsets) site := by
  induction args generalizing offsets site with
  | nil => cases offsets <;> exact clean_pure _ _
  | cons arg args ih =>
      cases offsets with
      | nil => exact clean_pure _ _
      | cons offset offsets =>
          refine .then
            (clean_liftExcept (flawless_movedOffset near (inside _ List.mem_cons_self))) ?_
          intro place _
          have reached := (stored arg List.mem_cons_self).copyEnd_lt ⟨.slot place, arg.storage.size⟩
          refine clean_then (Emit.clean_reach reached) ?_
          intro _ _
          refine clean_then (Emit.clean_copyToSlot _ _) ?_
          intro _
          exact ih (fun other member => stored other (List.mem_cons_of_mem _ member))
            fun other member => inside other (List.mem_cons_of_mem _ member)

end Records

section Subscripts

variable {collection key : Node} {info : Info} {own : Storage}

theorem clean_emitArrayElement {type : Ty} (held : collection.Held)
    (typed : collection.type? = some type)
    (inside : ∀ position, key.num? = some position →
      (position.toNat + 1) * own.size ≤ type.size) :
    Clean (emitArrayElement (.apply "[]" [collection, key] info) own) site := by
  refine .bind (clean_pure (collection, key) site) ?_
  intro parts _ found
  obtain ⟨rfl, rfl⟩ := yields_pure_iff.mp found
  dsimp only
  split
  · exact clean_throw _ _
  · rename_i position number
    refine .bind (clean_slotOf _ _ _) ?_
    intro base _ found
    obtain ⟨slot, rfl⟩ := Node.slot_of_storage found
    have near := held.near_of_slot typed slot (Nat.le_refl _)
    have small := near.size_le
    have fits := inside position number
    rw [Nat.add_mul, Nat.one_mul] at fits
    have whole : position.toNat * own.size < UInt64.size := by
      have word : 32767 < UInt64.size := by decide
      omega
    have distance : elementOffset position own.size = .ok (position.toNat * own.size) :=
      elementOffset_eq_ok_iff.mpr ⟨whole, rfl⟩
    refine .bind (clean_liftExcept (distance ▸ flawless_ok _) _) ?_
    intro _ _ found
    obtain ⟨same, rfl⟩ := yields_liftExcept_iff.mp found
    cases distance.symm.trans same
    refine .then (clean_liftExcept (flawless_movedOffset near (by omega))) ?_
    intro offset _
    have reached : Emit.copyEnd own ⟨.slot offset, own.size⟩ < 0x80000000 := by
      unfold Emit.copyEnd
      split
      · rename_i target start _ placed
        have high := Int16.toInt_lt target
        have high' := Int16.toInt_lt start
        dsimp only
        split <;> omega
      · decide
    exact clean_then (Emit.clean_reach reached) fun _ _ => clean_lift (Emit.clean_copyTo _ _ _)

theorem clean_emitPointerElement (own : Storage) (site : Site) :
    Clean (emitPointerElement (.apply "[]" [collection, key] info) own) site := by
  refine .bind (clean_pure (collection, key) site) ?_
  intro parts _ found
  obtain ⟨rfl, rfl⟩ := yields_pure_iff.mp found
  refine clean_then (Emit.clean_loadReg _ _) ?_
  intro _ _
  dsimp only
  split
  · split
    · exact clean_throw _ _
    · split
      · exact clean_then (Emit.clean_insn _) fun _ _ => clean_lift (Emit.clean_readFrom _ _ _)
      · exact clean_lift (Emit.clean_readFrom _ _ _)
  · refine clean_then (Emit.clean_loadReg _ _) fun _ _ => clean_then (Emit.clean_insn _) ?_
    intro _ _
    exact clean_then (Emit.clean_insn _) fun _ _ => clean_lift (Emit.clean_readFrom _ _ _)

theorem size_of_allocateFor {type : Ty} {stream : Stream} {finish : Site}
    (typed : node.type? = some type)
    (found : Yields (allocateFor node request) ⟨stream, {}⟩ own finish) : own.size = type.size := by
  obtain ⟨known, same, allocated⟩ := yields_allocateFor_iff.mp found
  rw [typed] at same
  cases same
  have free : Storage.isAssigned {} = false := rfl
  rw [yields_allocate_iff] at allocated
  simp only [free, Bool.false_eq_true, if_false] at allocated
  obtain ⟨place, middle, -, rfl, -⟩ := allocated
  rfl

/-- Elements of arrays in the frame are in the array, unless the subscript is a
target, which arrays do not have. -/
theorem clean_emitSubscript {type : Ty} {stream : Stream} (small : stream.limit ≤ 32767)
    (typed : (Node.apply "[]" [collection, key] info).type? = some type)
    (held : ∀ tree ∈ [collection, key], tree.Held)
    (room : ∀ own finish, Yields (allocateFor (.apply "[]" [collection, key] info) request)
      ⟨stream, {}⟩ own finish → own.Near)
    (inside : request.target = false → ∀ element length,
      collection.type? = some (.array element length) → ∀ position, key.num? = some position →
        (position.toNat + 1) * type.size ≤ (Ty.array element length).size) :
    Clean (emitSubscript symbols (.apply "[]" [collection, key] info) request) ⟨stream, {}⟩ := by
  refine .bind (clean_liftExcept (flawless_ok collection) _) ?_
  intro _ _ found
  obtain ⟨same, rfl⟩ := yields_liftExcept_iff.mp found
  cases same
  refine .bind (clean_knownType _ _) ?_
  intro collectionType _ found
  obtain ⟨known, rfl⟩ := yields_liftExcept_iff.mp found
  dsimp only
  by_cases refused : (request.target && !collectionType.isMap) = true
  · rw [if_pos refused]
    exact .bind (clean_throw _ _) fun _ _ found => absurd found not_yields_throw
  · rw [if_neg refused]
    cases collectionType with
    | map wanted value kind =>
        refine (clean_allocateFor small _ _).bind ?_
        intro own middle found
        obtain ⟨-, extended, -⟩ := owns_of_allocateFor typed found
        split
        · have near : ∀ arg ∈ (Node.apply "[]" [collection, key] info).args, arg.storage.Near :=
            fun arg member => (held arg member).near
          have there : 0 < (Node.apply "[]" [collection, key] info).args.length :=
            Nat.zero_lt_succ _
          exact clean_emitLookup (extended.limit ▸ small) there near (room own middle found)
        · exact clean_pure _ _
    | array element length =>
        have read : request.target = false := by simpa [Ty.isMap] using refused
        refine (clean_allocateFor small _ _).bind ?_
        intro own middle found
        have known := knownType_eq_ok_iff.mp known
        refine clean_emitArrayElement (held _ List.mem_cons_self) known ?_
        intro position number
        rw [size_of_allocateFor typed found]
        exact inside read element length known position number
    | pointer target =>
        exact (clean_allocateFor small _ _).bind fun own _ _ => clean_emitPointerElement own _
    | void | scalar _ | record _ | function _ => exact clean_throw _ _

theorem clean_planSubscript (request : Request) (site : Site) :
    Clean (planSubscript (.apply "[]" [collection, key] info) request) site := by
  refine .then (clean_liftExcept (flawless_ok collection)) ?_
  intro collection _
  refine .then (clean_knownType _) ?_
  intro type _
  split
  · exact clean_pure _ _
  · refine .then (clean_liftExcept (flawless_ok key)) ?_
    intro key _
    split
    · exact clean_pure _ _
    · exact clean_throw _ _
  · exact clean_pure _ _
  · exact clean_throw _ _

end Subscripts

section Assignments

variable {target value : Node} {info : Info}

theorem clean_planAssign (small : site.stream.limit ≤ 32767) :
    Clean (planAssign (.apply "=" [target, value] info) request) site := by
  refine .bind (clean_liftExcept (flawless_ok target) _) ?_
  intro _ _ found
  obtain ⟨-, rfl⟩ := yields_liftExcept_iff.mp found
  refine .bind (clean_knownType _ _) ?_
  intro targetType _ found
  obtain ⟨-, rfl⟩ := yields_liftExcept_iff.mp found
  refine .bind (clean_liftExcept (flawless_ok value) _) ?_
  intro _ _ found
  obtain ⟨-, rfl⟩ := yields_liftExcept_iff.mp found
  refine .bind (clean_knownType _ _) ?_
  intro valueType _ found
  obtain ⟨-, rfl⟩ := yields_liftExcept_iff.mp found
  refine (clean_allocate small _ _).bind ?_
  intro own middle _
  exact .then (clean_slotOf _ _) fun _ => clean_pure _

theorem clean_emitAssign {stream : Stream} {own : Storage} (small : stream.limit ≤ 32767)
    (there : 0 < target.args.length) (near : ∀ arg ∈ target.args, arg.storage.Near)
    (held : value.Held) :
    Clean (emitAssign symbols (.apply "=" [target, value] info)) ⟨stream, own⟩ := by
  refine (clean_move held.near _ _ _).bind ?_
  intro _ middle found
  obtain ⟨-, code, moved⟩ := moved_convert (convert_of_move found)
  split
  · exact clean_emitUpdate (moved.extended.limit ▸ small) there near
  · exact clean_pure _ _

theorem clean_emitDelete (small : site.stream.limit ≤ 32767) (there : 0 < target.args.length)
    (near : ∀ arg ∈ target.args, arg.storage.Near) :
    Clean (emitDelete symbols (.apply "delete" [target] info)) site := by
  refine .bind (clean_liftExcept (flawless_ok target) _) ?_
  intro _ _ found
  obtain ⟨same, rfl⟩ := yields_liftExcept_iff.mp found
  cases same
  refine clean_keyed small there near ?_
  intro number slot site
  refine clean_then (Emit.clean_insn _) ?_
  intro _ _
  exact clean_then (Emit.clean_code _) fun _ _ => clean_lift (Emit.clean_insn _ _)

end Assignments

end AtSite

namespace Comparand

/-- What is compared lies in the frame up to the last position. -/
def Spans (size : Nat) : Comparand → Prop
  | slot offset => Storage.Near ⟨.slot offset, size⟩
  | literal _ => True

variable {comparand : Comparand} {base : Int16} {size : Nat}

theorem flawless_subtract (spans : comparand.Spans size) (dst : Reg) {position : Nat}
    (inside : position ≤ size) : Flawless (comparand.subtract dst position) := by
  cases comparand with
  | slot offset => exact (flawless_movedOffset spans inside).bind fun place _ => flawless_ok _
  | literal bytes => exact flawless_ok _

theorem flawless_compareFrom (near : Storage.Near ⟨.slot base, size⟩) (spans : comparand.Spans size)
    (dst : Reg) (done : Label) {position left : Nat} (inside : position + left ≤ size) :
    Flawless (comparand.compareFrom dst base done position left) := by
  induction left generalizing position with
  | zero => exact flawless_ok _
  | succ left ih =>
      rw [compareFrom]
      refine (flawless_movedOffset near (by omega)).bind ?_
      intro place _
      refine (flawless_subtract spans dst (by omega)).bind ?_
      intro difference _
      dsimp only
      split
      · exact flawless_ok _
      · exact (ih (by omega)).bind fun rest _ => flawless_ok _

end Comparand

namespace AtSite

variable {symbols : Symbols} {site : Site} {node : Node} {request : Request} {info : Info}

theorem clean_comparandOf (node : Node) (site : Site) : Clean (comparandOf node) site := by
  unfold comparandOf
  split
  · exact clean_pure _ _
  · exact .then (clean_slotOf _ _) fun _ => clean_pure _

/-- Both strings lie in the frame and are compared no further than they go. -/
theorem clean_emitStrcmp {first second : Node} (small : site.stream.limit ≤ 32767)
    (held : ∀ tree ∈ [first, second], tree.Held) :
    Clean (emitStrcmp (.apply "strcmp" [first, second] info) request) site := by
  refine (clean_allocateFor small _ _).bind ?_
  intro own _ _
  have operands (site : Site) : Clean
      (comparisonOperands (.apply "strcmp" [first, second] info)) site := by
    unfold comparisonOperands
    dsimp only [Node.args]
    split <;> exact clean_pure _ _
  refine (operands _).bind ?_
  intro chosen _ found
  obtain ⟨left, right, swapped⟩ := chosen
  obtain ⟨places, rfl⟩ := Node.comparisonOperands_eq found
  have among : left ∈ [first, second] ∧ right ∈ [first, second] := by
    rcases places with ⟨rfl, rfl⟩ | ⟨rfl, rfl⟩ <;> simp
  refine .bind (clean_slotOf _ _ _) ?_
  intro base _ found
  obtain ⟨slot, rfl⟩ := Node.slot_of_storage found
  refine (clean_comparandOf right _).bind ?_
  intro comparand _ found
  obtain ⟨rfl, second⟩ := Node.comparandOf_eq found
  refine .bind (clean_knownType _ _) ?_
  intro leftType _ found
  obtain ⟨known, rfl⟩ := yields_liftExcept_iff.mp found
  refine .bind (clean_knownType _ _) ?_
  intro rightType _ found
  obtain ⟨known', rfl⟩ := yields_liftExcept_iff.mp found
  have near := (held left among.1).near_of_slot (knownType_eq_ok_iff.mp known) slot
    (Nat.min_le_left leftType.size rightType.size)
  have spans : comparand.Spans (min leftType.size rightType.size) := by
    rcases second with ⟨offset, slot', rfl⟩ | ⟨value, -, rfl⟩
    · exact (held right among.2).near_of_slot (knownType_eq_ok_iff.mp known') slot'
        (Nat.min_le_right _ _)
    · trivial
  refine clean_then Emit.clean_freshLabel ?_
  intro done _
  refine .then (clean_liftExcept
    (Comparand.flawless_compareFrom near spans _ done (Nat.le_of_eq (Nat.zero_add _)))) ?_
  intro code _
  refine clean_then (Emit.clean_code _) fun _ _ => clean_then (Emit.clean_bindLabel _) ?_
  intro _ _
  split
  · exact clean_then (Emit.clean_insn _) fun _ _ => clean_lift (Emit.clean_storeReg _ _ _)
  · exact clean_lift (Emit.clean_storeReg _ _ _)

theorem clean_emitMem {source : Node} {rest : List Node} (small : site.stream.limit ≤ 32767) :
    Clean (emitMem (.apply "mem" (source :: rest) info) request) site := by
  refine (clean_allocateFor small _ _).bind ?_
  intro own _ _
  refine .then (clean_liftExcept (flawless_ok source)) ?_
  intro _ _
  exact clean_then (Emit.clean_loadReg _ _) fun _ _ => clean_lift (Emit.clean_readFrom _ _ _)

theorem clean_emitStr {source : Node} {rest : List Node} (small : site.stream.limit ≤ 32767)
    (room : ∀ own finish, Yields (allocateFor (.apply "str" (source :: rest) info) request) site own
      finish → own.Near) :
    Clean (emitStr (.apply "str" (source :: rest) info) request) site := by
  refine (clean_allocateFor small _ _).bind ?_
  intro own _ allocated
  refine (clean_slotOf _ _ _).bind ?_
  intro offset middle found
  obtain ⟨placed, rfl⟩ := yields_slotOf_iff.mp found
  have slot : own = ⟨.slot offset, own.size⟩ := by rw [← placed]
  have inside := (slot ▸ room own _ allocated : Storage.Near ⟨.slot offset, own.size⟩).stop_lt
  refine clean_then (Emit.clean_clear inside) ?_
  intro _ _
  refine .then (clean_liftExcept (flawless_ok source)) ?_
  intro _ _
  refine clean_then (Emit.clean_loadReg _ _) fun _ _ => clean_then (Emit.clean_code _) ?_
  intro _ _
  exact clean_then (Emit.clean_insn _) fun _ _ => clean_lift (Emit.clean_insn _ _)

theorem clean_loadContext (node : Node) (own : Storage) (offset : Int16) (site : Site) :
    Clean (loadContext node own offset) site := by
  unfold loadContext
  split
  · exact clean_lift (Emit.clean_insn _ _)
  · exact clean_then (Emit.clean_insn _) fun _ _ => clean_lift (Emit.clean_storeReg _ _ _)
  · refine clean_then (Emit.clean_insn _) fun _ _ => clean_then (Emit.clean_insn _) ?_
    intro _ _
    exact clean_lift (Emit.clean_readFrom _ _ _)
  · exact clean_throw _ _

theorem clean_leaf (small : site.stream.limit ≤ 32767) (symbols : Symbols) (node : Node)
    (request : Request)
    (room : ∀ own finish, Yields (allocateFor node request.onFrame) site own finish → own.Near) :
    Clean (leaf symbols node request) site := by
  unfold leaf
  split
  · exact clean_pure _ _
  · split
    · exact (clean_allocateFor small _ _).bind fun _ _ _ => clean_lift (Emit.clean_constant _ _ _)
    · refine (clean_allocateFor small _ _).bind ?_
      intro own _ allocated
      refine (clean_slotOf _ _ _).bind ?_
      intro offset middle found
      obtain ⟨placed, rfl⟩ := yields_slotOf_iff.mp found
      have slot : own = ⟨.slot offset, own.size⟩ := by rw [← placed]
      have inside := (slot ▸ room own _ allocated : Storage.Near ⟨.slot offset, own.size⟩).stop_lt
      exact clean_lift (Emit.clean_fill (by rw [length_paddedBytes]; exact inside) _)
    · split
      · exact clean_throw _ _
      · split
        · exact clean_pure _ _
        · exact (clean_allocateFor small _ _).bind fun _ _ _ => clean_loadContext _ _ _ _
    · exact clean_throw _ _

end AtSite

end TraceProbe
