import TraceProbe.Proofs.Actionable
import TraceProbe.Proofs.Emission.Trees

/-!
# Moves of values that are there

A value that takes room is in the frame or, if it is a word, in a register.  The
steps that move such values end with no diagnostic that blames the compiler.
-/

namespace TraceProbe

/-- Storage of a value of a type: it is in the frame, or in a register if it is
a word that need not be in the frame. -/
structure Storage.Carries (storage : Storage) (type : Ty) (inFrame : Bool) : Prop where
  sized : storage.size = type.size
  placed : (∃ offset, storage.place = .slot offset) ∨
    (∃ reg, storage.place = .register reg) ∧ type.isWord = true ∧ inFrame = false

theorem isSome_ofBytes?_of_isWord {type : Ty} (word : type.isWord = true) :
    (Width.ofBytes? type.size).isSome = true := by
  cases type with
  | scalar kind =>
      rw [Ty.size]
      cases kind <;> rfl
  | pointer _ =>
      rw [Ty.size]
      rfl
  | _ => cases word

theorem size_pos_of_ofBytes? {size : Nat}
    (wide : (Width.ofBytes? size).isSome = true) : 0 < size := by
  rcases Nat.eq_zero_or_pos size with rfl | some
  · cases wide
  · exact some

namespace Storage.Carries

variable {storage : Storage} {type : Ty} {inFrame : Bool}

theorem isAssigned (carries : storage.Carries type inFrame) : storage.isAssigned = true := by
  rcases carries.placed with ⟨offset, placed⟩ | ⟨⟨reg, placed⟩, -⟩ <;>
    simp [Storage.isAssigned, placed]

theorem slot (carries : storage.Carries type true) : ∃ offset, storage.place = .slot offset :=
  carries.placed.resolve_right fun other => by cases other.2.2

theorem relax (carries : storage.Carries type true) : storage.Carries type inFrame :=
  ⟨carries.sized, .inl carries.slot⟩

theorem wide {reg : Reg} (carries : storage.Carries type inFrame)
    (placed : storage.place = .register reg) :
    (Width.ofBytes? storage.size).isSome = true := by
  rcases carries.placed with ⟨offset, same⟩ | ⟨-, word, -⟩
  · cases placed.symm.trans same
  · exact carries.sized ▸ isSome_ofBytes?_of_isWord word

end Storage.Carries

namespace Emit

/-- The step ends with no diagnostic that blames the compiler, and labels stay as
they are. -/
def Tame {α : Type} (step : Emit α) : Prop :=
  ∀ stream, Leads (fun _ finish => finish.labels = stream.labels) step stream

variable {α β : Type} {step : Emit α} {dst src : Storage} {type type' : Ty}
  {inFrame inFrame' : Bool}

theorem tame_pure (value : α) : Tame (pure value) := by
  intro _
  exact leads_pure rfl

theorem Tame.bind {next : α → Emit β} (first : Tame step) (each : ∀ value, Tame (next value)) :
    Tame (step >>= next) := by
  intro stream
  refine (first stream).bind ?_
  intro value middle same
  exact (each value middle).mono fun _ _ later => later.trans same

theorem tame_code (insns : List Insn) : Tame (code insns) := by
  intro site
  constructor
  · exact faults_ok _
  · intro _ _ found
    rw [← yields_code_iff.mp found]
    rfl

theorem tame_insn (added : Insn) : Tame (insn added) :=
  tame_code [added]

/-- A position out of reach is no fault of the compiler's own making. -/
theorem tame_reach (stop : Int) : Tame (reach stop) := by
  intro stream
  unfold reach
  split
  · exact leads_pure rfl
  · exact leads_throw (tolerable_defect _)

theorem tame_clear (offset : Int16) (size : Nat) : Tame (clear offset size) :=
  (tame_reach _).bind fun _ => tame_code _

theorem tame_fill (offset : Int16) (bytes : List UInt8) : Tame (fill offset bytes) := by
  refine (tame_reach _).bind ?_
  intro _
  rw [if_pos (Block.sliced_cut _ _ _)]
  exact tame_code _

theorem tame_accessWidth {size : Nat} (wide : (Width.ofBytes? size).isSome = true)
    (otherwise : String) :
    Tame (accessWidth size otherwise) := by
  obtain ⟨width, known⟩ := Option.isSome_iff_exists.mp wide
  unfold accessWidth
  rw [known]
  exact tame_pure width

theorem tame_storeReg (assigned : dst.isAssigned = true)
    (wide : (Width.ofBytes? dst.size).isSome = true) (src : Reg) : Tame (storeReg dst src) := by
  unfold storeReg
  split
  · split
    · exact tame_insn _
    · exact tame_pure _
  · exact (tame_accessWidth wide _).bind fun _ => tame_insn _
  · rename_i free
    simp [Storage.isAssigned, free] at assigned

theorem tame_constant (assigned : dst.isAssigned = true)
    (wide : (Width.ofBytes? dst.size).isSome = true)
    (value : UInt64) : Tame (constant dst value) := by
  unfold constant
  split
  · exact tame_insn _
  · exact tame_insn _
  · exact (tame_accessWidth wide _).bind fun _ => tame_insn _
  · exact (tame_insn _).bind fun _ => tame_storeReg assigned wide _
  · rename_i free
    simp [Storage.isAssigned, free] at assigned

theorem tame_loadReg (assigned : src.isAssigned = true)
    (wide : (Width.ofBytes? src.size).isSome = true) (dst : Reg) : Tame (loadReg dst src) := by
  unfold loadReg
  split
  · split
    · exact tame_insn _
    · exact tame_pure _
  · exact (tame_accessWidth wide _).bind fun _ => tame_insn _
  · rename_i free
    simp [Storage.isAssigned, free] at assigned

theorem tame_loadWidened (assigned : src.isAssigned = true)
    (wide : (Width.ofBytes? src.size).isSome = true) (dst : Reg) (signed : Bool) :
    Tame (loadWidened dst src signed) := by
  refine (tame_loadReg assigned wide dst).bind ?_
  intro _
  split
  · exact tame_code _
  · exact tame_pure _

theorem tame_copyToSlot (carries : src.Carries type inFrame) (offset : Int16) :
    Tame (copyToSlot offset src) := by
  unfold copyToSlot
  split
  · rename_i placed
    exact (tame_accessWidth (carries.wide placed) _).bind fun _ => tame_insn _
  · exact tame_code _
  · rename_i free
    have assigned := carries.isAssigned
    simp [Storage.isAssigned, free] at assigned

theorem tame_copyTo (carries : dst.Carries type inFrame) (carries' : src.Carries type' inFrame')
    (sizes : src.size = dst.size) : Tame (copyTo dst src) := by
  unfold copyTo
  split
  · rename_i placed
    exact tame_loadReg carries'.isAssigned (sizes ▸ carries.wide placed) _
  · exact tame_copyToSlot carries' _
  · rename_i free
    have assigned := carries.isAssigned
    simp [Storage.isAssigned, free] at assigned

theorem tame_readFrom (carries : dst.Carries type true) (src : Reg) : Tame (readFrom dst src) := by
  obtain ⟨offset, placed⟩ := carries.slot
  unfold readFrom
  rw [show dst.slot? = some offset by simp [Storage.slot?, placed]]
  have called : Tame (do
      insn (.movImm .r2 (Int32.ofNat dst.size))
      code (Block.address .r1 offset)
      insn (.callOf .probeRead)) :=
    (tame_insn _).bind fun _ => (tame_code _).bind fun _ => tame_insn _
  dsimp only
  split
  · exact (tame_insn _).bind fun _ => called
  · exact called

theorem tame_freshSlot (size alignment : Nat) : Tame (freshSlot size alignment) := by
  intro stream
  constructor
  · unfold freshSlot
    simp only [outcome_bind, outcome_get]
    split
    · exact faults_error (Fault.Actionable.tolerable ⟨_, rfl, rfl, rfl⟩)
    · simp only [outcome_bind, outcome_set]
      split
      · exact faults_ok _
      · exact faults_error (tolerable_defect _)
  · intro offset finish found
    obtain ⟨-, -, rfl⟩ := yields_freshSlot_iff.mp found
    rfl

theorem leads_freshPlace (type : Ty) (request : Request) (stream : Stream) :
    Leads (fun place finish => finish.labels = stream.labels ∧
      (0 < type.size → Storage.Carries ⟨place, type.size⟩ type request.inFrame))
      (freshPlace type request) stream := by
  unfold freshPlace
  split
  · exact leads_pure ⟨rfl, fun _ => ⟨rfl, .inl ⟨_, rfl⟩⟩⟩
  · split
    · rename_i word
      simp only [Bool.and_eq_true, Bool.not_eq_true'] at word
      refine ⟨faults_ok _, ?_⟩
      intro place finish found
      obtain ⟨reg, middle, fresh, same⟩ := yields_bind_iff.mp found
      obtain ⟨rfl, rfl⟩ := yields_pure_iff.mp same
      obtain ⟨rfl, rfl⟩ := yields_freshReg_iff.mp fresh
      exact ⟨rfl, fun _ => ⟨rfl, .inr ⟨⟨_, rfl⟩, word⟩⟩⟩
    · split
      · exact (tame_freshSlot _ _ stream).bind fun offset middle same =>
          leads_pure ⟨same, fun _ => ⟨rfl, .inl ⟨_, rfl⟩⟩⟩
      · rename_i empty
        exact leads_pure ⟨rfl, fun some => absurd some empty⟩

end Emit

namespace AtSite

/-- The step ends with no diagnostic that blames the compiler, and both labels and
the storage of the operator stay as they are. -/
def Steady {α : Type} (step : AtSite α) : Prop :=
  ∀ site, Leads (fun _ finish => finish.own = site.own ∧ finish.stream.labels = site.stream.labels)
    step site

variable {α β : Type} {step : AtSite α} {node : Node} {request : Request} {site : Site} {type : Ty}

theorem leads_lift {given : Emit α} {post : α → Stream → Prop}
    (leads : Leads post given site.stream) :
    Leads (fun value finish => finish.own = site.own ∧ post value finish.stream)
      (liftM given : AtSite α) site := by
  refine ⟨leads.faults, ?_⟩
  intro value finish found
  obtain ⟨stream, here, rfl⟩ := yields_lift_iff.mp found
  exact ⟨rfl, leads.reaches value stream here⟩

theorem steady_lift {given : Emit α} (tame : Emit.Tame given) : Steady (liftM given) := by
  intro site
  exact leads_lift (tame site.stream)

theorem steady_pure (value : α) : Steady (pure value) := by
  intro _
  exact leads_pure ⟨rfl, rfl⟩

theorem steady_throw {fault : Fault} (tolerable : fault.Tolerable) :
    Steady (throw fault : AtSite α) := by
  intro _
  exact leads_throw tolerable

theorem steady_liftExcept {given : Except Fault α} (faults : Faults Fault.Tolerable given) :
    Steady (liftM given : AtSite α) := by
  intro _
  exact leads_liftExcept faults fun _ _ => ⟨rfl, rfl⟩

theorem Steady.bind {next : α → AtSite β} (first : Steady step)
    (each : ∀ value, Steady (next value)) :
    Steady (step >>= next) := by
  intro site
  refine (first site).bind ?_
  intro value middle same
  exact (each value middle).mono fun _ _ later =>
    ⟨later.1.trans same.1, later.2.trans same.2⟩

theorem Steady.then {own : Storage} {labels : Array Bool} {post : β → Site → Prop}
    {next : α → AtSite β}
    (steady : Steady step) (here : site.own = own ∧ site.stream.labels = labels)
    (rest : ∀ value middle, middle.own = own ∧ middle.stream.labels = labels →
      Leads post (next value) middle) : Leads post (step >>= next) site := by
  apply (steady site).bind
  intro value middle same
  have kept : middle.own = own ∧ middle.stream.labels = labels :=
    ⟨same.1.trans here.1, same.2.trans here.2⟩
  exact rest value middle kept

theorem Steady.last {own : Storage} {labels : Array Bool} {inFrame : Bool} (steady : Steady step)
    (here : site.own = own ∧ site.stream.labels = labels) (carries : own.Carries type inFrame) :
    Leads (fun _ finish => finish.own.Carries type inFrame) step site := by
  refine (steady site).mono ?_
  intro _ _ same
  rw [same.1, here.1]
  exact carries

theorem steady_insn (added : Insn) : Steady (liftM (Emit.insn added)) :=
  steady_lift (Emit.tame_insn added)

theorem steady_code (insns : List Insn) : Steady (liftM (Emit.code insns)) :=
  steady_lift (Emit.tame_code insns)

theorem steady_reach (stop : Int) : Steady (liftM (Emit.reach stop)) :=
  steady_lift (Emit.tame_reach stop)

theorem steady_clear (offset : Int16) (size : Nat) : Steady (liftM (Emit.clear offset size)) :=
  steady_lift (Emit.tame_clear offset size)

theorem steady_fill (offset : Int16) (bytes : List UInt8) :
    Steady (liftM (Emit.fill offset bytes)) :=
  steady_lift (Emit.tame_fill offset bytes)

theorem Steady.bind_known {given : Except Fault α} {value : α} {next : α → AtSite β}
    (known : given = .ok value) (rest : Steady (next value)) :
    Steady ((liftM given : AtSite α) >>= next) := by
  subst known
  exact rest

theorem leads_modify (site : Site) (change : Site → Site) :
    Leads (fun _ finish => finish = change site) (modifyThe Site change : AtSite PUnit) site := by
  have found : Yields (modifyThe Site change : AtSite PUnit) site ⟨⟩ (change site) :=
    yields_modifyThe_iff.mpr rfl
  exact leads_of_yields found rfl

/-- Storage without a place gets one for a value that takes room. -/
theorem leads_allocate (type : Ty) (request : Request) (free : site.own = {}) :
    Leads (fun storage finish => finish.own = storage ∧ finish.stream.labels = site.stream.labels ∧
      (0 < type.size → storage.Carries type request.inFrame)) (allocate type request) site := by
  obtain ⟨stream, own⟩ := site
  obtain rfl : own = {} := free
  have looked : Leads (fun value finish => value.own = {} ∧ finish.stream = stream)
      (getThe Site : AtSite Site)
      ⟨stream, {}⟩ := leads_of_yields (yields_getThe_iff.mpr ⟨rfl, rfl⟩) ⟨rfl, rfl⟩
  refine looked.bind ?_
  rintro before middle ⟨unassigned, same⟩
  rw [unassigned, if_neg (by decide)]
  refine (leads_modify middle _).bind ?_
  rintro _ _ rfl
  refine (leads_lift (Emit.leads_freshPlace type request _)).bind ?_
  intro place after placed
  refine (leads_modify after _).bind ?_
  rintro _ _ rfl
  exact leads_pure ⟨rfl, same ▸ placed.2.1, placed.2.2⟩

theorem leads_allocateFor (request : Request) (typed : node.type? = some type)
    (free : site.own = {}) :
    Leads (fun storage finish => finish.own = storage ∧ finish.stream.labels = site.stream.labels ∧
      (0 < type.size → storage.Carries type request.inFrame)) (allocateFor node request) site := by
  unfold allocateFor
  have known : node.knownType = .ok type := knownType_eq_ok_iff.mpr typed
  rw [known]
  exact leads_allocate type request free

theorem steady_slotOf {storage : Storage} {offset : Int16} (placed : storage.place = .slot offset)
    (otherwise : String) : Steady (slotOf storage otherwise) := by
  unfold slotOf
  rw [show storage.slot? = some offset by simp [Storage.slot?, placed]]
  exact steady_pure _

end AtSite

end TraceProbe
