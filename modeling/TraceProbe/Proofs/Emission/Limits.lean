import TraceProbe.Proofs.Emission.Trees
import TraceProbe.Proofs.Node.Parts

/-!
# Emission with a larger frame

The size of the frame is looked at when a slot is handed out, and there it only
decides whether the step fails.  So whatever is emitted without a fault is
emitted just so in a larger frame.
-/

namespace TraceProbe

/-- A step that ends without a fault ends with the same value from related
states, and leaves related states. -/
def Carries {σ α : Type} (related : σ → σ → Prop) (step : ExceptT Fault (StateM σ) α) : Prop :=
  ∀ start start' value finish, related start start' → Yields step start value finish →
    ∃ finish', Yields step start' value finish' ∧ related finish finish'

namespace Carries

variable {σ α β : Type} {related : σ → σ → Prop}

theorem pure (value : α) : Carries related (Pure.pure value) := by
  intro start start' result finish same found
  obtain ⟨rfl, rfl⟩ := yields_pure_iff.mp found
  exact ⟨start', yields_pure_iff.mpr ⟨rfl, rfl⟩, same⟩

theorem throw (fault : Fault) :
    Carries related (MonadExcept.throw fault : ExceptT Fault (StateM σ) α) := by
  intro _ _ _ _ _ found
  exact absurd found not_yields_throw

theorem lift (given : Except Fault α) : Carries related (liftM given) := by
  intro start start' result finish same found
  obtain ⟨known, rfl⟩ := yields_liftExcept_iff.mp found
  exact ⟨start', yields_liftExcept_iff.mpr ⟨known, rfl⟩, same⟩

theorem bind {step : ExceptT Fault (StateM σ) α} {next : α → ExceptT Fault (StateM σ) β}
    (first : Carries related step) (each : ∀ value, Carries related (next value)) :
    Carries related (step >>= next) := by
  intro start start' result finish same found
  obtain ⟨value, middle, here, later⟩ := yields_bind_iff.mp found
  obtain ⟨middle', here', same⟩ := first start start' value middle same here
  obtain ⟨finish', later', same⟩ := each value middle middle' result finish same later
  exact ⟨finish', yields_bind_iff.mpr ⟨value, middle', here', later'⟩, same⟩

theorem check {holds : Prop} [Decidable holds] {fault : Fault}
    {next : PUnit → ExceptT Fault (StateM σ) β} (each : Carries related (next ⟨⟩)) :
    Carries related (if holds then MonadExcept.throw fault >>= next else next ⟨⟩) := by
  split
  · exact .bind (.throw fault) fun _ => each
  · exact each

end Carries

/-- The same stream, with a larger frame or the same one. -/
def Stream.Roomier (stream larger : Stream) : Prop :=
  stream.limit ≤ larger.limit ∧ larger = { stream with limit := larger.limit }

namespace Emit

theorem carries_of_outcome {α : Type} {step : Emit α}
    (blind : ∀ stream limit, outcome step { stream with limit := limit } =
      ((outcome step stream).1, { (outcome step stream).2 with limit := limit }))
    (keeps : ∀ stream, (outcome step stream).2.limit = stream.limit) :
    Carries Stream.Roomier step := by
  rintro stream larger value finish ⟨room, same⟩ found
  have here := blind stream larger.limit
  have limit := keeps stream
  rw [show outcome step stream = (.ok value, finish) from found] at here limit
  rw [← same] at here
  exact ⟨_, here, Nat.le_trans (Nat.le_of_eq limit) room, rfl⟩

theorem carries_code (insns : List Insn) : Carries Stream.Roomier (code insns) :=
  carries_of_outcome (fun _ _ => rfl) fun _ => rfl

theorem carries_insn (added : Insn) : Carries Stream.Roomier (insn added) :=
  carries_code [added]

theorem carries_freshLabel : Carries Stream.Roomier freshLabel :=
  carries_of_outcome (fun _ _ => rfl) fun _ => rfl

theorem carries_freshReg : Carries Stream.Roomier freshReg :=
  carries_of_outcome (fun _ _ => rfl) fun _ => rfl

theorem carries_bind (label : Label) : Carries Stream.Roomier (Emit.bind label) := by
  rintro stream larger value finish ⟨room, same⟩ found
  obtain ⟨free, rfl⟩ := yields_bind_label_iff.mp found
  rw [same]
  exact ⟨_, yields_bind_label_iff.mpr ⟨free, rfl⟩, room, rfl⟩

theorem carries_freshSlot (size alignment : Nat) :
    Carries Stream.Roomier (freshSlot size alignment) := by
  rintro stream larger value finish ⟨room, same⟩ found
  obtain ⟨fits, offset, rfl⟩ := yields_freshSlot_iff.mp found
  rw [same]
  exact ⟨_, yields_freshSlot_iff.mpr ⟨Nat.le_trans fits room, offset, rfl⟩, room, rfl⟩

theorem carries_freshPlace (type : Ty) (request : Request) :
    Carries Stream.Roomier (freshPlace type request) := by
  unfold freshPlace
  split
  · exact .pure _
  · split
    · exact .bind carries_freshReg fun _ => .pure _
    · split
      · exact .bind (carries_freshSlot _ _) fun _ => .pure _
      · exact .pure _

theorem carries_storageFor (storage : Storage) (type : Ty) (request : Request) :
    Carries Stream.Roomier (storageFor storage type request) := by
  unfold storageFor
  split
  · exact .pure _
  · exact .bind (carries_freshPlace _ _) fun _ => .pure _

section Moves

theorem carries_accessWidth (size : Nat) (otherwise : String) :
    Carries Stream.Roomier (accessWidth size otherwise) := by
  unfold accessWidth
  split
  · exact .pure _
  · exact .throw _

theorem carries_storeReg (dst : Storage) (src : Reg) :
    Carries Stream.Roomier (storeReg dst src) := by
  unfold storeReg
  split
  · split
    · exact carries_insn _
    · exact .pure _
  · exact .bind (carries_accessWidth _ _) fun _ => carries_insn _
  · exact .throw _

theorem carries_constant (dst : Storage) (value : UInt64) :
    Carries Stream.Roomier (constant dst value) := by
  unfold constant
  split
  · exact carries_insn _
  · exact carries_insn _
  · exact .bind (carries_accessWidth _ _) fun _ => carries_insn _
  · exact .bind (carries_insn _) fun _ => carries_storeReg _ _
  · exact .throw _

theorem carries_loadReg (dst : Reg) (src : Storage) : Carries Stream.Roomier (loadReg dst src) := by
  unfold loadReg
  split
  · split
    · exact carries_insn _
    · exact .pure _
  · exact .bind (carries_accessWidth _ _) fun _ => carries_insn _
  · exact .throw _

theorem carries_loadWidened (dst : Reg) (src : Storage) (signed : Bool) :
    Carries Stream.Roomier (loadWidened dst src signed) := by
  unfold loadWidened
  refine .bind (carries_loadReg _ _) ?_
  intro _
  split
  · exact carries_code _
  · exact .pure _

theorem carries_reach (stop : Int) : Carries Stream.Roomier (reach stop) := by
  unfold reach
  split
  · exact .pure _
  · exact .throw _

theorem carries_clear (offset : Int16) (size : Nat) :
    Carries Stream.Roomier (clear offset size) :=
  .bind (carries_reach _) fun _ => carries_code _

theorem carries_fill (offset : Int16) (bytes : List UInt8) :
    Carries Stream.Roomier (fill offset bytes) := by
  refine .bind (carries_reach _) ?_
  intro _
  split
  · exact carries_code _
  · exact .throw _

theorem carries_copyToSlot (offset : Int16) (src : Storage) :
    Carries Stream.Roomier (copyToSlot offset src) := by
  unfold copyToSlot
  split
  · exact .bind (carries_accessWidth _ _) fun _ => carries_insn _
  · exact carries_code _
  · exact .throw _

theorem carries_copyTo (dst src : Storage) : Carries Stream.Roomier (copyTo dst src) := by
  unfold copyTo
  split
  · exact carries_loadReg _ _
  · exact carries_copyToSlot _ _
  · exact .throw _

theorem carries_readFrom (dst : Storage) (src : Reg) :
    Carries Stream.Roomier (readFrom dst src) := by
  unfold readFrom
  split
  · exact .throw _
  · have rest (offset : Int16) : Carries Stream.Roomier (do
        insn (.movImm .r2 (Int32.ofNat dst.size))
        code (Block.address .r1 offset)
        insn (.callOf .probeRead)) :=
      .bind (carries_insn _) fun _ => .bind (carries_code _) fun _ => carries_insn _
    split
    · exact .bind (carries_insn _) fun _ => rest _
    · exact rest _

end Moves

end Emit

/-- The same site, with a larger frame or the same one. -/
def Site.Roomier (site larger : Site) : Prop :=
  site.stream.Roomier larger.stream ∧ larger.own = site.own

namespace AtSite

theorem carries_emit {α : Type} {step : Emit α} (carries : Carries Stream.Roomier step) :
    Carries Site.Roomier (liftM step : AtSite α) := by
  rintro ⟨stream, own⟩ ⟨larger, own'⟩ value finish ⟨room, same⟩ found
  obtain rfl : own' = own := same
  obtain ⟨after, here, rfl⟩ := yields_lift_iff.mp found
  obtain ⟨after', here', room'⟩ := carries _ _ _ _ room here
  exact ⟨_, yields_lift_iff.mpr ⟨after', here', rfl⟩, room', rfl⟩

theorem carries_diagnostic {α : Type} (given : Except Diagnostic α) :
    Carries Site.Roomier (liftM given : AtSite α) := by
  intro site larger value finish room found
  obtain ⟨known, rfl⟩ := yields_liftDiagnostic_iff.mp found
  exact ⟨larger, yields_liftDiagnostic_iff.mpr ⟨known, rfl⟩, room⟩

theorem carries_allocate (type : Ty) (request : Request) :
    Carries Site.Roomier (allocate type request) := by
  rintro ⟨stream, own⟩ ⟨larger, own'⟩ value finish ⟨room, same⟩ found
  obtain rfl : own' = own := same
  rw [yields_allocate_iff] at found
  simp only [yields_allocate_iff]
  split at found
  · rename_i assigned
    obtain ⟨rfl, rfl⟩ := found
    exact ⟨⟨larger, own'⟩, by rw [if_pos assigned]; exact ⟨rfl, rfl⟩, room, rfl⟩
  · rename_i free
    obtain ⟨place, after, fresh, rfl, rfl⟩ := found
    obtain ⟨after', fresh', room'⟩ := Emit.carries_freshPlace type request _ _ _ _ room fresh
    exact ⟨⟨after', ⟨place, type.size⟩⟩,
      by rw [if_neg free]; exact ⟨place, after', fresh', rfl, rfl⟩, room', rfl⟩

theorem carries_allocateFor (node : Node) (request : Request) :
    Carries Site.Roomier (allocateFor node request) :=
  .bind (.lift _) fun _ => carries_allocate _ _

theorem carries_slotOf (storage : Storage) (otherwise : String) :
    Carries Site.Roomier (slotOf storage otherwise) := by
  unfold slotOf
  split
  · exact .pure _
  · exact .throw _

section Leaves

theorem carries_loadContext (node : Node) (own : Storage) (offset : Int16) :
    Carries Site.Roomier (loadContext node own offset) := by
  unfold loadContext
  split
  · exact carries_emit (Emit.carries_insn _)
  · exact .bind (carries_emit (Emit.carries_insn _)) fun _ =>
      carries_emit (Emit.carries_storeReg _ _)
  · exact .bind (carries_emit (Emit.carries_insn _)) fun _ =>
      .bind (carries_emit (Emit.carries_insn _)) fun _ => carries_emit (Emit.carries_readFrom _ _)
  · exact .throw _

theorem carries_leaf (symbols : Symbols) (node : Node) (request : Request) :
    Carries Site.Roomier (leaf symbols node request) := by
  unfold leaf
  split
  · exact .pure _
  · split
    · exact .bind (carries_allocateFor _ _) fun _ => carries_emit (Emit.carries_constant _ _)
    · exact .bind (carries_allocateFor _ _) fun _ => .bind (carries_slotOf _ _) fun _ =>
        carries_emit (Emit.carries_fill _ _)
    · split
      · exact .throw _
      · split
        · exact .pure _
        · exact .bind (carries_allocateFor _ _) fun _ => carries_loadContext _ _ _
    · exact .throw _

end Leaves

section Records

theorem carries_planDot (node : Node) (request : Request) :
    Carries Site.Roomier (planDot node request) := by
  refine .bind (.lift _) ?_
  intro base
  split <;> exact .pure _

theorem carries_readMember (base : Node) (own : Storage) (offset : Nat) :
    Carries Site.Roomier (readMember base own offset) := by
  unfold readMember
  split
  · exact .throw _
  · refine .bind (carries_emit (Emit.carries_loadReg _ _)) ?_
    intro _
    split
    · exact .bind (carries_emit (Emit.carries_insn _)) fun _ =>
        carries_emit (Emit.carries_readFrom _ _)
    · exact carries_emit (Emit.carries_readFrom _ _)

theorem carries_takeMember (base : Node) (own : Storage) (offset : Nat) :
    Carries Site.Roomier (takeMember base own offset) := by
  refine .bind (carries_slotOf _ _) fun start => .bind (.lift _) ?_
  intro place
  split
  · exact .bind (carries_emit (Emit.carries_accessWidth _ _)) fun _ =>
      carries_emit (Emit.carries_insn _)
  · exact .bind (carries_emit (Emit.carries_code _)) fun _ =>
      carries_emit (Emit.carries_readFrom _ _)

theorem carries_emitDot (node : Node) (request : Request) :
    Carries Site.Roomier (emitDot node request) := by
  refine .bind (carries_allocateFor _ _) fun own => .bind (.lift _) fun base =>
    .bind (.lift _) fun type => .bind (.lift _) ?_
  intro member
  split
  · exact .throw _
  · split
    · exact carries_readMember _ _ _
    · exact carries_takeMember _ _ _

theorem carries_emitDeref (node : Node) (request : Request) :
    Carries Site.Roomier (emitDeref node request) := by
  unfold emitDeref
  split
  · exact .pure _
  · refine .bind (carries_allocateFor _ _) ?_
    intro own
    split
    · exact .pure _
    · exact .bind (.lift _) fun pointer => .bind (carries_emit (Emit.carries_loadReg _ _)) fun _ =>
        carries_emit (Emit.carries_readFrom _ _)

theorem carries_literalShape (node : Node) (own : Storage) :
    Carries Site.Roomier (literalShape node own) := by
  refine .bind (.lift _) ?_
  intro type
  split
  · exact .throw _
  · exact .bind (carries_slotOf _ _) fun _ => .pure _

theorem carries_clearGap (base : Int16) (start stop : Nat) :
    Carries Site.Roomier (clearGap base start stop) := by
  unfold clearGap
  split
  · exact .bind (.lift _) fun _ => carries_emit (Emit.carries_clear _ _)
  · exact .pure _

theorem carries_planMembers (base : Int16) (members : List (Field × Nat)) (args : List Node)
    (stop : Nat) : Carries Site.Roomier (planMembers base stop members args) := by
  induction members generalizing args stop with
  | nil => exact .pure _
  | cons member members ih =>
      obtain ⟨field, offset⟩ := member
      cases args with
      | nil => exact .pure _
      | cons arg args =>
          rw [planMembers]
          refine .bind (carries_clearGap _ _ _) ?_
          intro _
          split
          · exact .bind (.pure _) fun _ => .bind (ih _ _) fun _ => .pure _
          · exact .bind (.lift _) fun _ => .bind (.pure _) fun _ => .bind (ih _ _) fun _ => .pure _

theorem carries_planStructLiteral (node : Node) (request : Request) :
    Carries Site.Roomier (planStructLiteral node request) := by
  refine .bind (carries_allocateFor _ _) ?_
  intro _
  refine .bind (carries_literalShape _ _) ?_
  intro _
  refine .bind (carries_planMembers _ _ _ _) ?_
  intro _
  refine .bind (carries_clearGap _ _ _) ?_
  intro _
  exact .pure _

theorem carries_copyMembers (base : Int16) (args : List Node) (offsets : List Nat) :
    Carries Site.Roomier (copyMembers base args offsets) := by
  induction args generalizing offsets with
  | nil => exact .pure _
  | cons arg args ih =>
      cases offsets with
      | nil => exact .pure _
      | cons offset offsets =>
          exact .bind (.lift _) fun _ => .bind (carries_emit (Emit.carries_reach _)) fun _ =>
            .bind (carries_emit (Emit.carries_copyToSlot _ _)) fun _ => ih offsets

theorem carries_emitStructLiteral (node : Node) :
    Carries Site.Roomier (emitStructLiteral node) := by
  refine .bind (.lift _) fun type => .bind (carries_slotOf _ _) ?_
  intro base
  split
  · exact .throw _
  · exact carries_copyMembers _ _ _

end Records

section Maps

theorem carries_convert (dst src : Storage) (node : Node) :
    Carries Site.Roomier (convert dst src node) := by
  unfold convert
  split
  · exact carries_emit (Emit.carries_copyTo _ _)
  · have store (signed : Bool) : Carries Site.Roomier (do
        Emit.loadWidened .r0 src signed
        Emit.storeReg dst .r0 : AtSite Unit) :=
      .bind (carries_emit (Emit.carries_loadWidened _ _ _)) fun _ =>
        carries_emit (Emit.carries_storeReg _ _)
    split
    · exact .bind (.lift _) fun _ => .bind (.pure _) store
    · exact .bind (.pure _) store

theorem carries_move (dst src : Storage) (node : Node) :
    Carries Site.Roomier (move dst src node) := by
  unfold move
  split
  · exact .bind (carries_emit (Emit.carries_reach _)) fun _ => carries_convert _ _ _
  · exact carries_convert _ _ _

theorem carries_keySlot (subscript : Node) : Carries Site.Roomier (keySlot subscript) := by
  unfold keySlot
  split
  · refine .bind (.lift _) ?_
    intro type
    split
    · split
      · exact .pure _
      · exact .bind (carries_emit (Emit.carries_storageFor _ _ _)) fun _ =>
          .bind (carries_move _ _ _) fun _ => carries_slotOf _ _
    · exact .throw _
  · exact .throw _

theorem carries_emitLookup (symbols : Symbols) (node : Node) (own : Storage) :
    Carries Site.Roomier (emitLookup symbols node own) := by
  refine .bind (.lift _) fun _ => .bind (.lift _) ?_
  intro _
  refine .bind (carries_keySlot _) ?_
  intro _
  refine .bind (carries_slotOf _ _) ?_
  intro _
  refine .bind (carries_emit (Emit.carries_insn _)) ?_
  intro _
  refine .bind (carries_emit (Emit.carries_code _)) ?_
  intro _
  refine .bind (carries_emit (Emit.carries_insn _)) ?_
  intro _
  refine .bind (carries_emit Emit.carries_freshLabel) ?_
  intro _
  refine .bind (carries_emit Emit.carries_freshLabel) ?_
  intro _
  refine .bind (carries_emit (Emit.carries_insn _)) ?_
  intro _
  refine .bind (carries_emit (Emit.carries_readFrom _ _)) ?_
  intro _
  refine .bind (carries_emit (Emit.carries_insn _)) ?_
  intro _
  refine .bind (carries_emit (Emit.carries_bind _)) ?_
  intro _
  refine .bind (carries_emit (Emit.carries_clear _ _)) ?_
  intro _
  exact carries_emit (Emit.carries_bind _)

theorem carries_emitUpdate (symbols : Symbols) (target : Node) :
    Carries Site.Roomier (emitUpdate symbols target) := by
  refine .bind (.lift _) fun _ => .bind (.lift _) ?_
  intro _
  refine .bind (carries_keySlot _) ?_
  intro _
  refine .bind (carries_slotOf _ _) ?_
  intro _
  refine .bind (carries_emit (Emit.carries_insn _)) ?_
  intro _
  refine .bind (carries_emit (Emit.carries_code _)) ?_
  intro _
  refine .bind (carries_emit (Emit.carries_code _)) ?_
  intro _
  refine .bind (carries_emit (Emit.carries_insn _)) ?_
  intro _
  exact carries_emit (Emit.carries_insn _)

theorem carries_subscriptParts (node : Node) : Carries Site.Roomier (subscriptParts node) := by
  unfold subscriptParts
  split
  · exact .pure _
  · exact .throw _

theorem carries_emitArrayElement (node : Node) (own : Storage) :
    Carries Site.Roomier (emitArrayElement node own) := by
  refine .bind (carries_subscriptParts _) ?_
  intro parts
  dsimp only
  split
  · exact .throw _
  · exact .bind (carries_slotOf _ _) fun _ => .bind (.lift _) fun _ => .bind (.lift _) fun _ =>
      .bind (carries_emit (Emit.carries_reach _)) fun _ => carries_emit (Emit.carries_copyTo _ _)

theorem carries_emitPointerElement (node : Node) (own : Storage) :
    Carries Site.Roomier (emitPointerElement node own) := by
  refine .bind (carries_subscriptParts _) ?_
  intro parts
  dsimp only
  refine .bind (carries_emit (Emit.carries_loadReg _ _)) ?_
  intro _
  have read : Carries Site.Roomier (Emit.readFrom own .r3 : AtSite Unit) :=
    carries_emit (Emit.carries_readFrom _ _)
  split
  · split
    · exact .bind (.throw _) fun _ => read
    · split
      · exact .bind (carries_emit (Emit.carries_insn _)) fun _ => read
      · exact read
  · exact .bind (carries_emit (Emit.carries_loadReg _ _)) fun _ =>
      .bind (carries_emit (Emit.carries_insn _)) fun _ =>
      .bind (carries_emit (Emit.carries_insn _)) fun _ => read

theorem carries_planSubscript (node : Node) (request : Request) :
    Carries Site.Roomier (planSubscript node request) := by
  refine .bind (.lift _) fun collection => .bind (.lift _) ?_
  intro type
  split
  · exact .pure _
  · refine .bind (.lift _) ?_
    intro index
    split
    · exact .pure _
    · exact .throw _
  · exact .pure _
  · exact .throw _

theorem carries_emitSubscript (symbols : Symbols) (node : Node) (request : Request) :
    Carries Site.Roomier (emitSubscript symbols node request) := by
  refine .bind (.lift _) fun collection => .bind (.lift _) ?_
  intro type
  split
  · refine .check (.bind (carries_allocateFor _ _) ?_)
    intro own
    split
    · exact carries_emitLookup _ _ _
    · exact .pure _
  · exact .check (.bind (carries_allocateFor _ _) fun _ => carries_emitArrayElement _ _)
  · exact .check (.bind (carries_allocateFor _ _) fun _ => carries_emitPointerElement _ _)
  · exact .check (.throw _)

theorem carries_planAssign (node : Node) (request : Request) :
    Carries Site.Roomier (planAssign node request) := by
  refine .bind (.lift _) fun _ => .bind (.lift _) ?_
  intro _
  refine .bind (.lift _) fun _ => .bind (.lift _) ?_
  intro _
  refine .bind (carries_allocate _ _) ?_
  intro _
  refine .bind (carries_slotOf _ _) ?_
  intro _
  exact .pure _

theorem carries_emitAssign (symbols : Symbols) (node : Node) :
    Carries Site.Roomier (emitAssign symbols node) := by
  unfold emitAssign
  split
  · refine .bind (carries_move _ _ _) ?_
    intro _
    split
    · exact carries_emitUpdate _ _
    · exact .pure _
  · exact .throw _

theorem carries_emitDelete (symbols : Symbols) (node : Node) :
    Carries Site.Roomier (emitDelete symbols node) := by
  refine .bind (.lift _) fun _ => .bind (.lift _) fun _ => .bind (.lift _) ?_
  intro _
  refine .bind (carries_keySlot _) ?_
  intro _
  refine .bind (carries_emit (Emit.carries_insn _)) ?_
  intro _
  refine .bind (carries_emit (Emit.carries_code _)) ?_
  intro _
  exact carries_emit (Emit.carries_insn _)

end Maps

section Strings

theorem carries_comparisonOperands (node : Node) :
    Carries Site.Roomier (comparisonOperands node) := by
  unfold comparisonOperands
  split
  · split <;> exact .pure _
  · exact .throw _

theorem carries_comparandOf (node : Node) : Carries Site.Roomier (comparandOf node) := by
  unfold comparandOf
  split
  · exact .pure _
  · exact .bind (carries_slotOf _ _) fun _ => .pure _

theorem carries_emitStrcmp (node : Node) (request : Request) :
    Carries Site.Roomier (emitStrcmp node request) := by
  refine .bind (carries_allocateFor _ _) fun own => .bind (carries_comparisonOperands _) ?_
  intro parts
  dsimp only
  refine .bind (carries_slotOf _ _) fun _ => .bind (carries_comparandOf _) fun _ =>
    .bind (.lift _) fun _ => .bind (.lift _) fun _ =>
      .bind (carries_emit Emit.carries_freshLabel) fun _ => .bind (.lift _) fun _ =>
        .bind (carries_emit (Emit.carries_code _)) fun _ =>
          .bind (carries_emit (Emit.carries_bind _)) ?_
  intro _
  split
  · exact .bind (carries_emit (Emit.carries_insn _)) fun _ =>
      carries_emit (Emit.carries_storeReg _ _)
  · exact carries_emit (Emit.carries_storeReg _ _)

theorem carries_emitMem (node : Node) (request : Request) :
    Carries Site.Roomier (emitMem node request) := by
  refine .bind (carries_allocateFor _ _) fun _ => .bind (.lift _) ?_
  intro _
  refine .bind (carries_emit (Emit.carries_loadReg _ _)) ?_
  intro _
  exact carries_emit (Emit.carries_readFrom _ _)

theorem carries_emitStr (node : Node) (request : Request) :
    Carries Site.Roomier (emitStr node request) := by
  refine .bind (carries_allocateFor _ _) ?_
  intro _
  refine .bind (carries_slotOf _ _) ?_
  intro _
  refine .bind (carries_emit (Emit.carries_clear _ _)) fun _ => .bind (.lift _) ?_
  intro _
  refine .bind (carries_emit (Emit.carries_loadReg _ _)) ?_
  intro _
  refine .bind (carries_emit (Emit.carries_code _)) ?_
  intro _
  refine .bind (carries_emit (Emit.carries_insn _)) ?_
  intro _
  exact carries_emit (Emit.carries_insn _)

end Strings

end AtSite

namespace Operator

theorem carries_plan (operator : Operator) (node : Node) (request : Request) :
    Carries Site.Roomier (operator.plan node request) := by
  cases operator with
  | dot => exact AtSite.carries_planDot _ _
  | structLiteral => exact AtSite.carries_planStructLiteral _ _
  | subscript => exact AtSite.carries_planSubscript _ _
  | assign => exact AtSite.carries_planAssign _ _
  | delete | strcmp | deref | mem | str | arrow => exact .pure _

theorem carries_emit (operator : Operator) (symbols : Symbols) (node : Node) (request : Request) :
    Carries Site.Roomier (operator.emit symbols node request) := by
  cases operator with
  | dot => exact AtSite.carries_emitDot _ _
  | deref => exact AtSite.carries_emitDeref _ _
  | structLiteral => exact AtSite.carries_emitStructLiteral _
  | subscript => exact AtSite.carries_emitSubscript _ _ _
  | assign => exact AtSite.carries_emitAssign _ _
  | delete => exact AtSite.carries_emitDelete _ _
  | strcmp => exact AtSite.carries_emitStrcmp _ _
  | mem => exact AtSite.carries_emitMem _ _
  | str => exact AtSite.carries_emitStr _ _
  | arrow => exact .pure _

end Operator

namespace Node

theorem carries_planApplication (node : Node) (request : Request) :
    Carries Site.Roomier (node.planApplication request) := by
  refine .bind (AtSite.carries_diagnostic _) fun description =>
    .bind (Operator.carries_plan _ _ _) ?_
  intro plan
  split
  · exact .pure _
  · exact .throw _

theorem carries_finishApplication (symbols : Symbols) (node : Node) (request : Request) :
    Carries Site.Roomier (node.finishApplication symbols request) := by
  refine .bind (AtSite.carries_diagnostic _) ?_
  intro description
  exact description.operator.carries_emit _ _ _

variable {symbols : Symbols} {stream larger finish : Stream}

/-- Trees that are emitted one after the other, if each of them is. -/
theorem emitsAll_roomier {nodes trees : List Node} {requests : List Request}
    (each : ∀ node ∈ nodes, ∀ request stream larger tree finish, stream.Roomier larger →
      Emits symbols node request stream tree finish →
        ∃ finish', Emits symbols node request larger tree finish' ∧ finish.Roomier finish')
    (room : stream.Roomier larger) (found : EmitsAll symbols nodes requests stream trees finish) :
    ∃ finish', EmitsAll symbols nodes requests larger trees finish' ∧ finish.Roomier finish' := by
  induction nodes generalizing requests stream larger trees with
  | nil =>
      obtain ⟨rfl, rfl⟩ := emitsAll_nil_iff.mp found
      exact ⟨larger, emitsAll_nil_iff.mpr ⟨rfl, rfl⟩, room⟩
  | cons node nodes ih =>
      cases requests with
      | nil =>
          unfold EmitsAll at found ⊢
          simp only [emitAll] at found ⊢
          cases found
          exact ⟨larger, rfl, room⟩
      | cons request requests =>
          obtain ⟨first, middle, others, head, tail, rfl⟩ := emitsAll_cons_iff.mp found
          obtain ⟨middle', head', room⟩ := each node List.mem_cons_self _ _ _ _ _ room head
          obtain ⟨finish', tail', room⟩ :=
            ih (fun other member => each other (List.mem_cons_of_mem _ member)) room tail
          exact ⟨finish', emitsAll_cons_iff.mpr ⟨first, middle', others, head', tail', rfl⟩, room⟩

theorem emits_roomier {node tree : Node} {request : Request} (room : stream.Roomier larger)
    (found : Emits symbols node request stream tree finish) :
    ∃ finish', Emits symbols node request larger tree finish' ∧ finish.Roomier finish' := by
  induction node using induct generalizing request stream larger tree finish with
  | leaf node leaf =>
      obtain ⟨own, emitted, rfl⟩ := (emits_leaf_iff leaf).mp found
      obtain ⟨⟨finish', own'⟩, emitted', room', same⟩ :=
        AtSite.carries_leaf symbols node request ⟨stream, node.storage⟩ ⟨larger, node.storage⟩ _ _
          ⟨room, rfl⟩ emitted
      obtain rfl : own' = own := same
      exact ⟨finish', (emits_leaf_iff leaf).mpr ⟨own', emitted', rfl⟩, room'⟩
  | apply operator args info ih =>
      obtain ⟨plan, ⟨planned, own⟩, trees, middle, last, plans, inner, finishes, rfl⟩ :=
        emits_apply_iff.mp found
      obtain ⟨⟨planned', own'⟩, plans', room', same⟩ :=
        carries_planApplication _ _ ⟨stream, info.storage⟩ ⟨larger, info.storage⟩
            _ _ ⟨room, rfl⟩ plans
      obtain rfl : own' = own := same
      obtain ⟨middle', inner', room'⟩ :=
        emitsAll_roomier (fun node member _ _ _ _ _ room found => ih node member room found)
            room' inner
      obtain ⟨⟨finish', last'⟩, finishes', room', same⟩ :=
        carries_finishApplication _ _ _ ⟨middle, own'⟩ ⟨middle', own'⟩ _ _ ⟨room', rfl⟩ finishes
      obtain rfl : last' = last := same
      exact ⟨finish', emits_apply_iff.mpr
        ⟨plan, ⟨planned', own'⟩, trees, middle', last', plans', inner', finishes', rfl⟩, room'⟩

end Node

end TraceProbe
