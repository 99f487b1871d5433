import TraceProbe.Proofs.Emission.AuditedMoves
import TraceProbe.Proofs.Emission.MapNames

/-!
# Calls of map helpers under audit

Every call of a map helper refers to a map of the program, to a slot with a key
of that map and, where it stores, to the slot of the assignment's target.  The
bytes of these slots have been written on every walk to the call.
-/

namespace TraceProbe

namespace Facts

variable (symbols : Symbols) (slots : Int16 → Nat → Prop) (targets : Node → Prop)

/-- A map, and a slot with a key of its size. -/
structure Keyed (facts : Facts) (name : String) (shape : MapShape) (key : Int16) : Prop where
  map : symbols.map? name = some shape
  number : facts.known .r1 = .map shape.number
  place : facts.known .r2 = .place key.toInt
  slot : slots key shape.key.size
  written : ∀ position, Slot key shape.key.size position → facts.written position

/-- The slot of a target, which is an element of a map and has a type that its
values are compatible with. -/
structure Aimed (facts : Facts) (name : String) (shape : MapShape) (target : Node)
    (type : Ty) (value : Int16) : Prop where
  among : targets target
  map : target.mapName? = some name
  typed : target.type? = some type
  fits : shape.value.compatible type = true
  stored : target.storage = ⟨.slot value, type.size⟩
  place : facts.known .r3 = .place value.toInt
  written : ∀ position, Slot value type.size position → facts.written position

/-- What is asked of a call of a map helper. -/
def Agrees (helper : Helper) (facts : Facts) : Prop :=
  ∃ name shape key, facts.Keyed symbols slots name shape key ∧
    (helper = .mapUpdateElem → ∃ target type value,
      facts.Aimed targets name shape target type value)

end Facts

namespace AtSite

open Insn

variable {symbols : Symbols} {slots : Int16 → Nat → Prop} {targets : Node → Prop}
  {good : Helper → Facts → Prop} {written : Int → Prop} {stream : Stream}
  {own : Storage} {site : Site}
  {node : Node} {slot : Int16} {number : Nat}

/-- An element whose key is in the frame already. -/
structure Element (symbols : Symbols) (slots : Int16 → Nat → Prop) (written : Int → Prop)
    (node : Node) : Prop where
  applies : node.applies "[]" = true
  ready : ∀ key, node.args[1]? = some key →
      ∀ position, key.storage.Covers position → written position
  slotted : ∀ key, node.args[1]? = some key → ∀ offset, key.storage.place = .slot offset →
    slots offset key.storage.size
  named : ∀ {stream : Stream} {own : Storage} {slot : Int16} {site : Site} {number : Nat},
    Yields (keySlot node) ⟨stream, own⟩ slot site → Refers symbols node number →
      ∃ map key name shape, node.args = [map, key] ∧ map.type? = some (MapShape.type shape) ∧
        map.ident? = some name ∧ symbols.map? name = some shape ∧ shape.number = number ∧
        ∀ type, node.type? = some type → shape.value.compatible type = true

theorem Element.mono {more : Int → Prop} (element : Element symbols slots written node)
    (enough : ∀ position, written position → more position) : Element symbols slots more node where
  applies := element.applies
  ready key second position covers := enough position (element.ready key second position covers)
  slotted := element.slotted
  named := element.named

/-- The key of an element gets into a slot of its size. -/
theorem Element.keyed (element : Element symbols slots written node) (small : stream.limit ≤ 32767)
    (handed : ∀ offset size, stream.HandsOut site.stream offset size → slots offset size)
    (found : Yields (keySlot node) ⟨stream, own⟩ slot site) (refers : Refers symbols node number) :
    site.own = own ∧ ∃ name shape, node.mapName? = some name ∧ symbols.map? name = some shape ∧
      shape.number = number ∧
      (∀ type, node.type? = some type → shape.value.compatible type = true) ∧
      slots slot shape.key.size ∧ stream.Audits good written site.stream
        (Slot slot shape.key.size) := by
  obtain ⟨map, key, name, shape, arguments, known, named, symbol, same, fits⟩ :=
    element.named found refers
  have second : node.args[1]? = some key := by rw [arguments]; rfl
  have mapName : node.mapName? = some name := by
    simp [Node.mapName?, element.applies, arguments, named]
  obtain ⟨map', key', _, _, _, arguments', known', origin⟩ := yields_keySlot found
  rw [arguments] at arguments'
  cases arguments'
  rw [known] at known'
  cases known'
  refine ⟨?_, name, shape, mapName, symbol, same, fits, ?_⟩
  · rcases origin with ⟨-, rfl⟩ | ⟨_, -, -, converted⟩
    · rfl
    · exact (moved_convert converted).1
  · rcases origin with ⟨placed, rfl⟩ | ⟨middle, some, reserved, converted⟩
    · have slotted := element.slotted key second slot (by rw [placed])
      rw [placed] at slotted
      refine ⟨slotted, (Stream.Audits.same rfl).weaken (fun _ => id) ?_⟩
      intro position inside
      refine element.ready key second position ?_
      rw [placed]
      exact Storage.covers_slot.mpr inside
    · have extended := Stream.extends_freshSlot reserved
      obtain ⟨-, code, moved⟩ := moved_convert converted
      refine ⟨handed slot _
        ((Stream.handsOut_of_freshSlot reserved).mono (.refl stream) moved.extended), ?_⟩
      have fillable : Storage.Fillable ⟨.slot slot, shape.key.size⟩ := by
        refine ⟨fun same => (by cases same), ?_⟩
        intro position covers
        have below := (Stream.handed_of_freshSlot small reserved covers).2
        omega
      have filled : middle.Audits good written site.stream
          (Storage.Covers ⟨.slot slot, shape.key.size⟩) :=
        audits_convert fillable (fun position _ covers => element.ready key second position covers)
            converted
      exact (filled.later extended).weaken (fun _ => id) fun _ => Storage.covers_slot.mpr

section Hooks

variable {info : Info} {storage : Storage}
  (element : Element symbols slots written node) (small : stream.limit ≤ 32767)
  (handed : ∀ offset size, stream.HandsOut site.stream offset size → slots offset size)
include element small handed

theorem audits_lookup (fillable : storage.Fillable)
    (found : Yields (emitLookup symbols node storage) ⟨stream, own⟩ () site) :
    stream.Audits (Facts.Agrees symbols slots targets) written site.stream storage.Covers := by
  obtain ⟨number, slot, between, offset, miss, hit, refers, keyed, placed, different, grows, -⟩ :=
    emitLookup_code found
  obtain ⟨place, size⟩ := storage
  obtain rfl : place = .slot offset := placed
  obtain ⟨-, name, shape, mapName, symbol, rfl, fits, slotted, before⟩ := element.keyed small
    (fun offset size hands => handed offset size (hands.mono (.refl stream) grows.toExtends))
    keyed refers
  refine (before.append ⟨_, grows.code,
    audit_lookupCode different fillable.slot fun facts has map key =>
      ⟨name, shape, slot, ⟨symbol, map, key, slotted, ?_⟩, fun same => by cases same⟩⟩).weaken
          (fun _ => id) fun position covers => .inr (Storage.covers_slot.mp covers)
  intro position inside
  exact has.written position (.inr inside)

/-- An update is made with the slot of its target. -/
theorem audits_update {type : Ty} {value : Int16} (among : targets node)
    (typed : node.type? = some type) (stored : node.storage = ⟨.slot value, type.size⟩)
    (filled : ∀ position, Slot value type.size position → written position)
    (found : Yields (emitUpdate symbols node) ⟨stream, own⟩ () site) :
    stream.Audits (Facts.Agrees symbols slots targets) written site.stream fun _ => False := by
  obtain ⟨number, slot, value', between, refers, keyed, placed, rfl⟩ := emitUpdate_code found
  obtain rfl : value = value' := by
    rw [stored] at placed
    exact Place.slot.inj placed
  have extended : between.stream.Extends (between.stream.append (updateCode number slot value)) _ :=
    Stream.extends_append rfl
  obtain ⟨-, name, shape, mapName, symbol, rfl, fits, slotted, before⟩ := element.keyed small
    (fun offset size hands => handed offset size (hands.mono (.refl stream) extended)) keyed refers
  refine (before.append
    (.of_append (audit_updateCode fun facts has map key place =>
      ⟨name, shape, slot, ⟨symbol, map, key, slotted, ?_⟩,
          fun _ =>
            ⟨node, type, value, among, mapName, typed, fits type typed, stored, place,
                ?_⟩⟩))).weaken (fun _ => id) fun _ none => none.elim
  · intro position inside
    exact has.written position (.inr inside)
  · intro position inside
    exact has.written position (.inl (filled position inside))

end Hooks

/-- A removal is made with the key of its target. -/
theorem audits_delete {target : Node} (first : node.argument 0 = .ok target)
    (element : Element symbols slots written target) (small : stream.limit ≤ 32767)
    (handed : ∀ offset size, stream.HandsOut site.stream offset size → slots offset size)
    (found : Yields (emitDelete symbols node) ⟨stream, own⟩ () site) :
    stream.Audits (Facts.Agrees symbols slots targets) written site.stream fun _ => False := by
  obtain ⟨number, slot, between, refers, keyed, rfl⟩ := emitDelete_code first found
  have extended : between.stream.Extends (between.stream.append (deleteCode number slot)) _ :=
    Stream.extends_append rfl
  obtain ⟨-, name, shape, mapName, symbol, rfl, fits, slotted, before⟩ := element.keyed small
    (fun offset size hands => handed offset size (hands.mono (.refl stream) extended)) keyed refers
  refine (before.append
    (.of_append (audit_named fun facts has map key =>
      ⟨name, shape, slot, ⟨symbol, map, key, slotted, ?_⟩, fun same => by cases same⟩))).weaken
          (fun _ => id) fun _ none => none.elim
  intro position inside
  exact has.written position (.inr inside)

end AtSite

end TraceProbe
