import TraceProbe.Typing.Basic

/-!
# Scopes

What the symbols of a probe and the registry of its unit keep up while
inference extends them: maps have numbers of their own, types are set once, and
anonymous structs are the records of their members.
-/

namespace TraceProbe

namespace Symbols

/-- Symbols as they come about: declared, resolved and typed. -/
inductive Built : Symbols → Prop
  | new : Built {}
  | declareContext {symbols : Symbols} (name : String) (type : Ty) (offset : Int16) :
      Built symbols → Built (symbols.declareContext name type offset).2
  | declareMap {symbols : Symbols} (name : String) (type : Ty) :
      Built symbols → Built (symbols.declareMap name type).2
  | resolve {symbols : Symbols} (name : String) :
      Built symbols → Built (symbols.resolve name).2
  | setType {symbols : Symbols} (name : String) (type : Ty) :
      Built symbols → Built (symbols.setType name type)

/-- The numbers of the maps. -/
def numbers (symbols : Symbols) : List Nat :=
  symbols.entries.filterMap (·.kind.map?)

/-- Every map has a number of its own, and the next number is free. -/
structure Numbered (symbols : Symbols) : Prop where
  distinct : symbols.numbers.Nodup
  below : ∀ number ∈ symbols.numbers, number < symbols.nextMap

/-- The type that is known for a name. -/
def typeOf? (symbols : Symbols) (name : String) : Option Ty :=
  (symbols.get? name).bind (·.type)

/-- Later symbols: nothing that is known for a name changes. -/
def Before (symbols later : Symbols) : Prop :=
  ∀ name symbol, symbols.get? name = some symbol →
    ∃ same, later.get? name = some same ∧ same.kind = symbol.kind ∧
      ∀ type, symbol.type = some type → same.type = some type

variable {symbols later last : Symbols} {name : String}

theorem Before.refl (symbols : Symbols) : symbols.Before symbols := by
  intro _ symbol found
  exact ⟨symbol, found, rfl, fun _ => id⟩

theorem Before.trans (first : symbols.Before later) (second : later.Before last) :
    symbols.Before last := by
  intro name symbol found
  obtain ⟨same, known, kind, typed⟩ := first name symbol found
  obtain ⟨other, known', otherKind, otherTyped⟩ := second name same known
  exact ⟨other, known', otherKind.trans kind, fun type given => otherTyped type (typed type given)⟩

theorem Before.typeOf? (before : symbols.Before later) {type : Ty}
    (known : symbols.typeOf? name = some type) : later.typeOf? name = some type := by
  obtain ⟨symbol, found, typed⟩ := Option.bind_eq_some_iff.mp known
  obtain ⟨same, there, -, keeps⟩ := before name symbol found
  exact Option.bind_eq_some_iff.mpr ⟨same, there, keeps type typed⟩

theorem Numbered.reserve (numbered : symbols.Numbered) : symbols.reserveMap.Numbered := by
  constructor
  · exact numbered.distinct
  · intro number member
    exact Nat.lt_succ_of_lt (numbered.below number member)

theorem Numbered.pushContext (numbered : symbols.Numbered) {type : Option Ty} {offset : Int16} :
    (symbols.push ⟨name, type, .context offset⟩).Numbered := by
  have same : (symbols.push ⟨name, type, .context offset⟩).numbers = symbols.numbers := by
    simp [numbers, push, SymbolKind.map?]
  exact ⟨same ▸ numbered.distinct, fun number member => numbered.below number (same ▸ member)⟩

theorem Numbered.pushMap (numbered : symbols.Numbered) {type : Option Ty} :
    (symbols.reserveMap.push ⟨name, type, .map symbols.nextMap⟩).Numbered := by
  have added : (symbols.reserveMap.push ⟨name, type, .map symbols.nextMap⟩).numbers =
      symbols.numbers ++ [symbols.nextMap] := by
    simp [numbers, push, reserveMap, SymbolKind.map?]
  constructor
  · rw [added]
    refine List.nodup_append.mpr ⟨numbered.distinct, List.pairwise_singleton _ _, ?_⟩
    intro number member last same
    have below := numbered.below number member
    rw [List.mem_singleton.mp same]
    exact Nat.ne_of_lt below
  · intro number member
    rw [added] at member
    rcases List.mem_append.mp member with earlier | last
    · exact Nat.lt_succ_of_lt (numbered.below number earlier)
    · exact Nat.lt_succ_of_le (Nat.le_of_eq (List.mem_singleton.mp last))

theorem numbers_setType (type : Ty) : (symbols.setType name type).numbers = symbols.numbers := by
  unfold numbers setType
  rw [List.filterMap_map]
  congr
  funext symbol
  simp only [Function.comp]
  split <;> rfl

theorem Numbered.setType (numbered : symbols.Numbered) (type : Ty) :
    (symbols.setType name type).Numbered := by
  constructor
  · exact (numbers_setType type).symm ▸ numbered.distinct
  · intro number member
    rw [numbers_setType] at member
    exact numbered.below number member

theorem Numbered.resolve (numbered : symbols.Numbered) (name : String) :
    (symbols.resolve name).2.Numbered := by
  unfold Symbols.resolve
  split
  · exact numbered
  · exact numbered.pushMap

theorem Built.numbered (built : symbols.Built) : symbols.Numbered := by
  induction built with
  | new => exact ⟨List.nodup_nil, fun _ member => (by cases member)⟩
  | declareContext name type offset _ ih =>
      unfold Symbols.declareContext insert
      split
      · exact ih
      · exact ih.pushContext
  | declareMap name type _ ih =>
      unfold Symbols.declareMap insert
      split
      · split
        · exact ih.reserve
        · exact ih.pushMap
      · exact ih
  | resolve name _ ih => exact ih.resolve name
  | setType name type _ ih => exact ih.setType type

/-- Symbols as inference may leave them behind: nothing that is known changes, and
maps still have numbers of their own. -/
structure Later (symbols later : Symbols) : Prop where
  before : symbols.Before later
  numbered : symbols.Numbered → later.Numbered

theorem Later.refl (symbols : Symbols) : symbols.Later symbols :=
  ⟨.refl symbols, id⟩

theorem Later.trans (first : symbols.Later later) (second : later.Later last) :
    symbols.Later last :=
  ⟨first.before.trans second.before, second.numbered ∘ first.numbered⟩

section Changes

variable {symbol : Symbol}

theorem name_of_get? (known : symbols.get? name = some symbol) : symbol.name = name := by
  have holds :=
    List.find?_some (show symbols.entries.find? (·.name = name) = some symbol from known)
  exact of_decide_eq_true holds

theorem get?_push (known : symbols.get? name = some symbol) (added : Symbol) :
    (symbols.push added).get? name = some symbol := by
  unfold get? push at *
  rw [List.find?_append, known]
  rfl

theorem resolve_of_get? (known : symbols.get? name = some symbol) :
    symbols.resolve name = (symbol, symbols) := by
  rw [resolve, known]

theorem resolve_spec (symbols : Symbols) (name : String) :
    symbols.Before (symbols.resolve name).2 ∧
      (symbols.resolve name).1.type = symbols.typeOf? name ∧
      ∀ other, (symbols.resolve name).2.typeOf? other = symbols.typeOf? other := by
  unfold resolve typeOf?
  cases found : symbols.get? name with
  | some symbol => exact ⟨.refl symbols, rfl, fun _ => rfl⟩
  | none =>
      refine ⟨fun other symbol known => ⟨symbol, get?_push known _, rfl, fun _ => id⟩, rfl, ?_⟩
      intro other
      cases known : symbols.get? other with
      | some symbol =>
          have later : (symbols.reserveMap.push _).get? other = some symbol := get?_push known
            ⟨name, none, .map symbols.nextMap⟩
          rw [later]
      | none =>
          unfold get? at known ⊢
          simp only [push, reserveMap, List.find?_append, known, Option.none_or]
          cases first : [Symbol.mk name none (.map symbols.nextMap)].find? (·.name = other) with
          | none => rfl
          | some symbol =>
              obtain rfl := List.mem_singleton.mp (List.mem_of_find?_eq_some first)
              rfl

theorem get?_resolve (symbols : Symbols) (name : String) :
    (symbols.resolve name).2.get? name = some (symbols.resolve name).1 := by
  unfold resolve
  cases found : symbols.get? name with
  | some symbol => exact found
  | none =>
      unfold get? at found ⊢
      simp [push, reserveMap, List.find?_append, found]

/-- The symbol of a name once a type is recorded for another or the same name. -/
theorem get?_setType (other : String) (type : Ty) :
    (symbols.setType name type).get? other =
      (symbols.get? other).map fun symbol =>
        if symbol.name = name ∧ symbol.type.isNone then { symbol with type := some type }
        else symbol := by
  unfold get? setType
  rw [List.find?_map]
  congr
  funext symbol
  simp only [Function.comp]
  split <;> rfl

theorem before_setType (type : Ty) : symbols.Before (symbols.setType name type) := by
  intro other symbol known
  rw [get?_setType, known, Option.map_some]
  refine ⟨_, rfl, ?_, ?_⟩
  · split <;> rfl
  · intro given typed
    split
    · rename_i both
      simp [typed] at both
    · exact typed

theorem typeOf?_setType (known : symbols.get? name = some symbol) (untyped : symbol.type = none)
    (type : Ty) : (symbols.setType name type).typeOf? name = some type := by
  have same := name_of_get? known
  unfold typeOf?
  rw [get?_setType, known, Option.map_some, Option.bind_some, if_pos ⟨same, by rw [untyped]; rfl⟩]

theorem typeOf?_setType_of_ne {other : String} (different : name ≠ other) (type : Ty) :
    (symbols.setType name type).typeOf? other = symbols.typeOf? other := by
  unfold typeOf?
  rw [get?_setType]
  cases found : symbols.get? other with
  | none => rfl
  | some symbol =>
      have same := name_of_get? found
      rw [Option.map_some, if_neg fun both => different (both.1.symm.trans same)]

end Changes

end Symbols

namespace Registry

/-- Every anonymous struct is the record of its members, and the names of the
next ones are free. -/
structure Honest (registry : Registry) : Prop where
  shapes : ∀ members type, (members, type) ∈ registry.shapes →
    ∃ name, type = .record ⟨name, positionalFields members, false, false⟩
  free : ∀ number, registry.made ≤ number → registry.lookup? s!":anon_{number}" = none

theorem anonymousName_injective {left right : Nat}
    (same : s!":anon_{left}" = s!":anon_{right}") : left = right := by
  have digits : Nat.toDigits 10 left = Nat.toDigits 10 right := by
    simpa [toString] using congrArg String.toList same
  have found := congrArg (Nat.ofDigitChars 10 · 0) digits
  simpa using found

variable {registry : Registry}

theorem Honest.add (honest : registry.Honest) {type : Ty}
    (other : ∀ number : Nat, type.registeredName ≠ s!":anon_{number}") :
    (registry.add type).2.Honest := by
  unfold Registry.add
  split
  · exact honest
  · refine ⟨honest.shapes, ?_⟩
    intro number later
    have before := honest.free number later
    unfold lookup? at before ⊢
    rw [List.lookup_append, before, Option.none_or, List.lookup_cons]
    rw [beq_false_of_ne (other number).symm]
    rfl

theorem honest_new : new.Honest := by
  have start : empty.Honest := ⟨fun _ _ member => (by cases member), fun _ _ => rfl⟩
  have named (kind : Scalar) (number : Nat) :
      (Ty.scalar kind).registeredName ≠ s!":anon_{number}" := by
    intro same
    have first := congrArg (·.toList.head?) same
    have plain : toString ":anon_" = ":anon_" := rfl
    rw [plain] at first
    cases kind <;> simp [Ty.registeredName, Ty.text, Scalar.name] at first
  have all (kinds : List Scalar) {registry : Registry} (honest : registry.Honest) :
      (kinds.foldl (fun registry kind => (registry.add (.scalar kind)).2) registry).Honest := by
    induction kinds generalizing registry with
    | nil => exact honest
    | cons kind kinds ih => exact ih (honest.add (named kind))
  exact all Scalar.all start

theorem Honest.anonymousStruct (honest : registry.Honest) (members : List Ty) :
    (registry.anonymousStruct members).2.Honest ∧
      ∃ name, (registry.anonymousStruct members).1 =
        .record ⟨name, positionalFields members, false, false⟩ := by
  unfold Registry.anonymousStruct
  cases found : registry.shapes.lookup members with
  | some present =>
      obtain ⟨_, _, split, -⟩ := List.lookup_eq_some_iff.mp found
      refine ⟨honest, honest.shapes members present ?_⟩
      rw [split]
      exact List.mem_append_right _ List.mem_cons_self
  | none =>
      let type : Ty :=
        .record ⟨s!":anon_{registry.made}", positionalFields members, false, false⟩
      let more : Registry :=
        { registry with shapes := registry.shapes ++ [(members, type)], made := registry.made + 1 }
      have free := honest.free registry.made (Nat.le_refl _)
      have added : more.add type =
          (type, { more with named := more.named ++ [(type.registeredName, type)] }) := by
        unfold Registry.add
        rw [show more.lookup? type.registeredName = none from free]
      show (more.add type).2.Honest ∧ _
      rw [added]
      refine ⟨⟨?_, ?_⟩, ⟨_, rfl⟩⟩
      · intro others other member
        rcases List.mem_append.mp member with earlier | last
        · exact honest.shapes others other earlier
        · obtain ⟨rfl, rfl⟩ := Prod.mk.inj (List.mem_singleton.mp last)
          exact ⟨_, rfl⟩
      · intro number later
        have later : registry.made + 1 ≤ number := later
        have before := honest.free number (by omega)
        have different : s!":anon_{number}" ≠ s!":anon_{registry.made}" := fun same => by
          have equal := anonymousName_injective same
          omega
        unfold lookup? at before ⊢
        show ((registry.named ++ [(s!":anon_{registry.made}", type)]).lookup _) = none
        rw [List.lookup_append, before, Option.none_or, List.lookup_cons, beq_false_of_ne different]
        rfl

end Registry

end TraceProbe
