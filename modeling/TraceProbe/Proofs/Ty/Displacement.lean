import TraceProbe.Proofs.Ty.Reading

/-!
# Displaced maps

What is written behind the value of a map may as well stand around the whole map.
Moving such layers inwards leaves the text of a type as it is and no map buried, so
types of one text differ at most in the places of their maps.
-/

namespace TraceProbe.Ty

/-- Two types that differ in the place of a map: somewhere one of them has a map where
the other has a pointer, an array or a function. -/
inductive Displaced : Ty → Ty → Prop
  | outside {key value type : Ty} {kind : MapKind} (layer : Layer) :
      Displaced (map key value kind) (layer.wrap type)
  | inside {key value type : Ty} {kind : MapKind} (layer : Layer) :
      Displaced (layer.wrap type) (map key value kind)
  | target {left right : Ty} : Displaced left right →
      Displaced (pointer left) (pointer right)
  | element {left right : Ty} {length length' : Nat} : Displaced left right →
      Displaced (array left length) (array right length')
  | key {left right value value' : Ty} {kind kind' : MapKind} : Displaced left right →
      Displaced (map left value kind) (map right value' kind')
  | value {left right key key' : Ty} {kind kind' : MapKind} : Displaced left right →
      Displaced (map key left kind) (map key' right kind')
  | result {left right : Ty} {parameters parameters' : List Ty} {variadic variadic' : Bool} :
      Displaced left right →
        Displaced (function ⟨left, parameters, variadic⟩)
          (function ⟨right, parameters', variadic'⟩)
  | parameter {left right result result' : Ty} {parameters parameters' : List Ty}
      {variadic variadic' : Bool} {index : Nat} :
      parameters[index]? = some left → parameters'[index]? = some right →
        Displaced left right →
          Displaced (function ⟨result, parameters, variadic⟩)
            (function ⟨result', parameters', variadic'⟩)

variable {left right : Ty}

theorem compatible_of_compatibleAll {lefts rights : List Ty} {index : Nat}
    (fit : compatibleAll lefts rights = true) (first : lefts[index]? = some left)
    (second : rights[index]? = some right) : left.compatible right = true := by
  induction lefts generalizing rights index with
  | nil => cases first
  | cons type types ih =>
      cases rights with
      | nil => cases second
      | cons other others =>
          rw [compatibleAll, Bool.and_eq_true] at fit
          cases index with
          | zero =>
              cases first
              cases second
              exact fit.1
          | succ index => exact ih fit.2 first second

theorem Displaced.not_compatible (displaced : Displaced left right) :
    left.compatible right = false := by
  induction displaced with
  | outside layer => cases layer <;> rfl
  | inside layer => cases layer <;> rfl
  | target _ ih => exact ih
  | element _ ih => rw [compatible, ih, Bool.and_false]
  | key _ ih => rw [compatible, ih, Bool.false_and]
  | value _ ih => rw [compatible, ih, Bool.and_false]
  | result _ ih => rw [compatible, ih, Bool.and_false, Bool.false_and]
  | parameter first second _ ih =>
      have apart := fun fit => compatible_of_compatibleAll fit first second
      rw [ih] at apart
      rw [compatible, Bool.eq_false_iff.mpr fun fit => Bool.false_ne_true (apart fit),
        Bool.and_false]

/-- The layer around the innermost value of a map, or else around the type. -/
def Layer.sink (layer : Layer) : Ty → Ty
  | .map key value kind => .map key (layer.sink value) kind
  | type => layer.wrap type
termination_by structural type => type

mutual

/-- The type with all layers moved inwards, past every map. -/
def unburied : Ty → Ty
  | void => void
  | scalar kind => scalar kind
  | pointer target => Layer.pointer.sink target.unburied
  | array element length => (Layer.array length).sink element.unburied
  | record shape => record shape
  | map key value kind => map key.unburied value.unburied kind
  | function ⟨result, parameters, variadic⟩ =>
      (Layer.call (unburiedAll parameters) variadic).sink result.unburied
termination_by structural type => type

/-- Several types with their layers moved inwards. -/
def unburiedAll : List Ty → List Ty
  | [] => []
  | type :: types => type.unburied :: unburiedAll types
termination_by structural types => types

end

section Sinking

variable {layer layer' : Layer} {type : Ty}

/-- A layer is written at the end, on which side of a map it may stand. -/
theorem Layer.characters_sink (layer : Layer) :
    ∀ type : Ty, (layer.sink type).characters = type.characters ++ layer.characters
  | .map key value kind => by
      rw [sink, characters_map, characters_map, characters_sink layer value]
      simp
  | .void | .scalar _ | .pointer _ | .array _ _ | .record _ | .function _ =>
      characters_wrap layer _

theorem Layer.readable_sink (layer : Layer)
    (plain : ∀ parameter ∈ layer.parameters, Readable parameter) :
    ∀ type : Ty, Readable type → Readable (layer.sink type)
  | .map key value kind, readable => by
      obtain ⟨keys, values⟩ := readable_map_iff.mp readable
      rw [sink, readable_map_iff]
      exact ⟨keys, readable_sink layer plain value values⟩
  | .void, readable | .scalar _, readable | .pointer _, readable | .array _ _, readable
  | .record _, readable | .function _, readable =>
      (readable_wrap_iff layer).mpr ⟨readable, rfl, plain⟩

theorem Layer.essence_wrap_iff {left right : Ty} :
    (layer.wrap left).essence = (layer'.wrap right).essence ↔
      left.essence = right.essence ∧
        (layer.wrap void).essence = (layer'.wrap void).essence := by
  cases layer <;> cases layer' <;> simp [wrap, essence]

/-- What is alike with layers moved inwards has alike layers, and alike types inside. -/
theorem Layer.essence_sink : ∀ {left right : Ty},
    (layer.sink left).essence = (layer'.sink right).essence →
      left.essence = right.essence ∧ (layer.wrap void).essence = (layer'.wrap void).essence
  | .map key value kind, right, alike => by
      cases right with
      | map key' value' kind' =>
          obtain ⟨keys, values, -⟩ := Ty.map.inj alike
          obtain ⟨inner, layers⟩ := essence_sink values
          exact ⟨by rw [essence, essence, keys, inner], layers⟩
      | _ => cases layer' <;> cases alike
  | .void, right, alike | .scalar _, right, alike | .pointer _, right, alike
  | .array _ _, right, alike | .record _, right, alike | .function _, right, alike => by
      cases right with
      | map key value kind => cases layer <;> cases alike
      | _ => exact essence_wrap_iff.mp alike

theorem Layer.essence_sink_ne {base : Ty} (simple : Base base) :
    base.essence ≠ (layer.sink type).essence := by
  intro alike
  cases simple <;> cases type <;> cases layer <;> cases alike

end Sinking

mutual

theorem characters_unburied : ∀ type : Ty, type.unburied.characters = type.characters
  | void | scalar _ | record _ => rfl
  | pointer target => by
      rw [unburied, Layer.characters_sink, characters_unburied target]
      exact (characters_pointer target).symm
  | array element length => by
      rw [unburied, Layer.characters_sink, characters_unburied element]
      exact (characters_array element length).symm
  | map key value kind => by
      rw [unburied, characters_map, characters_map, characters_unburied key,
        characters_unburied value]
  | function ⟨result, parameters, variadic⟩ => by
      rw [unburied, Layer.characters_sink, characters_unburied result, characters_function,
        Layer.characters, parameterCharacters_unburied]

theorem furtherCharacters_unburied (variadic : Bool) : ∀ types : List Ty,
    furtherCharacters variadic (unburiedAll types) = furtherCharacters variadic types
  | [] => rfl
  | type :: types => by
      rw [unburiedAll, furtherCharacters, furtherCharacters, characters_unburied type,
        furtherCharacters_unburied variadic types]

theorem parameterCharacters_unburied (variadic : Bool) : ∀ types : List Ty,
    parameterCharacters variadic (unburiedAll types) = parameterCharacters variadic types
  | [] => rfl
  | type :: types => by
      rw [unburiedAll, parameterCharacters, parameterCharacters, characters_unburied type,
        furtherCharacters_unburied variadic types]

end

mutual

theorem readable_unburied : ∀ type : Ty, type.worded = true → Readable type.unburied
  | void, _ | scalar _, _ => ⟨rfl, rfl⟩
  | record _, worded => ⟨worded, rfl⟩
  | pointer target, worded => by
      apply Layer.readable_sink .pointer
      · intro parameter among
        cases among
      · exact readable_unburied target worded
  | array element length, worded => by
      apply Layer.readable_sink (.array length)
      · intro parameter among
        cases among
      · exact readable_unburied element worded
  | map key value kind, worded => by
      obtain ⟨keys, values⟩ := Bool.and_eq_true_iff.mp worded
      exact readable_map_iff.mpr ⟨readable_unburied key keys, readable_unburied value values⟩
  | function ⟨result, parameters, variadic⟩, worded => by
      obtain ⟨own, others⟩ := Bool.and_eq_true_iff.mp worded
      apply Layer.readable_sink (.call (unburiedAll parameters) variadic)
      · exact readable_unburiedAll parameters others
      · exact readable_unburied result own

theorem readable_unburiedAll : ∀ types : List Ty, wordedAll types = true →
    ∀ type ∈ unburiedAll types, Readable type
  | [], _, _, among => by cases among
  | type :: types, worded, other, among => by
      obtain ⟨own, others⟩ := Bool.and_eq_true_iff.mp worded
      rcases List.mem_cons.mp among with rfl | later
      · exact readable_unburied type own
      · exact readable_unburiedAll types others other later

end

theorem Base.unburied {base : Ty} (simple : Base base) : base.unburied = base := by
  cases simple <;> rfl

theorem Base.essence_of_unburied {base : Ty} (simple : Base base)
    (alike : base.unburied.essence = right.unburied.essence) :
    base.essence = right.essence := by
  rw [simple.unburied] at alike
  cases right with
  | void | scalar _ | record _ => exact alike
  | map key value kind => cases simple <;> cases alike
  | pointer target => exact absurd alike (Layer.essence_sink_ne simple)
  | array element length => exact absurd alike (Layer.essence_sink_ne simple)
  | function signature =>
      cases signature
      exact absurd alike (Layer.essence_sink_ne simple)

mutual

/-- Types that are alike with their layers moved inwards are alike, unless a map of one
of them is displaced. -/
theorem essence_of_unburied : ∀ {left right : Ty}, ¬ Displaced left right →
    left.unburied.essence = right.unburied.essence → left.essence = right.essence
  | void, _, _, alike => Base.void.essence_of_unburied alike
  | scalar kind, _, _, alike => (Base.scalar kind).essence_of_unburied alike
  | record shape, _, _, alike => (Base.record shape).essence_of_unburied alike
  | map key value kind, right, placed, alike => by
      cases right with
      | map key' value' kind' =>
          obtain ⟨keys, values, -⟩ := Ty.map.inj alike
          have key := essence_of_unburied (fun inner => placed (.key inner)) keys
          have value := essence_of_unburied (fun inner => placed (.value inner)) values
          rw [essence, essence, key, value]
      | pointer target => exact absurd (.outside .pointer) placed
      | array element length => exact absurd (.outside (.array length)) placed
      | function signature =>
          obtain ⟨result, parameters, variadic⟩ := signature
          exact absurd (.outside (.call parameters variadic)) placed
      | void | scalar _ | record _ =>
          exact (Base.essence_of_unburied (by constructor) alike.symm).symm
  | pointer target, right, placed, alike => by
      cases right with
      | pointer target' =>
          obtain ⟨inner, -⟩ := Layer.essence_sink alike
          have targets := essence_of_unburied (fun inner => placed (.target inner)) inner
          rw [essence, essence, targets]
      | map key value kind => exact absurd (.inside .pointer) placed
      | array _ _ =>
          obtain ⟨-, layers⟩ := Layer.essence_sink alike
          cases layers
      | function signature =>
          cases signature
          obtain ⟨-, layers⟩ := Layer.essence_sink alike
          cases layers
      | void | scalar _ | record _ =>
          exact (Base.essence_of_unburied (by constructor) alike.symm).symm
  | array element length, right, placed, alike => by
      cases right with
      | array element' length' =>
          obtain ⟨inner, layers⟩ := Layer.essence_sink alike
          have elements := essence_of_unburied (fun inner => placed (.element inner)) inner
          cases layers
          rw [essence, essence, elements]
      | map key value kind => exact absurd (.inside (.array length)) placed
      | pointer _ =>
          obtain ⟨-, layers⟩ := Layer.essence_sink alike
          cases layers
      | function signature =>
          cases signature
          obtain ⟨-, layers⟩ := Layer.essence_sink alike
          cases layers
      | void | scalar _ | record _ =>
          exact (Base.essence_of_unburied (by constructor) alike.symm).symm
  | function ⟨result, parameters, variadic⟩, right, placed, alike => by
      cases right with
      | function signature =>
          obtain ⟨result', parameters', variadic'⟩ := signature
          obtain ⟨inner, layers⟩ := Layer.essence_sink alike
          have results := essence_of_unburied (fun inner => placed (.result inner)) inner
          simp only [Layer.wrap, essence, function.injEq, Signature.mk.injEq] at layers
          obtain ⟨-, types, rfl⟩ := layers
          have parameters := essences_of_unburied (fun _ _ _ first second inner =>
            placed (.parameter first second inner)) types
          simp only [essence, results, parameters]
      | map key value kind =>
          exact absurd (.inside (.call parameters variadic)) placed
      | pointer _ | array _ _ =>
          obtain ⟨-, layers⟩ := Layer.essence_sink alike
          cases layers
      | void | scalar _ | record _ =>
          exact (Base.essence_of_unburied (by constructor) alike.symm).symm

theorem essences_of_unburied : ∀ {lefts rights : List Ty},
    (∀ (index : Nat) {left right : Ty}, lefts[index]? = some left →
      rights[index]? = some right → ¬ Displaced left right) →
      essences (unburiedAll lefts) = essences (unburiedAll rights) →
        essences lefts = essences rights
  | [], [], _, _ => rfl
  | [], _ :: _, _, alike => by cases alike
  | _ :: _, [], _, alike => by cases alike
  | left :: lefts, right :: rights, placed, alike => by
      obtain ⟨first, later⟩ := List.cons.inj alike
      have here := essence_of_unburied (placed 0 rfl rfl) first
      have rest := essences_of_unburied (fun index _ _ => placed (index + 1)) later
      rw [essences, essences, here, rest]

end

/-- Types of one text are compatible unless a map of one of them is displaced. -/
theorem compatible_iff_not_displaced (worded : left.worded = true)
    (worded' : right.worded = true) (same : left.text = right.text) :
    left.compatible right = true ↔ ¬ Displaced left right := by
  constructor
  · intro fits displaced
    rw [displaced.not_compatible] at fits
    cases fits
  · intro placed
    have texts : left.unburied.text = right.unburied.text := by
      apply String.toList_inj.mp
      have written := characters_unburied left
      have written' := characters_unburied right
      simp only [characters] at written written'
      rw [written, written', same]
    have alike := compatible_of_text (readable_unburied left worded)
      (readable_unburied right worded') texts
    exact compatible_iff.mpr (essence_of_unburied placed (compatible_iff.mp alike))

end TraceProbe.Ty
