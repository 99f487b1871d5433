import TraceProbe.Proofs.Ty.Calls
import TraceProbe.Proofs.Ty.Displacement

/-!
# Types of one name

A registry gives out the type that was first registered under a name.  Records go by
their bare name, which may be that of a scalar or of a union, and a map inside of an
array or behind a pointer is written like one around it.  Otherwise types of one name
are compatible, as long as the names of records are words.
-/

namespace TraceProbe

namespace Ty

/-- Types that are written as one word. -/
def isPrimitive : Ty → Bool
  | void | scalar _ => true
  | _ => false

/-- Two types that share a name but are not compatible. -/
inductive Rival : Ty → Ty → Prop
  /-- A struct and a union. -/
  | records {left right : Record} : left.name = right.name → left.union ≠ right.union →
      Rival (record left) (record right)
  | recordFirst {shape : Record} {type : Ty} : type.isPrimitive = true → type.text = shape.name →
      Rival (record shape) type
  | recordSecond {shape : Record} {type : Ty} : type.isPrimitive = true → type.text = shape.name →
      Rival type (record shape)
  /-- Two types whose text does not tell where a map stands. -/
  | maps {left right : Ty} : left.text = right.text → Displaced left right → Rival left right

variable {left right type : Ty}

theorem Rival.not_compatible (rival : Rival left right) : left.compatible right = false := by
  cases rival with
  | records _ unions => simp [compatible, unions]
  | recordFirst primitive _ => cases right <;> first | rfl | cases primitive
  | recordSecond primitive _ => cases left <;> first | rfl | cases primitive
  | maps _ displaced => exact displaced.not_compatible

theorem registeredName_eq_text (other : type.record? = none) : type.registeredName = type.text := by
  cases type <;> first | rfl | cases other

theorem primitive_of_isWordName (word : isWordName type.text = true) (other : type.record? = none) :
    type.isPrimitive = true := by
  have plain : ∀ letter ∈ type.characters, letter ∉ delimiters := not_delimiter_of_isWordName word
  cases type with
  | void | scalar _ => rfl
  | record shape => cases other
  | pointer target =>
      rw [characters_pointer] at plain
      exact absurd (by decide) (plain ' ' (by simp))
  | array element length =>
      rw [characters_array] at plain
      exact absurd (by decide) (plain '[' (by simp))
  | map key value kind =>
      rw [characters_map] at plain
      exact absurd (by decide) (plain '[' (by simp))
  | function signature =>
      cases signature
      rw [characters_function] at plain
      exact absurd (by decide) (plain ' ' (by simp))

theorem compatible_iff_not_rival (worded : left.worded = true) (worded' : right.worded = true)
    (same : left.registeredName = right.registeredName) :
    left.compatible right = true ↔ ¬ Rival left right := by
  refine ⟨fun accepted rival => ?_, fun apart => ?_⟩
  · rw [rival.not_compatible] at accepted
    cases accepted
  cases shapes : left.record? with
  | some shape =>
      cases left <;> cases shapes
      cases shapes' : right.record? with
      | some shape' =>
          cases right <;> cases shapes'
          have names : shape.name = shape'.name := same
          by_cases unions : shape.union = shape'.union
          · simp [compatible, names, unions]
          · exact absurd (.records names unions) apart
      | none =>
          have text : right.text = shape.name :=
            (registeredName_eq_text shapes').symm.trans same.symm
          have primitive := primitive_of_isWordName (text ▸ worded) shapes'
          exact absurd (.recordFirst primitive text) apart
  | none =>
      cases shapes' : right.record? with
      | some shape' =>
          cases right <;> cases shapes'
          have text : left.text = shape'.name := (registeredName_eq_text shapes).symm.trans same
          have primitive := primitive_of_isWordName (text ▸ worded') shapes
          exact absurd (.recordSecond primitive text) apart
      | none =>
          rw [registeredName_eq_text shapes, registeredName_eq_text shapes'] at same
          rw [compatible_iff_not_displaced worded worded' same]
          intro displaced
          exact apart (.maps same displaced)

end Ty

namespace Registry

variable {registry : Registry} {calls : List Call} {name : String} {type : Ty}

/-- All registered types are written with words. -/
def Worded (registry : Registry) : Prop :=
  ∀ name type, registry.lookup? name = some type → type.worded = true

theorem worded_add (worded : registry.Worded) (own : type.worded = true) :
    (registry.add type).2.Worded := by
  intro name present found
  rw [lookup?_add, Option.or_eq_some_iff] at found
  rcases found with earlier | ⟨-, here⟩
  · exact worded name present earlier
  · obtain ⟨-, equal⟩ := Option.ite_none_right_eq_some.mp here
    exact Option.some.inj equal ▸ own

theorem worded_anonymousRecord (number : Nat) (members : List Ty) :
    (anonymousRecord number members).worded = true := by
  have name : (s!":anon_{number}").toList = ":anon_".toList ++ Nat.toDigits 10 number := by
    simp [toString]
  show (s!":anon_{number}").toList.all (· ∉ Ty.delimiters) = true
  rw [name, List.all_append, Bool.and_eq_true]
  refine ⟨by decide, List.all_eq_true.mpr ?_⟩
  intro digit among
  exact decide_eq_true (Ty.digit_not_delimiter digit among)

theorem worded_new : new.Worded := by
  have all (kinds : List Scalar) {registry : Registry} (worded : registry.Worded) :
      (kinds.foldl (fun registry kind => (registry.add (.scalar kind)).2) registry).Worded := by
    induction kinds generalizing registry with
    | nil => exact worded
    | cons kind kinds ih => exact ih (worded_add worded rfl)
  exact all Scalar.all fun _ _ found => by cases found

theorem Worded.run (worded : registry.Worded) (call : Call)
    (own : ∀ type ∈ call.type?, type.worded = true) : (call.run registry).2.Worded := by
  cases call with
  | add type => exact worded_add worded (own type rfl)
  | lookup name => exact worded
  | anonymous members =>
      cases known : registry.shapes.lookup members with
      | some type =>
          rw [Call.run, anonymousStruct_of_known known]
          exact worded
      | none =>
          rw [Call.run, anonymousStruct_of_free known]
          have reserved : (registry.reserve members).Worded := worded
          exact worded_add reserved (worded_anonymousRecord registry.made members)

theorem Worded.after (worded : registry.Worded)
    (hosted : ∀ call ∈ calls, ∀ type ∈ call.type?, type.worded = true) :
    (after calls registry).Worded := by
  induction calls generalizing registry with
  | nil => exact worded
  | cons call calls ih =>
      exact ih (worded.run call (hosted call List.mem_cons_self))
        fun other among => hosted other (List.mem_cons_of_mem _ among)

theorem registeredName_add (calls : List Call) (type : Ty) :
    ((after calls new).add type).1.registeredName = type.registeredName := by
  have named := (records_after calls).named
  exact named_add named type _ _ (add_fst _ type)

/-- Over every history of a registry, adding a type gives the type first registered under
its name, or the type itself if there is none; what is registered is found for ever; and
if the names of the host's records are words, what is given is compatible with the type
unless the two are rivals. -/
theorem add_compatible_iff (calls : List Call) :
    (∀ type, ((after calls new).add type).1 =
        ((after calls new).lookup? type.registeredName).getD type ∧
      (after (calls ++ [.add type]) new).lookup? type.registeredName =
        some ((after calls new).add type).1) ∧
      (∀ name type, (after calls new).lookup? name = some type →
        ∀ more, (after (calls ++ more) new).lookup? name = some type) ∧
      ((∀ call ∈ calls, ∀ type ∈ call.type?, type.worded = true) → ∀ type : Ty, type.worded = true →
        (((after calls new).add type).1.compatible type = true ↔
          ¬ Ty.Rival ((after calls new).add type).1 type)) := by
  refine ⟨fun type => ⟨?_, ?_⟩, ?_, ?_⟩
  · unfold add
    cases (after calls new).lookup? type.registeredName <;> rfl
  · rw [after_append]
    exact add_fst _ type
  · intro name type found more
    rw [after_append]
    exact (kept_after more _).1 name type found
  · intro hosted type worded
    have standing := worded_add (worded_new.after hosted) worded
    exact Ty.compatible_iff_not_rival (standing _ _ (add_fst _ type)) worded
      (registeredName_add calls type)

/-- A struct of the name of a scalar gives the scalar, a union gives the struct that has
its name, an array of maps gives the map of arrays that is written like it, and a name
that is no word makes a pointer look like a pointer to a pointer. -/
theorem add_gives_rivals :
    let word := Ty.record ⟨"u64", [⟨"a", .scalar .u8⟩], false, false⟩
    let shape := Ty.record ⟨"s", [], false, false⟩
    let union := Ty.record ⟨"s", [], true, false⟩
    let arrays := Ty.map .u64 (.array .u64 3) .hash
    let maps := Ty.array (.map .u64 .u64 .hash) 3
    let twice := Ty.pointer (.pointer shape)
    let strange := Ty.pointer (.record ⟨"s *", [], false, false⟩)
    ((new.add word).1 = .u64 ∧ (new.add word).1.compatible word = false) ∧
      ((((new.add shape).2.add union).1 = shape) ∧ shape.compatible union = false) ∧
      ((((new.add arrays).2.add maps).1 = arrays) ∧ arrays.compatible maps = false) ∧
      (((new.add twice).2.add strange).1 = twice ∧ twice.compatible strange = false) := by
  decide

end Registry

end TraceProbe
