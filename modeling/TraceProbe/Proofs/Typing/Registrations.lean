import TraceProbe.Proofs.Ty.Renaming
import TraceProbe.Proofs.Typing.Soundness

/-!
# Answers of the registry

Anonymous structs are numbered in the order in which their shapes are asked
for.  Once a shape has its number, it keeps it, and no other shape gets it.
-/

namespace TraceProbe.Registry

/-- The anonymous structs of a registry carry the numbers of their places. -/
structure Listed (registry : Registry) : Prop where
  honest : registry.Honest
  numbered : ∀ number members type, registry.shapes[number]? = some (members, type) →
    type = anonymousRecord number members
  made : registry.made = registry.shapes.length

/-- The members have the anonymous struct of that number. -/
structure Knows (registry : Registry) (members : List Ty) (number : Nat) : Prop where
  found : registry.shapes.lookup members = some (anonymousRecord number members)
  place : registry.shapes[number]? = some (members, anonymousRecord number members)

variable {registry : Registry} {members others : List Ty} {number other : Nat}

theorem Listed.add (listed : registry.Listed) {type : Ty}
    (named : ∀ number : Nat, type.registeredName ≠ s!":anon_{number}") :
    (registry.add type).2.Listed := by
  have honest := listed.honest.add named
  unfold Registry.add at honest ⊢
  split
  · exact listed
  · rename_i free
    rw [free] at honest
    exact ⟨honest, listed.numbered, listed.made⟩

theorem anonymousStruct_of_known {type : Ty} (found : registry.shapes.lookup members = some type) :
    registry.anonymousStruct members = (type, registry) := by
  rw [anonymousStruct, found]

/-- A new shape gets the next number. -/
theorem Honest.anonymousStruct_of_new (honest : registry.Honest)
    (found : registry.shapes.lookup members = none) :
    registry.anonymousStruct members =
      (anonymousRecord registry.made members,
        { named := registry.named ++
            [(s!":anon_{registry.made}", anonymousRecord registry.made members)]
          shapes := registry.shapes ++ [(members, anonymousRecord registry.made members)]
          made := registry.made + 1 }) := by
  have free : registry.named.lookup (anonymousRecord registry.made members).registeredName = none :=
    honest.free registry.made (Nat.le_refl _)
  rw [Registry.anonymousStruct, found]
  show Registry.add _ (anonymousRecord registry.made members) = _
  unfold Registry.add lookup?
  rw [free]
  rfl

theorem Listed.anonymousStruct (listed : registry.Listed) (members : List Ty) :
    (registry.anonymousStruct members).2.Listed := by
  cases found : registry.shapes.lookup members with
  | some type =>
      rw [anonymousStruct_of_known found]
      exact listed
  | none =>
      have honest := (listed.honest.anonymousStruct members).1
      rw [listed.honest.anonymousStruct_of_new found] at honest ⊢
      refine ⟨honest, ?_, ?_⟩
      · intro number others type place
        dsimp only at place
        rw [List.getElem?_append] at place
        split at place
        · exact listed.numbered number others type place
        · rename_i later
          obtain ⟨inside, same⟩ := List.getElem?_eq_some_iff.mp place
          have last : number = registry.shapes.length := by
            simp only [List.length_singleton] at inside
            omega
          simp only [last, Nat.sub_self, List.getElem_singleton, Prod.mk.injEq] at same
          rw [← same.1, ← same.2, last, listed.made]
      · rw [List.length_append, List.length_singleton, listed.made]

theorem Built.listed (built : registry.Built) : registry.Listed := by
  induction built with
  | new => exact ⟨honest_new, fun number members type place => (by cases place), rfl⟩
  | add _ named ih => exact ih.add named
  | anonymousStruct members _ ih => exact Listed.anonymousStruct ih members

theorem Listed.answer (listed : registry.Listed) (members : List Ty) :
    ∃ number, (registry.anonymousStruct members).1 = anonymousRecord number members ∧
      (registry.anonymousStruct members).2.Knows members number := by
  cases found : registry.shapes.lookup members with
  | some type =>
      obtain ⟨before, after, split, -⟩ := List.lookup_eq_some_iff.mp found
      have place : registry.shapes[before.length]? = some (members, type) := by
        rw [split, List.getElem?_append_right (Nat.le_refl _), Nat.sub_self]
        rfl
      obtain rfl := listed.numbered _ _ _ place
      rw [anonymousStruct_of_known found]
      exact ⟨before.length, rfl, found, place⟩
  | none =>
      rw [listed.honest.anonymousStruct_of_new found]
      refine ⟨registry.made, rfl, ?_, ?_⟩
      · rw [List.lookup_append, found, Option.none_or, List.lookup_cons_self]
      · rw [listed.made, List.getElem?_append_right (Nat.le_refl _), Nat.sub_self]
        rfl

theorem Knows.later (listed : registry.Listed) (knows : registry.Knows members number)
    (others : List Ty) : (registry.anonymousStruct others).2.Knows members number := by
  cases found : registry.shapes.lookup others with
  | some type =>
      rw [anonymousStruct_of_known found]
      exact knows
  | none =>
      have inside : number < registry.shapes.length := (List.getElem?_eq_some_iff.mp knows.place).1
      rw [listed.honest.anonymousStruct_of_new found]
      exact ⟨by rw [List.lookup_append, knows.found, Option.some_or],
        by rw [List.getElem?_append_left inside, knows.place]⟩

theorem Knows.number_eq (knows : registry.Knows members number)
    (knows' : registry.Knows members other) : number = other := by
  have same := knows.found.symm.trans knows'.found
  simp only [anonymousRecord, Option.some.injEq, Ty.record.injEq, Record.mk.injEq] at same
  exact anonymousName_injective same.1

theorem Knows.members_eq (knows : registry.Knows members number)
    (knows' : registry.Knows others number) : members = others := by
  have same := knows.place.symm.trans knows'.place
  simp only [Option.some.injEq, Prod.mk.injEq] at same
  exact same.1

end TraceProbe.Registry
