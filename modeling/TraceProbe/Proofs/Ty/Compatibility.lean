import TraceProbe.Ty.Compatible

/-!
# Compatibility as an equivalence

Two types are compatible exactly if they have one essence: what is left of a type
when the width of scalars, the members of records and the kind of maps are
forgotten.  Compatibility is therefore reflexive, symmetric and transitive, at any
depth and through parameter lists.
-/

namespace TraceProbe.Ty

mutual

/-- A type without the parts that compatibility does not look at. -/
def essence : Ty → Ty
  | void => void
  | scalar _ => char
  | pointer target => pointer target.essence
  | array element length => array element.essence length
  | record shape => record { name := shape.name, fields := [], union := shape.union }
  | map key value _ => map key.essence value.essence .hash
  | function ⟨result, parameters, variadic⟩ =>
      function ⟨result.essence, essences parameters, variadic⟩
termination_by structural type => type

/-- The essences of several types. -/
def essences : List Ty → List Ty
  | [] => []
  | type :: types => type.essence :: essences types
termination_by structural types => types

end

theorem essence_function (signature : Signature) :
    (function signature).essence =
      function ⟨signature.result.essence, essences signature.parameters, signature.variadic⟩ := by
  cases signature
  rfl

mutual

theorem compatible_iff : ∀ {left right : Ty},
    left.compatible right = true ↔ left.essence = right.essence
  | void, right => by cases right <;> simp [compatible, essence, essence_function, char]
  | scalar _, right => by cases right <;> simp [compatible, essence, essence_function, char]
  | pointer left, right => by
      cases right <;> simp [compatible, essence, essence_function, char, @compatible_iff left]
  | array left _, right => by
      cases right <;>
        simp [compatible, essence, essence_function, char, @compatible_iff left, and_comm]
  | record left, right => by cases right <;> simp [compatible, essence, essence_function, char]
  | map key value _, right => by
      cases right <;>
        simp [compatible, essence, essence_function, char, @compatible_iff key,
          @compatible_iff value]
  | function ⟨result, parameters, _⟩, right => by
      cases right with
      | function signature =>
          cases signature
          simp only [compatible, essence, Bool.and_eq_true, decide_eq_true_eq, function.injEq,
            Signature.mk.injEq, @compatible_iff result,
            @compatibleAll_iff parameters]
          rw [and_assoc]
          exact and_rotate
      | _ => simp [compatible, essence, char]

theorem compatibleAll_iff : ∀ {lefts rights : List Ty},
    compatibleAll lefts rights = true ↔ essences lefts = essences rights
  | [], rights => by cases rights <;> simp [compatibleAll, essences]
  | left :: lefts, rights => by
      cases rights <;>
        simp [compatibleAll, essences, @compatible_iff left,
          @compatibleAll_iff lefts]

end

section Laws

variable {left middle right : Ty}

theorem compatible_self (type : Ty) : type.compatible type = true :=
  compatible_iff.mpr rfl

theorem compatible_comm : left.compatible right = right.compatible left := by
  rw [Bool.eq_iff_iff, compatible_iff, compatible_iff]
  exact eq_comm

theorem eq_void_of_compatible (fits : left.compatible void = true) : left = void := by
  cases left with
  | void => rfl
  | _ => simp [compatible] at fits

theorem compatible_trans (first : left.compatible middle = true)
    (second : middle.compatible right = true) : left.compatible right = true := by
  rw [compatible_iff] at first second ⊢
  exact first.trans second

theorem compatible_congr {left' right' : Ty} (lefts : left.compatible left' = true)
    (rights : right.compatible right' = true) :
    left.compatible right = left'.compatible right' := by
  rw [Bool.eq_iff_iff, compatible_iff, compatible_iff, compatible_iff.mp lefts,
    compatible_iff.mp rights]

end Laws

end TraceProbe.Ty
