import TraceProbe.Ty.Compatible
import TraceProbe.Ty.Layout

/-!
# Layout of compatible types

Compatibility compares arrays by length and element and records by name, and
takes all scalars for one another.  So two compatible types that are not both
scalars have one size, unless a record of the other size goes by the same name,
or the elements of an array are scalars of another width.
-/

namespace TraceProbe.Ty

/-- Where an element of an array stands, or an element of an element, and so
on, by its indices from the outermost one on. -/
def elementOffset? : Ty → List Nat → Option Nat
  | _, [] => some 0
  | array element length, index :: path =>
      if index < length then (elementOffset? element path).map (index * element.size + ·)
      else none
  | _, _ :: _ => none

/-- Values of two types lie in memory alike: as many bytes, and elements at the
same offsets. -/
structure Congruent (left right : Ty) : Prop where
  size : left.size = right.size
  elements : ∀ path, left.elementOffset? path = right.elementOffset? path

/-- Types that pass as compatible although one has more bytes than the other:
records that share a name, and arrays whose elements are scalars of different
width or such types again. -/
inductive Misfit : Ty → Ty → Prop
  | records {left right : Record} (sizes : (record left).size ≠ (record right).size) :
      Misfit (record left) (record right)
  | scalars {left right : Scalar} {length : Nat} (widths : left.width ≠ right.width)
      (some : 0 < length) : Misfit (array (scalar left) length) (array (scalar right) length)
  | elements {left right : Ty} {length : Nat} (misfit : Misfit left right) (some : 0 < length) :
      Misfit (array left length) (array right length)

theorem size_array_ne {left right : Ty} {length : Nat} (different : left.size ≠ right.size)
    (some : 0 < length) : (array left length).size ≠ (array right length).size := by
  intro same
  exact different (Nat.eq_of_mul_eq_mul_right some same)

namespace Misfit

variable {left right : Ty}

theorem size_ne (misfit : Misfit left right) : left.size ≠ right.size := by
  induction misfit with
  | records sizes => exact sizes
  | scalars widths some => exact size_array_ne widths some
  | elements _ some ih => exact size_array_ne ih some

theorem not_scalar (misfit : Misfit left right) : left.isScalar = false := by
  cases misfit <;> rfl

end Misfit

/-- Compatible types of one size have their elements at the same offsets. -/
theorem elementOffset?_congr {left right : Ty} (accepted : left.compatible right = true)
    (same : left.size = right.size) (path : List Nat) :
    left.elementOffset? path = right.elementOffset? path := by
  induction path generalizing left right with
  | nil => simp only [elementOffset?]
  | cons index path ih =>
      cases left with
      | array left length =>
          cases right with
          | array right _ =>
              simp only [compatible, Bool.and_eq_true, decide_eq_true_eq] at accepted
              obtain ⟨rfl, accepted⟩ := accepted
              simp only [elementOffset?]
              split
              · rename_i inside
                have sizes : left.size = right.size :=
                  Nat.eq_of_mul_eq_mul_right (Nat.zero_lt_of_lt inside) same
                rw [ih accepted sizes, sizes]
              · rfl
          | _ => simp [compatible] at accepted
      | _ => cases right <;> first | rfl | simp [compatible] at accepted

/-- Compatible types that are not both scalars have one size or are misfits. -/
theorem size_eq_or_misfit : ∀ {left right : Ty}, left.compatible right = true →
    left.isScalar = true ∧ right.isScalar = true ∨ left.size = right.size ∨ Misfit left right
  | scalar _, right, accepted => by
      cases right <;> first | exact .inl ⟨rfl, rfl⟩ | simp [compatible] at accepted
  | array left length, right, accepted => by
      cases right with
      | array right _ =>
          simp only [compatible, Bool.and_eq_true, decide_eq_true_eq] at accepted
          obtain ⟨rfl, accepted⟩ := accepted
          refine .inr ?_
          by_cases some : 0 < length
          · rcases size_eq_or_misfit accepted with ⟨word, other⟩ | same | misfit
            · cases left <;> cases word
              cases right <;> cases other
              rename_i left right
              by_cases widths : left.width = right.width
              · exact .inl (congrArg (· * length) widths)
              · exact .inr (.scalars widths some)
            · exact .inl (congrArg (· * length) same)
            · exact .inr (.elements misfit some)
          · obtain rfl : length = 0 := by omega
            exact .inl rfl
      | _ => simp [compatible] at accepted
  | record left, right, accepted => by
      cases right with
      | record right =>
          by_cases same : (record left).size = (record right).size
          · exact .inr (.inl same)
          · exact .inr (.inr (.records same))
      | _ => simp [compatible] at accepted
  | void, right, accepted | pointer _, right, accepted | map _ _ _, right, accepted
  | function _, right, accepted => by
      cases right <;> first | exact .inr (.inl rfl) | simp [compatible] at accepted

/-- Compatible types are scalars or laid out alike exactly if they are no misfits. -/
theorem congruent_iff {left right : Ty} (accepted : left.compatible right = true) :
    (left.isScalar = true ∧ right.isScalar = true ∨ Congruent left right) ↔
      ¬ Misfit left right := by
  constructor
  · rintro (⟨word, -⟩ | congruent) misfit
    · rw [misfit.not_scalar] at word
      cases word
    · exact misfit.size_ne congruent.size
  · intro fits
    rcases size_eq_or_misfit accepted with words | same | misfit
    · exact .inl words
    · exact .inr ⟨same, elementOffset?_congr accepted same⟩
    · exact absurd misfit fits

end TraceProbe.Ty
