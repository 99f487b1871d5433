import TraceProbe.Bytecode.Slots
import Mathlib.Data.List.Basic

/-!
# Placed items

Where the items of a placed list stand.  The slots of an item are the ones from
its own on up to the next item, and together they cover the whole range.
-/

namespace TraceProbe

variable {α : Type} {measure : α → Nat}

/-- An item stands in a placed list where the slots of the items before it end. -/
theorem mem_placeFrom_iff {start slot : Nat} {item : α}
    {items : List α} :
    (slot, item) ∈ placeFrom measure start items ↔
      ∃ before after, items = before ++ item :: after ∧ slot = start + totalOf measure before := by
  induction items generalizing start with
  | nil => simp [placeFrom]
  | cons head items ih =>
      constructor
      · intro member
        rcases List.mem_cons.mp member with first | later
        · cases first
          exact ⟨[], items, rfl, rfl⟩
        · obtain ⟨before, after, split, place⟩ := ih.mp later
          exact ⟨head :: before, after, by rw [split]; rfl, by simp [totalOf]; omega⟩
      · rintro ⟨before, after, split, place⟩
        cases before with
        | nil =>
            cases split
            subst place
            exact List.mem_cons_self
        | cons first before =>
            cases split
            apply List.mem_cons_of_mem
            exact ih.mpr ⟨before, after, rfl, by rw [place, totalOf]; omega⟩

theorem mem_of_mem_placeFrom {start slot : Nat} {item : α} {items : List α}
    (placed : (slot, item) ∈ placeFrom measure start items) : item ∈ items := by
  obtain ⟨before, after, split, -⟩ := mem_placeFrom_iff.mp placed
  exact split ▸ List.mem_append_right before List.mem_cons_self

theorem exists_around {items : List α} {slot : Nat} (inside : slot < totalOf measure items) :
    ∃ before item after, items = before ++ item :: after ∧
      totalOf measure before ≤ slot ∧ slot < totalOf measure before + measure item := by
  induction items generalizing slot with
  | nil => simp [totalOf] at inside
  | cons head items ih =>
      rcases Nat.lt_or_ge slot (measure head) with first | later
      · exact ⟨[], head, items, rfl, Nat.zero_le _, by simpa [totalOf] using first⟩
      · rw [totalOf] at inside
        obtain ⟨before, item, after, split, low, high⟩ :=
          @ih (slot - measure head) (by omega)
        refine ⟨head :: before, item, after, by rw [split]; rfl, ?_, ?_⟩
        · rw [totalOf]; omega
        · rw [totalOf]; omega

/-- Slots of two items of one list are in the order of the items. -/
theorem items_in_order (measure : α → Nat) {before after before' after' : List α} {item item' : α}
    (same : before ++ item :: after = before' ++ item' :: after')
    (earlier : totalOf measure before < totalOf measure before') :
    totalOf measure before + measure item ≤ totalOf measure before' ∧
      before.length < before'.length := by
  rcases List.append_eq_append_iff.mp same with ⟨middle, left, right⟩ | ⟨middle, left, -⟩
  · cases middle with
    | nil =>
        rw [left, List.append_nil] at earlier
        exact absurd earlier (Nat.lt_irrefl _)
    | cons first middle =>
        obtain ⟨rfl, -⟩ := List.cons.inj right
        rw [left]
        simp only [totalOf_append, totalOf, List.length_append, List.length_cons]
        omega
  · rw [left, totalOf_append] at earlier
    omega

end TraceProbe
