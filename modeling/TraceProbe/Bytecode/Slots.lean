/-!
# Slots

Positions of a program count slots of eight bytes.  An item starts where the
slots of the items before it end.
-/

namespace TraceProbe

/-- Every item with the slot at which it starts, from a given slot on. -/
def placeFrom {α : Type} (slots : α → Nat) (start : Nat) : List α → List (Nat × α)
  | [] => []
  | item :: items => (start, item) :: placeFrom slots (start + slots item) items

@[simp] theorem length_placeFrom {α : Type} (slots : α → Nat) (start : Nat) (items : List α) :
    (placeFrom slots start items).length = items.length := by
  induction items generalizing start with
  | nil => rfl
  | cons item items ih => simp [placeFrom, ih]

/-- A measure added up over all items. -/
def totalOf {α : Type} (measure : α → Nat) : List α → Nat
  | [] => 0
  | item :: items => measure item + totalOf measure items

@[simp] theorem totalOf_append {α : Type} (measure : α → Nat) (left right : List α) :
    totalOf measure (left ++ right) = totalOf measure left + totalOf measure right := by
  induction left with
  | nil => simp [totalOf]
  | cons item items ih => simp [totalOf, ih, Nat.add_assoc]

theorem placeFrom_append {α : Type} (slots : α → Nat) (start : Nat) (left right : List α) :
    placeFrom slots start (left ++ right) =
      placeFrom slots start left ++ placeFrom slots (start + totalOf slots left) right := by
  induction left generalizing start with
  | nil => simp [placeFrom, totalOf]
  | cons item items ih => simp [placeFrom, totalOf, ih, Nat.add_assoc]

end TraceProbe
