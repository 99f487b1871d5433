/-!
# Types

Scalars and pointers fit in a register.  Arrays and records live in the stack
frame.  Maps are global stores addressed by a key of fixed size, and functions
are the signatures of operators.
-/

namespace TraceProbe

/-- The integer types of the language. -/
inductive Scalar where
  | char
  | u8
  | s8
  | u16
  | s16
  | int
  | u32
  | s32
  | u64
  | s64
deriving DecidableEq, Inhabited

namespace Scalar

/-- Every scalar, in the order of registration. -/
def all : List Scalar :=
  [char, u8, s8, u16, s16, int, u32, s32, u64, s64]

/-- The name under which a scalar is written and registered. -/
def name : Scalar → String
  | char => "char"
  | u8 => "u8"
  | s8 => "s8"
  | u16 => "u16"
  | s16 => "s16"
  | int => "int"
  | u32 => "u32"
  | s32 => "s32"
  | u64 => "u64"
  | s64 => "s64"

/-- Width in bytes. -/
def width : Scalar → Nat
  | char | u8 | s8 => 1
  | u16 | s16 => 2
  | int | u32 | s32 => 4
  | u64 | s64 => 8

/-- Whether values are read as two's complement numbers. -/
def signed : Scalar → Bool
  | char | s8 | s16 | int | s32 | s64 => true
  | u8 | u16 | u32 | u64 => false

/-- The scalar of a given name. -/
def ofName? (name : String) : Option Scalar :=
  all.find? (·.name = name)

theorem ofName?_name (scalar : Scalar) : ofName? scalar.name = some scalar := by
  cases scalar <;> decide

end Scalar

/-- How the kernel stores a map. -/
inductive MapKind where
  | hash
  | perCpuHash
  | array
deriving DecidableEq, Inhabited

/-- The number by which the kernel knows a map kind. -/
def MapKind.number : MapKind → Nat
  | hash => 1
  | array => 2
  | perCpuHash => 5

mutual

/-- A type of the probe language. -/
inductive Ty where
  /-- No value. -/
  | void
  | scalar (kind : Scalar)
  | pointer (target : Ty)
  | array (element : Ty) (length : Nat)
  /-- A struct or union. -/
  | record (shape : Record)
  /-- A global store from keys to values. -/
  | map (key value : Ty) (kind : MapKind)
  | function (signature : Signature)

/-- A named member of a record. -/
structure Field where
  name : String
  type : Ty

/-- The members of a struct or union.  The members of a union overlap, and
packing leaves out all padding. -/
structure Record where
  name : String
  fields : List Field
  union : Bool := false
  packed : Bool := false

/-- Parameters and result of an operator.  A variadic one takes further
arguments after its fixed parameters. -/
structure Signature where
  result : Ty
  parameters : List Ty
  variadic : Bool := false

end

instance : Inhabited Ty := ⟨.void⟩

namespace Ty

mutual

/-- Whether two types are built alike. -/
def same : Ty → Ty → Bool
  | void, void => true
  | scalar left, scalar right => left = right
  | pointer left, pointer right => same left right
  | array left leftLength, array right rightLength =>
      same left right && leftLength = rightLength
  | record ⟨leftName, left, leftUnion, leftPacked⟩,
      record ⟨rightName, right, rightUnion, rightPacked⟩ =>
      leftName = rightName && sameFields left right && leftUnion = rightUnion &&
        leftPacked = rightPacked
  | map leftKey leftValue leftKind, map rightKey rightValue rightKind =>
      same leftKey rightKey && same leftValue rightValue && leftKind = rightKind
  | function ⟨leftResult, left, leftVariadic⟩,
      function ⟨rightResult, right, rightVariadic⟩ =>
      same leftResult rightResult && sameList left right && leftVariadic = rightVariadic
  | _, _ => false
termination_by structural left => left

/-- `same` for member lists. -/
def sameFields : List Field → List Field → Bool
  | [], [] => true
  | ⟨leftName, left⟩ :: lefts, ⟨rightName, right⟩ :: rights =>
      leftName = rightName && same left right && sameFields lefts rights
  | _, _ => false
termination_by structural left => left

/-- `same` for type lists. -/
def sameList : List Ty → List Ty → Bool
  | [], [] => true
  | left :: lefts, right :: rights => same left right && sameList lefts rights
  | _, _ => false
termination_by structural left => left

end

mutual

theorem eq_of_same : ∀ {left right : Ty}, same left right = true → left = right
  | void, right, equal => by cases right <;> simp_all [same]
  | scalar _, right, equal => by cases right <;> simp_all [same]
  | pointer target, right, equal => by
      cases right <;> simp [same] at equal
      rw [eq_of_same equal]
  | array element _, right, equal => by
      cases right <;> simp [same] at equal
      rw [eq_of_same equal.1, equal.2]
  | record ⟨_, fields, _, _⟩, right, equal => by
      cases right with
      | record shape =>
          cases shape
          simp [same] at equal
          obtain ⟨⟨⟨nameEq, fieldsSame⟩, unionEq⟩, packedEq⟩ := equal
          rw [nameEq, eq_of_sameFields fieldsSame, unionEq, packedEq]
      | _ => simp [same] at equal
  | map key value _, right, equal => by
      cases right <;> simp [same] at equal
      obtain ⟨⟨keySame, valueSame⟩, kindEq⟩ := equal
      rw [eq_of_same keySame, eq_of_same valueSame, kindEq]
  | function ⟨result, parameters, _⟩, right, equal => by
      cases right with
      | function signature =>
          cases signature
          simp [same] at equal
          obtain ⟨⟨resultSame, parametersSame⟩, variadicEq⟩ := equal
          rw [eq_of_same resultSame, eq_of_sameList parametersSame, variadicEq]
      | _ => simp [same] at equal

theorem eq_of_sameFields : ∀ {left right : List Field},
    sameFields left right = true → left = right
  | [], right, equal => by cases right <;> simp_all [sameFields]
  | ⟨_, type⟩ :: fields, right, equal => by
      cases right with
      | nil => simp [sameFields] at equal
      | cons head tail =>
          cases head
          simp [sameFields] at equal
          obtain ⟨⟨nameEq, typeSame⟩, fieldsSame⟩ := equal
          rw [nameEq, eq_of_same typeSame, eq_of_sameFields fieldsSame]

theorem eq_of_sameList : ∀ {left right : List Ty}, sameList left right = true → left = right
  | [], right, equal => by cases right <;> simp_all [sameList]
  | type :: types, right, equal => by
      cases right with
      | nil => simp [sameList] at equal
      | cons head tail =>
          simp [sameList] at equal
          rw [eq_of_same equal.1, eq_of_sameList equal.2]

end

mutual

theorem same_self : ∀ type : Ty, same type type = true
  | void => by simp [same]
  | scalar _ => by simp [same]
  | pointer target => by simp [same, same_self target]
  | array element _ => by simp [same, same_self element]
  | record ⟨_, fields, _, _⟩ => by simp [same, sameFields_self fields]
  | map key value _ => by simp [same, same_self key, same_self value]
  | function ⟨result, parameters, _⟩ => by
      simp [same, same_self result, sameList_self parameters]

theorem sameFields_self : ∀ fields : List Field, sameFields fields fields = true
  | [] => by simp [sameFields]
  | ⟨_, type⟩ :: fields => by simp [sameFields, same_self type, sameFields_self fields]

theorem sameList_self : ∀ types : List Ty, sameList types types = true
  | [] => by simp [sameList]
  | type :: types => by simp [sameList, same_self type, sameList_self types]

end

theorem same_iff {left right : Ty} : same left right = true ↔ left = right :=
  ⟨eq_of_same, fun equal => equal ▸ same_self left⟩

instance : DecidableEq Ty := fun _ _ => decidable_of_iff _ same_iff

/-- The type of one character. -/
def char : Ty := scalar .char

/-- The result type of comparisons. -/
def int : Ty := scalar .int

/-- The type of literals beyond the signed range. -/
def u64 : Ty := scalar .u64

/-- The type of all other numeric literals. -/
def s64 : Ty := scalar .s64

/-- Integer scalars. -/
def isScalar : Ty → Bool
  | scalar _ => true
  | _ => false

/-- Scalars with a sign. -/
def isSigned : Ty → Bool
  | scalar kind => kind.signed
  | _ => false

/-- Pointers to anything. -/
def isPointer : Ty → Bool
  | pointer _ => true
  | _ => false

/-- Global stores. -/
def isMap : Ty → Bool
  | map _ _ _ => true
  | _ => false

/-- Types with values that fit in a register. -/
def isWord (type : Ty) : Bool :=
  type.isScalar || type.isPointer

/-- Arrays of one-byte scalars. -/
def isString : Ty → Bool
  | array (scalar kind) _ => kind.width = 1
  | _ => false

/-- The members of a struct or union. -/
def record? : Ty → Option Record
  | record shape => some shape
  | _ => none

end Ty

/-- The first member of a given name. -/
def Record.field? (shape : Record) (name : String) : Option Field :=
  shape.fields.find? (·.name = name)

end TraceProbe
