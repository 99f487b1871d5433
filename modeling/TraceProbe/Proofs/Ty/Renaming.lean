import Mathlib.Logic.Equiv.Basic
import TraceProbe.Proofs.Typing.Scope
import TraceProbe.Ty.Compatible
import TraceProbe.Ty.Layout

/-!
# Renamed types

The same shape gets different anonymous names in different registries.  A
renaming exchanges the names of anonymous structs and keeps all other names.
Layout does not look at the names of records, and compatibility only asks
whether two of them are equal, so neither can tell a type from a renamed one.
-/

namespace TraceProbe

/-- A name that the registry may give to an anonymous struct. -/
def Registry.IsAnonymous (name : String) : Prop :=
  ∃ number : Nat, name = s!":anon_{number}"

/-- An exchange of the names of anonymous structs. -/
structure Renaming where
  names : Equiv.Perm String
  fixes : ∀ name, ¬ Registry.IsAnonymous name → names name = name

mutual

/-- The type with its records under other names. -/
def Ty.rename (naming : Renaming) : Ty → Ty
  | .void => .void
  | .scalar kind => .scalar kind
  | .pointer target => .pointer (Ty.rename naming target)
  | .array element length => .array (Ty.rename naming element) length
  | .record ⟨name, fields, union, packed⟩ =>
      .record ⟨naming.names name, Field.renameAll naming fields, union, packed⟩
  | .map key value kind => .map (Ty.rename naming key) (Ty.rename naming value) kind
  | .function ⟨result, parameters, variadic⟩ =>
      .function ⟨Ty.rename naming result, Ty.renameAll naming parameters, variadic⟩
termination_by structural type => type

/-- `rename` for member lists. -/
def Field.renameAll (naming : Renaming) : List Field → List Field
  | [] => []
  | ⟨name, type⟩ :: fields => ⟨name, Ty.rename naming type⟩ :: Field.renameAll naming fields
termination_by structural fields => fields

/-- `rename` for type lists. -/
def Ty.renameAll (naming : Renaming) : List Ty → List Ty
  | [] => []
  | type :: types => Ty.rename naming type :: Ty.renameAll naming types
termination_by structural types => types

end

mutual

/-- The names of the records in a type. -/
def Ty.recordNames : Ty → List String
  | .void | .scalar _ => []
  | .pointer target => Ty.recordNames target
  | .array element _ => Ty.recordNames element
  | .record ⟨name, fields, _, _⟩ => name :: Field.recordNames fields
  | .map key value _ => Ty.recordNames key ++ Ty.recordNames value
  | .function ⟨result, parameters, _⟩ => Ty.recordNames result ++ Ty.recordNamesAll parameters
termination_by structural type => type

/-- `recordNames` for member lists. -/
def Field.recordNames : List Field → List String
  | [] => []
  | ⟨_, type⟩ :: fields => Ty.recordNames type ++ Field.recordNames fields
termination_by structural fields => fields

/-- `recordNames` for type lists. -/
def Ty.recordNamesAll : List Ty → List String
  | [] => []
  | type :: types => Ty.recordNames type ++ Ty.recordNamesAll types
termination_by structural types => types

end

/-- A type without anonymous structs. -/
def Ty.Plain (type : Ty) : Prop :=
  ∀ name ∈ type.recordNames, ¬ Registry.IsAnonymous name

/-- The member under another record name. -/
def Field.rename (naming : Renaming) (field : Field) : Field :=
  { field with type := field.type.rename naming }

/-- The record under another name. -/
def Record.rename (naming : Renaming) (shape : Record) : Record :=
  { shape with
    name := naming.names shape.name
    fields := shape.fields.map (Field.rename naming) }

/-- The signature with its types renamed. -/
def Signature.rename (naming : Renaming) (signature : Signature) : Signature :=
  { signature with
    result := signature.result.rename naming
    parameters := signature.parameters.map (Ty.rename naming) }

variable {naming : Renaming}

theorem Field.renameAll_eq_map (fields : List Field) :
    Field.renameAll naming fields = fields.map (Field.rename naming) := by
  induction fields with
  | nil => rfl
  | cons field fields ih =>
      cases field
      rw [Field.renameAll, ih, List.map_cons, Field.rename]

theorem Ty.renameAll_eq_map (types : List Ty) :
    Ty.renameAll naming types = types.map (Ty.rename naming) := by
  induction types with
  | nil => rfl
  | cons type types ih => rw [Ty.renameAll, ih, List.map_cons]

namespace Ty

@[simp] theorem rename_record (shape : Record) :
    (record shape).rename naming = record (shape.rename naming) := by
  cases shape
  rw [rename, Field.renameAll_eq_map, Record.rename]

@[simp] theorem rename_function (signature : Signature) :
    (function signature).rename naming = function (signature.rename naming) := by
  cases signature
  rw [rename, renameAll_eq_map, Signature.rename]

mutual

theorem rename_of_fixed : ∀ {type : Ty},
    (∀ name ∈ type.recordNames, naming.names name = name) → type.rename naming = type
  | void, _ | scalar _, _ => rfl
  | pointer _, fixed => congrArg pointer (rename_of_fixed fixed)
  | array _ length, fixed => congrArg (array · length) (rename_of_fixed fixed)
  | record ⟨name, fields, _, _⟩, fixed => by
      rw [rename, fixed name List.mem_cons_self, Field.renameAll_of_fixed fun other member =>
        fixed other (List.mem_cons_of_mem _ member)]
  | map key value _, fixed => by
      rw [rename, rename_of_fixed fun name member => fixed name (List.mem_append_left _ member),
        rename_of_fixed fun name member => fixed name (List.mem_append_right _ member)]
  | function ⟨result, parameters, _⟩, fixed => by
      rw [rename, rename_of_fixed fun name member => fixed name (List.mem_append_left _ member),
        renameAll_of_fixed fun name member => fixed name (List.mem_append_right _ member)]

theorem Field.renameAll_of_fixed : ∀ {fields : List Field},
    (∀ name ∈ Field.recordNames fields, naming.names name = name) →
      Field.renameAll naming fields = fields
  | [], _ => rfl
  | ⟨_, type⟩ :: fields, fixed => by
      rw [Field.renameAll,
        rename_of_fixed fun name member => fixed name (List.mem_append_left _ member),
        Field.renameAll_of_fixed fun name member => fixed name (List.mem_append_right _ member)]

theorem renameAll_of_fixed : ∀ {types : List Ty},
    (∀ name ∈ recordNamesAll types, naming.names name = name) → renameAll naming types = types
  | [], _ => rfl
  | type :: types, fixed => by
      rw [renameAll,
        rename_of_fixed fun name member => fixed name (List.mem_append_left _ member),
        renameAll_of_fixed fun name member => fixed name (List.mem_append_right _ member)]

end

theorem Plain.rename {type : Ty} (plain : type.Plain) : type.rename naming = type := by
  apply rename_of_fixed
  intro name member
  exact naming.fixes name (plain name member)

end Ty

/-- Names exchanged back. -/
def Renaming.symm (naming : Renaming) : Renaming where
  names := naming.names.symm
  fixes name other := naming.names.symm_apply_eq.mpr (naming.fixes name other).symm

namespace Ty

mutual

theorem rename_symm : ∀ type : Ty, (type.rename naming).rename naming.symm = type
  | void | scalar _ => rfl
  | pointer target => by rw [rename, rename, rename_symm target]
  | array element _ => by rw [rename, rename, rename_symm element]
  | record ⟨name, fields, _, _⟩ => by
      rw [rename, rename, Field.renameAll_symm fields, Renaming.symm, Equiv.symm_apply_apply]
  | map key value _ => by rw [rename, rename, rename_symm key, rename_symm value]
  | function ⟨result, parameters, _⟩ => by
      rw [rename, rename, rename_symm result, renameAll_symm parameters]

theorem Field.renameAll_symm : ∀ fields : List Field,
    Field.renameAll naming.symm (Field.renameAll naming fields) = fields
  | [] => rfl
  | ⟨_, type⟩ :: fields => by
      rw [Field.renameAll, Field.renameAll, rename_symm type, Field.renameAll_symm fields]

theorem renameAll_symm : ∀ types : List Ty,
    renameAll naming.symm (renameAll naming types) = types
  | [] => rfl
  | type :: types => by rw [renameAll, renameAll, rename_symm type, renameAll_symm types]

end

theorem rename_injective : Function.Injective (rename naming) :=
  Function.LeftInverse.injective rename_symm

section Kinds

variable (type : Ty)

@[simp] theorem isScalar_rename : (type.rename naming).isScalar = type.isScalar := by
  cases type <;> simp [rename, isScalar]

@[simp] theorem isSigned_rename : (type.rename naming).isSigned = type.isSigned := by
  cases type <;> simp [rename, isSigned]

@[simp] theorem isPointer_rename : (type.rename naming).isPointer = type.isPointer := by
  cases type <;> simp [rename, isPointer]

@[simp] theorem isMap_rename : (type.rename naming).isMap = type.isMap := by
  cases type <;> simp [rename, isMap]

@[simp] theorem isWord_rename : (type.rename naming).isWord = type.isWord := by
  rw [isWord, isWord, isScalar_rename, isPointer_rename]

@[simp] theorem isString_rename : (type.rename naming).isString = type.isString := by
  cases type with
  | array element length => cases element <;> simp [rename, isString]
  | _ => simp [rename, isString]

@[simp] theorem record?_rename :
    (type.rename naming).record? = type.record?.map (Record.rename naming) := by
  cases type <;> simp [rename, record?]

end Kinds

section Layout

mutual

@[simp] theorem align_rename : ∀ type : Ty, (type.rename naming).align = type.align
  | void | scalar _ | pointer _ | map _ _ _ => by simp only [rename, align]
  | function _ => by simp only [rename_function, align]
  | array element _ => by rw [rename, align, align, align_rename element]
  | record ⟨_, fields, _, _⟩ => by rw [rename, align, align, widestAlign_rename fields]

theorem widestAlign_rename : ∀ fields : List Field,
    Field.widestAlign (Field.renameAll naming fields) = Field.widestAlign fields
  | [] => rfl
  | ⟨_, type⟩ :: fields => by
      rw [Field.renameAll, Field.widestAlign, Field.widestAlign, align_rename type,
        widestAlign_rename fields]

end

mutual

@[simp] theorem size_rename : ∀ type : Ty, (type.rename naming).size = type.size
  | void | scalar _ | pointer _ | map _ _ _ => by simp only [rename, size]
  | function _ => by simp only [rename_function, size]
  | array element _ => by rw [rename, size, size, size_rename element]
  | record ⟨name, fields, union, packed⟩ => by
      have aligned := @align_rename naming (record ⟨name, fields, union, packed⟩)
      rw [rename] at aligned ⊢
      rw [size, size, aligned, largest_rename fields, extent_rename packed 0 fields]

theorem largest_rename : ∀ fields : List Field,
    Field.largest (Field.renameAll naming fields) = Field.largest fields
  | [] => rfl
  | ⟨_, type⟩ :: fields => by
      rw [Field.renameAll, Field.largest, Field.largest, size_rename type, largest_rename fields]

theorem extent_rename (packed : Bool) : ∀ (start : Nat) (fields : List Field),
    Field.extent packed start (Field.renameAll naming fields) = Field.extent packed start fields
  | _, [] => rfl
  | _, ⟨_, type⟩ :: fields => by
      rw [Field.renameAll, Field.extent, Field.extent, size_rename type, align_rename type,
        extent_rename packed _ fields]

end

theorem fieldOffsets_rename (packed : Bool) (start : Nat) (fields : List Field) :
    Field.offsets packed start (fields.map (Field.rename naming)) =
      Field.offsets packed start fields := by
  induction fields generalizing start with
  | nil => rfl
  | cons field fields ih =>
      simp only [List.map_cons, Field.offsets, Field.position, Field.rename, align_rename,
        size_rename, ih]

@[simp] theorem offsets_rename (shape : Record) :
    (shape.rename naming).offsets = shape.offsets := by
  simp only [Record.offsets, Record.rename, fieldOffsets_rename, List.map_map, Function.comp_def]

@[simp] theorem offsetOf?_rename (type : Ty) (member : String) :
    (type.rename naming).offsetOf? member = type.offsetOf? member := by
  have names : ((fun field : Field => decide (field.name = member)) ∘ Field.rename naming) =
      fun field => decide (field.name = member) := rfl
  unfold offsetOf?
  rw [record?_rename]
  cases type.record? with
  | none => rfl
  | some shape =>
      simp only [Option.map_some, Option.bind_some, Record.offsetOf?, offsets_rename]
      rw [Record.rename, List.findIdx?_map, names]

theorem field?_rename (shape : Record) (member : String) :
    (shape.rename naming).field? member = (shape.field? member).map (Field.rename naming) := by
  have names : ((fun field : Field => decide (field.name = member)) ∘ Field.rename naming) =
      fun field => decide (field.name = member) := rfl
  rw [Record.field?, Record.rename, List.find?_map, names]
  rfl

end Layout

mutual

@[simp] theorem compatible_rename : ∀ left right : Ty,
    (left.rename naming).compatible (right.rename naming) = left.compatible right
  | void, right | scalar _, right => by cases right <;> simp [rename, compatible]
  | pointer left, right => by
      cases right with
      | pointer right => exact compatible_rename left right
      | _ => simp [rename, compatible]
  | array left _, right => by
      cases right with
      | array right _ => rw [rename, rename, compatible, compatible, compatible_rename left right]
      | _ => simp [rename, compatible]
  | record _, right => by
      cases right with
      | record right => simp [compatible, Record.rename]
      | _ => simp [rename, compatible]
  | map left leftValue _, right => by
      cases right with
      | map right rightValue _ =>
          rw [rename, rename, compatible, compatible, compatible_rename left right,
            compatible_rename leftValue rightValue]
      | _ => simp [rename, compatible]
  | function ⟨left, lefts, _⟩, right => by
      cases right with
      | function signature =>
          obtain ⟨right, rights, _⟩ := signature
          rw [rename, rename, compatible, compatible, compatible_rename left right,
            compatibleAll_rename lefts rights]
      | _ => simp [rename, compatible]

theorem compatibleAll_rename : ∀ lefts rights : List Ty,
    compatibleAll (renameAll naming lefts) (renameAll naming rights) = compatibleAll lefts rights
  | [], [] | [], _ :: _ | _ :: _, [] => by simp only [renameAll, compatibleAll]
  | left :: lefts, right :: rights => by
      rw [renameAll, renameAll, compatibleAll, compatibleAll, compatible_rename left right,
        compatibleAll_rename lefts rights]

end

end Ty

namespace Registry

/-- The anonymous struct of a number. -/
def anonymousRecord (number : Nat) (members : List Ty) : Ty :=
  .record ⟨s!":anon_{number}", positionalFields members, false, false⟩

theorem rename_positionalFields (members : List Ty) :
    (positionalFields members).map (Field.rename naming) =
      positionalFields (members.map (Ty.rename naming)) := by
  apply List.ext_getElem?
  intro index
  simp only [positionalFields, List.getElem?_map, List.getElem?_mapIdx, Option.map_map]
  rfl

theorem rename_anonymousRecord {number other : Nat} (members : List Ty)
    (same : naming.names s!":anon_{number}" = s!":anon_{other}") :
    (anonymousRecord number members).rename naming =
      anonymousRecord other (members.map (Ty.rename naming)) := by
  simp only [anonymousRecord, Ty.rename_record, Record.rename, same, rename_positionalFields]

end Registry

namespace Renaming

/-- The renaming that takes one anonymous name to another as well. -/
def extend (naming : Renaming) (source target : Nat) : Renaming where
  names := naming.names.trans
    (Equiv.swap (naming.names s!":anon_{source}") s!":anon_{target}")
  fixes name other := by
    have stays := naming.fixes name other
    rw [Equiv.trans_apply, stays]
    refine Equiv.swap_apply_of_ne_of_ne ?_ fun same => other ⟨target, same⟩
    intro same
    exact other ⟨source, naming.names.injective (stays.trans same)⟩

theorem names_extend (naming : Renaming) (source target : Nat) :
    (naming.extend source target).names s!":anon_{source}" = s!":anon_{target}" :=
  Equiv.swap_apply_left _ _

theorem names_extend_of_names {source target number other : Nat}
    (same : naming.names s!":anon_{number}" = s!":anon_{other}")
    (iff : number = source ↔ other = target) :
    (naming.extend source target).names s!":anon_{number}" = s!":anon_{other}" := by
  by_cases equal : number = source
  · rw [equal, iff.mp equal, names_extend]
  · show Equiv.swap _ _ (naming.names _) = _
    rw [same]
    refine Equiv.swap_apply_of_ne_of_ne (fun taken => equal ?_) fun taken => equal (iff.mpr ?_)
    · exact Registry.anonymousName_injective (naming.names.injective (same.trans taken))
    · exact Registry.anonymousName_injective taken

end Renaming

end TraceProbe
