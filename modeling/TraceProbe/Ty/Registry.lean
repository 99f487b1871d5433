import TraceProbe.Ty.Text

/-!
# Type registry

A registry holds every named type of a compilation unit: the scalars, the
records that the host supplies, and the anonymous structs made from struct
literals.  A name keeps the first type registered under it, and equal lists of
member types share one anonymous struct.
-/

namespace TraceProbe

/-- The name under which a type is registered: records go by their bare name,
all other types by their text. -/
def Ty.registeredName : Ty → String
  | .record shape => shape.name
  | type => type.text

/-- Named types of a compilation unit. -/
structure Registry where
  /-- Types by name, in order of registration. -/
  named : List (String × Ty)
  /-- Anonymous structs by the types of their members. -/
  shapes : List (List Ty × Ty)
  /-- Number of anonymous structs made so far. -/
  made : Nat
deriving Inhabited

namespace Registry

/-- A registry without any type. -/
def empty : Registry := ⟨[], [], 0⟩

/-- The type registered under a name. -/
def lookup? (registry : Registry) (name : String) : Option Ty :=
  registry.named.lookup name

/-- Registers a type under its name, and returns what stands under that name
afterwards. -/
def add (registry : Registry) (type : Ty) : Ty × Registry :=
  match registry.lookup? type.registeredName with
  | some present => (present, registry)
  | none => (type, { registry with named := registry.named ++ [(type.registeredName, type)] })

/-- A registry that holds the scalars. -/
def new : Registry :=
  Scalar.all.foldl (fun registry kind => (registry.add (.scalar kind)).2) empty

/-- Number of registered names. -/
def size (registry : Registry) : Nat :=
  registry.named.length

/-- Whether nothing is registered. -/
def isEmpty (registry : Registry) : Bool :=
  registry.named.isEmpty

/-- The members of an anonymous struct, named by their position. -/
def positionalFields (members : List Ty) : List Field :=
  members.mapIdx fun index type => ⟨s!"f{index}", type⟩

/-- The struct with the given member types.  A shape seen for the first time
gets the next anonymous name, which is then registered. -/
def anonymousStruct (registry : Registry) (members : List Ty) : Ty × Registry :=
  match registry.shapes.lookup members with
  | some present => (present, registry)
  | none =>
      let type := Ty.record ⟨s!":anon_{registry.made}", positionalFields members, false, false⟩
      { registry with
        shapes := registry.shapes ++ [(members, type)]
        made := registry.made + 1 }.add type

end Registry

end TraceProbe
