import TraceProbe.Proofs.Machine.Widths
import TraceProbe.Typing.Inference

/-!
# The map language

Statements that store into maps and remove keys from them, over literals,
context variables and map reads.  They have a meaning of their own, from the
contents of the context and of the maps, in which nothing is compiled.
-/

namespace TraceProbe

/-- An expression of the map language, with the source positions of its nodes. -/
inductive MapExpr where
  | number (value : UInt64) (unsigned : Bool) (loc : Loc)
  | text (value : String) (loc : Loc)
  | context (name : String) (loc : Loc)
  | read (map : String) (key : MapExpr) (loc mapLoc : Loc)
deriving Inhabited

/-- A statement of the map language. -/
inductive MapCommand where
  | store (map : String) (key value : MapExpr) (loc targetLoc mapLoc : Loc)
  | remove (map : String) (key : MapExpr) (loc targetLoc mapLoc : Loc)
deriving Inhabited

/-- The fresh node of an expression. -/
def MapExpr.toNode : MapExpr → Node
  | number value unsigned loc => .num value unsigned { loc := loc }
  | text value loc => .str value { loc := loc }
  | context name loc => .ident name { loc := loc }
  | read map key loc mapLoc =>
      .apply "[]" [.ident map { loc := mapLoc }, key.toNode] { loc := loc }

/-- The fresh node of a statement. -/
def MapCommand.toNode : MapCommand → Node
  | store map key value loc targetLoc mapLoc =>
      .apply "=" [.apply "[]" [.ident map { loc := mapLoc }, key.toNode] { loc := targetLoc },
        value.toNode] { loc := loc }
  | remove map key loc targetLoc mapLoc =>
      .apply "delete" [.apply "[]" [.ident map { loc := mapLoc }, key.toNode] { loc := targetLoc }]
        { loc := loc }

/-- A declared map: its number and the types of its keys and values. -/
structure MapShape where
  number : Nat
  key : Ty
  value : Ty
  kind : MapKind

namespace MapShape

/-- The type of the map. -/
def type (shape : MapShape) : Ty :=
  .map shape.key shape.value shape.kind

/-- The number as programs pass it on. -/
def id (shape : MapShape) : UInt64 :=
  UInt64.ofNat shape.number

end MapShape

namespace Symbols

/-- The declared map of a name. -/
def map? (symbols : Symbols) (name : String) : Option MapShape :=
  match symbols.get? name with
  | some ⟨_, some (.map key value kind), .map number⟩ => some ⟨number, key, value, kind⟩
  | _ => none

/-- Type and offset of the context variable of a name. -/
def context? (symbols : Symbols) (name : String) : Option (Ty × Int16) :=
  match symbols.get? name with
  | some ⟨_, some type, .context offset⟩ => some (type, offset)
  | _ => none

end Symbols

/-- The value of every key in every map, by the number of the map. -/
abbrev Contents := UInt64 → List UInt8 → Option (List UInt8)

namespace Contents

/-- Replaces the value of one key. -/
def put (contents : Contents) (id : UInt64) (key value : List UInt8) : Contents :=
  fun other place => if other = id ∧ place = key then some value else contents other place

/-- Removes one key. -/
def erase (contents : Contents) (id : UInt64) (key : List UInt8) : Contents :=
  fun other place => if other = id ∧ place = key then none else contents other place

end Contents

namespace MapExpr

variable (symbols : Symbols)

/-- The type of an expression. -/
def type? : MapExpr → Option Ty
  | number _ unsigned _ => some (Node.numberType unsigned)
  | text value _ => some (Node.literalType value)
  | context name _ => (symbols.context? name).map (·.1)
  | read map _ _ _ => (symbols.map? map).map (·.value)

/-- Whether all names of an expression are declared. -/
def declared : MapExpr → Bool
  | number _ _ _ | text _ _ => true
  | context name _ => (symbols.context? name).isSome
  | read map key _ _ => key.declared && (symbols.map? map).isSome

variable (context : Int16 → Nat → List UInt8) (contents : Contents)

/-- Bytes of a type, converted to a key or value of a declared type. -/
def converted (own : Option Ty) (declared : Ty) (bytes : List UInt8) : List UInt8 :=
  resize (own.any Ty.isSigned) declared.size bytes

/-- The bytes of an expression, from the contents of the context, by offset and
size, and the contents of the maps.  A key that is not there reads as zeros. -/
def eval : MapExpr → List UInt8
  | number value _ _ => littleEndian 8 value.toNat
  | text value _ => value.toUTF8.toList ++ [0]
  | .context name _ =>
      match symbols.context? name with
      | some (type, offset) => context offset type.size
      | none => []
  | read map key _ _ =>
      match symbols.map? map with
      | some shape =>
          (contents shape.id (converted (key.type? symbols) shape.key key.eval)).getD
            (List.replicate shape.value.size 0)
      | none => []

end MapExpr

namespace MapCommand

variable (symbols : Symbols) (context : Int16 → Nat → List UInt8)

/-- Whether all names of a statement are declared. -/
def declared : MapCommand → Bool
  | store map key value _ _ _ =>
      key.declared symbols && value.declared symbols && (symbols.map? map).isSome
  | remove map key _ _ _ => key.declared symbols && (symbols.map? map).isSome

/-- The contents of the maps after a statement. -/
def exec (contents : Contents) : MapCommand → Contents
  | store map key value _ _ _ =>
      match symbols.map? map with
      | some shape =>
          contents.put shape.id
            (MapExpr.converted (key.type? symbols) shape.key (key.eval symbols context contents))
            (MapExpr.converted (value.type? symbols) shape.value
              (value.eval symbols context contents))
      | none => contents
  | remove map key _ _ _ =>
      match symbols.map? map with
      | some shape =>
          contents.erase shape.id
            (MapExpr.converted (key.type? symbols) shape.key (key.eval symbols context contents))
      | none => contents

/-- The contents of the maps after statements, one after the other. -/
def execAll (commands : List MapCommand) (contents : Contents) : Contents :=
  commands.foldl (exec symbols context) contents

end MapCommand

end TraceProbe
