import TraceProbe.Diagnostic
import TraceProbe.Ty.Text

/-!
# Symbols

An identifier names a map or a context variable.  Names that were never
declared are maps, and their types are inferred from their use.
-/

namespace TraceProbe

/-- What an identifier stands for. -/
inductive SymbolKind where
  /-- A map, numbered in order of first use. -/
  | map (number : Nat)
  /-- A value at a byte offset of the probe context. -/
  | context (offset : Int16)
deriving DecidableEq, Inhabited

namespace SymbolKind

/-- The number of a map. -/
def map? : SymbolKind → Option Nat
  | map number => some number
  | context _ => none

end SymbolKind

/-- A named entity of a probe. -/
structure Symbol where
  name : String
  type : Option Ty
  kind : SymbolKind
deriving Inhabited

/-- The symbols of one probe, in order of declaration or first use. -/
structure Symbols where
  entries : List Symbol := []
  /-- The number of the next map. -/
  nextMap : Nat := 0
deriving Inhabited

namespace Symbols

/-- The symbol of a given name. -/
def get? (symbols : Symbols) (name : String) : Option Symbol :=
  symbols.entries.find? (·.name = name)

/-- Adds a symbol at the end. -/
def push (symbols : Symbols) (symbol : Symbol) : Symbols :=
  { symbols with entries := symbols.entries ++ [symbol] }

/-- Adds a symbol with a new name. -/
def insert (symbols : Symbols) (symbol : Symbol) : Except Diagnostic Unit × Symbols :=
  match symbols.get? symbol.name with
  | some _ => (.error (.shapeError s!"`{symbol.name}` is already declared" {}), symbols)
  | none => (.ok (), symbols.push symbol)

/-- Takes the number of the next map out of use. -/
def reserveMap (symbols : Symbols) : Symbols :=
  { symbols with nextMap := symbols.nextMap + 1 }

/-- Declares a context variable of a type at an offset. -/
def declareContext (symbols : Symbols) (name : String) (type : Ty) (offset : Int16) :
    Except Diagnostic Unit × Symbols :=
  symbols.insert ⟨name, some type, .context offset⟩

/-- Declares a map of a known type.  Its number is taken before the name is
looked up. -/
def declareMap (symbols : Symbols) (name : String) (type : Ty) :
    Except Diagnostic Unit × Symbols :=
  if type.isMap then
    symbols.reserveMap.insert ⟨name, some type, .map symbols.nextMap⟩
  else
    (.error (.typeError s!"`{name}` declared as a map, but its type is '{type.text}'" {}), symbols)

/-- The symbol of a name; an unknown name becomes an untyped map. -/
def resolve (symbols : Symbols) (name : String) : Symbol × Symbols :=
  match symbols.get? name with
  | some symbol => (symbol, symbols)
  | none =>
      let symbol := Symbol.mk name none (.map symbols.nextMap)
      (symbol, symbols.reserveMap.push symbol)

/-- Records a type for the symbol of a name.  A type that is known already
stays. -/
def setType (symbols : Symbols) (name : String) (type : Ty) : Symbols :=
  { symbols with
    entries := symbols.entries.map fun symbol =>
      if symbol.name = name ∧ symbol.type.isNone then { symbol with type := some type }
      else symbol }

/-- The maps in order of their numbers, which is the order of declaration. -/
def maps (symbols : Symbols) : List Symbol :=
  symbols.entries.filter (·.kind.map?.isSome)

end Symbols

end TraceProbe
