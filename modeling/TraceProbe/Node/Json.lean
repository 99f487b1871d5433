import TraceProbe.Json.Reader
import TraceProbe.Node.Basic

/-!
# Trees as JSON

A node is written as an object with its payload under `kind`; the payload is
an object with the name of its constructor.  What the passes record is not
written.  Reading also accepts the members of a node, of an application or of
a number as an array in their order, and skips members it does not know.
-/

namespace TraceProbe.Node

/-- The object around a payload. -/
def kindObject (kind : String) (payload : Json) : Json :=
  .record [("kind", .record [(kind, payload)])]

mutual

/-- The JSON form of a tree. -/
def toJson : Node → Json
  | apply operator args _ =>
      kindObject "Expr" (.record [("func", .text operator), ("args", .array (toJsons args))])
  | ident name _ => kindObject "Ident" (.text name)
  | str value _ => kindObject "Str" (.text value)
  | num value unsigned _ =>
      kindObject "Num" (.record [("value", .nat value.toNat), ("unsigned", .bool unsigned)])
termination_by structural node => node

/-- The JSON forms of several trees. -/
def toJsons : List Node → List Json
  | [] => []
  | node :: nodes => toJson node :: toJsons nodes
termination_by structural nodes => nodes

end

/-- How many containers may be open at once. -/
def nestingLimit : Nat := 127

/-- One value under a known name: it may stand there once. -/
def once {α : Type} (read : Option α) (later : Option α) : Option (Option α) :=
  match read, later with
  | some value, none => some (some value)
  | _, _ => none

/-- A truth value. -/
def truth? : Json → Option Bool
  | .bool value => some value
  | _ => none

/-- An unsigned number of 64 bits. -/
def word? (json : Json) : Option UInt64 := do
  let value ← json.natural?
  if value < UInt64.size then some (UInt64.ofNat value) else none

/-- The members of a number; each of the two may come once, in any order. -/
def numberMembers? : List (Option String × Json) → Option (Option UInt64 × Option Bool)
  | [] => some (none, none)
  | (none, _) :: _ => none
  | (some name, json) :: rest => do
      let (value, unsigned) ← numberMembers? rest
      if name = "value" then return (← once (word? json) value, unsigned)
      else if name = "unsigned" then return (value, ← once (truth? json) unsigned)
      else return (value, unsigned)

/-- A number, as an object or as an array of its two members. -/
def number? : Json → Option Node
  | .object members => do
      let (value, unsigned) ← numberMembers? members
      return .num (← value) (← unsigned) {}
  | .array [value, unsigned] => do
      return .num (← word? value) (← truth? unsigned) {}
  | _ => none

mutual

/-- Reads a node, with so many containers that may still be opened. -/
def read? (room : Nat) : Json → Option Node
  | .object members => if room < 1 then none else (kindMember? (room - 1) members).bind id
  | .array [kind] => if room < 1 then none else readKind? (room - 1) kind
  | _ => none
termination_by structural json => json

/-- Reads the one known member of a node. -/
def kindMember? (room : Nat) : List (Option String × Json) → Option (Option Node)
  | [] => some none
  | (none, _) :: _ => none
  | (some name, json) :: rest => do
      let later ← kindMember? room rest
      if name = "kind" then once (readKind? room json) later else return later
termination_by structural members => members

/-- Reads a payload: an object with one member, named for its constructor. -/
def readKind? (room : Nat) : Json → Option Node
  | .object [(some name, json)] =>
      if room < 1 then none
      else if name = "Ident" then json.text?.map (.ident · {})
      else if name = "Str" then json.text?.map (.str · {})
      else if name = "Num" then (if room < 2 then none else number? json)
      else if name = "Expr" then readApplication? (room - 1) json
      else none
  | _ => none
termination_by structural json => json

/-- Reads an application, as an object or as an array of its two members. -/
def readApplication? (room : Nat) : Json → Option Node
  | .object members =>
      if room < 1 then none
      else do
        let (operator, args) ← applicationMembers? (room - 1) members
        return .apply (← operator) (← args) {}
  | .array [operator, args] =>
      if room < 1 then none
      else do
        let name ← operator.text?
        return .apply name (← readArguments? (room - 1) args) {}
  | _ => none
termination_by structural json => json

/-- Reads the members of an application; each may come once, in any order. -/
def applicationMembers? (room : Nat) :
    List (Option String × Json) → Option (Option String × Option (List Node))
  | [] => some (none, none)
  | (none, _) :: _ => none
  | (some name, json) :: rest => do
      let (operator, args) ← applicationMembers? room rest
      if name = "func" then return (← once json.text? operator, args)
      else if name = "args" then return (operator, ← once (readArguments? room json) args)
      else return (operator, args)
termination_by structural members => members

/-- Reads an argument list. -/
def readArguments? (room : Nat) : Json → Option (List Node)
  | .array items => if room < 1 then none else readAll? (room - 1) items
  | _ => none
termination_by structural json => json

/-- Reads several nodes. -/
def readAll? (room : Nat) : List Json → Option (List Node)
  | [] => some []
  | json :: rest => do
      let node ← read? room json
      let nodes ← readAll? room rest
      return node :: nodes
termination_by structural items => items

end

/-- Reads a tree from its JSON form. -/
def ofJson? (json : Json) : Option Node :=
  read? nestingLimit json

/-- Reads a tree from JSON text. -/
def parse? (text : String) : Option Node :=
  (Json.parse? text).bind ofJson?

end TraceProbe.Node
