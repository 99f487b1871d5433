import TraceProbe.Json.Basic
import TraceProbe.Json.Token

/-!
# Reading JSON

The reader walks once over the tokens and keeps the open containers on a
stack, so that nesting is bounded by nothing but the text.
-/

namespace TraceProbe.Json

/-- An open container with what it holds so far, in reverse. -/
inductive Frame where
  | items (held : List Json)
  /-- The name belongs to the member being read. -/
  | members (held : List (Option String × Json)) (name : Option String)

/-- What the reader has before it. -/
inductive Reading where
  /-- A value must come. -/
  | value (stack : List Frame)
  /-- An array was opened: its first item or its end must come. -/
  | firstItem (stack : List Frame)
  /-- An object was opened: its first member or its end must come. -/
  | firstMember (stack : List Frame)
  /-- Another member must come. -/
  | member (held : List (Option String × Json)) (stack : List Frame)
  /-- A member's name was read. -/
  | colon (held : List (Option String × Json)) (name : Option String) (stack : List Frame)
  /-- A value inside the top container was read. -/
  | next (stack : List Frame)
  /-- The outermost value was read. -/
  | finished (value : Json)

namespace Reading

/-- Puts a finished value into the container around it. -/
def supply (json : Json) : List Frame → Reading
  | [] => finished json
  | .items held :: stack => next (.items (json :: held) :: stack)
  | .members held name :: stack => next (.members ((name, json) :: held) name :: stack)

/-- Reads the first token of a value. -/
def begin? (stack : List Frame) : Token → Option Reading
  | .openObject => some (firstMember stack)
  | .openArray => some (firstItem stack)
  | .null => some (supply .null stack)
  | .bool truth => some (supply (.bool truth) stack)
  | .number literal => some (supply (.number literal) stack)
  | .string content => some (supply (.string content) stack)
  | .closeObject | .closeArray | .colon | .comma => none

/-- The reader's step over one token. -/
def step? (token : Token) : Reading → Option Reading
  | value stack => begin? stack token
  | firstItem stack =>
      match token with
      | .closeArray => some (supply (.array []) stack)
      | token => begin? (.items [] :: stack) token
  | firstMember stack =>
      match token with
      | .closeObject => some (supply (.object []) stack)
      | .string name => some (colon [] name stack)
      | _ => none
  | member held stack =>
      match token with
      | .string name => some (colon held name stack)
      | _ => none
  | colon held name stack =>
      match token with
      | .colon => some (value (.members held name :: stack))
      | _ => none
  | next (.items held :: stack) =>
      match token with
      | .comma => some (value (.items held :: stack))
      | .closeArray => some (supply (.array held.reverse) stack)
      | _ => none
  | next (.members held _ :: stack) =>
      match token with
      | .comma => some (member held stack)
      | .closeObject => some (supply (.object held.reverse) stack)
      | _ => none
  | next [] => none
  | finished _ => none

/-- Reads the remaining tokens. -/
def run? : Reading → List Token → Option Json
  | finished json, [] => some json
  | _, [] => none
  | state, token :: tokens =>
      match state.step? token with
      | none => none
      | some state => run? state tokens

end Reading

/-- Reads a text that holds one value and nothing else. -/
def parse? (text : String) : Option Json :=
  (tokens? text).bind (Reading.value []).run?

end TraceProbe.Json
