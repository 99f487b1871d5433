import TraceProbe.Text.Hex

/-!
# JSON values

Values keep their numbers as written and their object members in order, with
repeated names, so that a reader of a value can decide which spellings it
accepts.
-/

namespace TraceProbe

/-- A JSON value.  The content of a string is missing when its escapes name a
lone surrogate, which is no character. -/
inductive Json where
  | null
  | bool (value : Bool)
  | number (literal : String)
  | string (content : Option String)
  | array (items : List Json)
  | object (members : List (Option String × Json))
deriving Inhabited

namespace Json

/-- A natural number as a value. -/
def nat (value : Nat) : Json :=
  number (toString value)

/-- An integer as a value. -/
def int (value : Int) : Json :=
  number (if value < 0 then "-" ++ toString value.natAbs else toString value.natAbs)

/-- A string as a value. -/
def text (content : String) : Json :=
  string (some content)

/-- An object with the given members. -/
def record (members : List (String × Json)) : Json :=
  object (members.map fun (name, value) => (some name, value))

/-- The number that a literal of digits alone denotes; a sign, a fraction or
an exponent makes it no natural number, whatever its value. -/
def natural? : Json → Option Nat
  | number literal =>
      if literal.toList.all Char.isDigit then literal.toNat? else none
  | _ => none

/-- The content of a string. -/
def text? : Json → Option String
  | string content => content
  | _ => none

/-- How one character is written inside a string: only quotes, backslashes and
control characters are escaped. -/
def writtenChar (c : Char) : List Char :=
  match c with
  | '"' => ['\\', '"']
  | '\\' => ['\\', '\\']
  | '\x08' => ['\\', 'b']
  | '\x0c' => ['\\', 'f']
  | '\n' => ['\\', 'n']
  | '\r' => ['\\', 'r']
  | '\t' => ['\\', 't']
  | c =>
      if c.toNat < 32 then
        ['\\', 'u', '0', '0'] ++ Text.byteDigits (UInt8.ofNat c.toNat)
      else [c]

/-- A string between double quotes. -/
def writtenString (content : String) : String :=
  String.ofList ('"' :: content.toList.flatMap writtenChar ++ ['"'])

mutual

/-- The shortest written form, without blanks. -/
def compact : Json → String
  | null => "null"
  | bool true => "true"
  | bool false => "false"
  | number literal => literal
  | string content => writtenString (content.getD "")
  | array items => "[" ++ ",".intercalate (compactItems items) ++ "]"
  | object members => "\x7b" ++ ",".intercalate (compactMembers members) ++ "\x7d"
termination_by structural value => value

/-- The written forms of array items. -/
def compactItems : List Json → List String
  | [] => []
  | item :: items => compact item :: compactItems items
termination_by structural items => items

/-- The written forms of object members. -/
def compactMembers : List (Option String × Json) → List String
  | [] => []
  | (name, value) :: members =>
      (writtenString (name.getD "") ++ ":" ++ compact value) :: compactMembers members
termination_by structural members => members

end

end Json

end TraceProbe
