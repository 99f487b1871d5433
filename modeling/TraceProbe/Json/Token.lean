/-!
# JSON tokens

The lexer walks once over the characters.  Letters, digits and the signs of
numbers gather into words, and a word counts only as a whole, so that `12x` is
no number followed by something else.
-/

namespace TraceProbe.Json

/-- A lexical unit of JSON. -/
inductive Token where
  | openObject
  | closeObject
  | openArray
  | closeArray
  | colon
  | comma
  | null
  | bool (value : Bool)
  | number (literal : String)
  /-- A string; its content is missing when it holds a lone surrogate. -/
  | string (content : Option String)
deriving Inhabited

/-- Drops one or more digits from the front. -/
def dropDigits? (chars : List Char) : Option (List Char) :=
  match chars with
  | c :: rest => if c.isDigit then some (rest.dropWhile Char.isDigit) else none
  | [] => none

/-- Drops the integer part of a number: one zero, or digits that do not start
with a zero. -/
def dropInteger? (chars : List Char) : Option (List Char) :=
  match chars with
  | '0' :: rest => some rest
  | _ => dropDigits? chars

/-- Drops a fraction, if there is one. -/
def dropFraction? (chars : List Char) : Option (List Char) :=
  match chars with
  | '.' :: rest => dropDigits? rest
  | _ => some chars

/-- Drops an exponent, if there is one. -/
def dropExponent? (chars : List Char) : Option (List Char) :=
  match chars with
  | c :: rest =>
      if c = 'e' ∨ c = 'E' then
        match rest with
        | '+' :: digits => dropDigits? digits
        | '-' :: digits => dropDigits? digits
        | _ => dropDigits? rest
      else some chars
  | [] => some []

/-- Whether a word is a number: an optional minus sign, an integer part, and
then an optional fraction and an optional exponent. -/
def isNumber (word : List Char) : Bool :=
  let unsigned := match word with
    | '-' :: rest => rest
    | _ => word
  ((dropInteger? unsigned).bind dropFraction?).bind dropExponent? = some []

/-- The token that a whole word denotes. -/
def Token.ofWord? (word : List Char) : Option Token :=
  if word = ['n', 'u', 'l', 'l'] then some .null
  else if word = ['t', 'r', 'u', 'e'] then some (.bool true)
  else if word = ['f', 'a', 'l', 's', 'e'] then some (.bool false)
  else if isNumber word then some (.number (String.ofList word))
  else none

/-- A part of a string: a character, or a 16-bit unit given by an escape. -/
inductive Piece where
  | char (c : Char)
  | unit (value : Nat)

/-- The value of a hexadecimal digit of either case. -/
def hexValue? (c : Char) : Option Nat :=
  if '0' ≤ c ∧ c ≤ '9' then some (c.toNat - '0'.toNat)
  else if 'a' ≤ c ∧ c ≤ 'f' then some (c.toNat - 'a'.toNat + 10)
  else if 'A' ≤ c ∧ c ≤ 'F' then some (c.toNat - 'A'.toNat + 10)
  else none

/-- The character that a one-letter escape stands for. -/
def escapedChar? : Char → Option Char
  | '"' => some '"'
  | '\\' => some '\\'
  | '/' => some '/'
  | 'b' => some '\x08'
  | 'f' => some '\x0c'
  | 'n' => some '\n'
  | 'r' => some '\r'
  | 't' => some '\t'
  | _ => none

/-- Reads the escapes of a string; nothing comes of a malformed one. -/
def pieces? : List Char → Option (List Piece)
  | [] => some []
  | '\\' :: 'u' :: a :: b :: c :: d :: rest => do
      let first ← hexValue? a
      let second ← hexValue? b
      let third ← hexValue? c
      let fourth ← hexValue? d
      let others ← pieces? rest
      return .unit (first * 4096 + second * 256 + third * 16 + fourth) :: others
  | '\\' :: c :: rest => do
      let escaped ← escapedChar? c
      let others ← pieces? rest
      return .char escaped :: others
  | c :: rest => if c = '\\' then none else (pieces? rest).map (.char c :: ·)

/-- Leading units of surrogate pairs. -/
def isLeading (unit : Nat) : Bool :=
  0xd800 ≤ unit && unit < 0xdc00

/-- Trailing units of surrogate pairs. -/
def isTrailing (unit : Nat) : Bool :=
  0xdc00 ≤ unit && unit < 0xe000

/-- Joins surrogate pairs into characters; a lone surrogate spoils the text. -/
def characters? : List Piece → Option (List Char)
  | [] => some []
  | .char c :: rest => (characters? rest).map (c :: ·)
  | .unit leading :: .unit trailing :: rest =>
      if isLeading leading && isTrailing trailing then
        (characters? rest).map
          (Char.ofNat (0x10000 + (leading - 0xd800) * 1024 + (trailing - 0xdc00)) :: ·)
      else if isLeading leading || isTrailing leading then none
      else (characters? (.unit trailing :: rest)).map (Char.ofNat leading :: ·)
  | .unit unit :: rest =>
      if isLeading unit || isTrailing unit then none
      else (characters? rest).map (Char.ofNat unit :: ·)

/-- The token of a string with the given characters between its quotes. -/
def Token.ofString? (content : List Char) : Option Token :=
  (pieces? content).map fun pieces => .string ((characters? pieces).map String.ofList)

/-- Characters that gather into words. -/
def isWordChar (c : Char) : Bool :=
  c.isAlphanum || c = '+' || c = '-' || c = '.'

/-- Where the lexer stands; gathered characters are kept in reverse. -/
inductive Lexing where
  | between
  | word (gathered : List Char)
  | string (gathered : List Char)
  /-- Inside a string, behind a backslash. -/
  | escape (gathered : List Char)

/-- What a character outside words and strings does: it may be a blank, stand
for a token of its own, or start a word or a string. -/
def Lexing.start (tokens : Array Token) (c : Char) : Option (Array Token × Lexing) :=
  match c with
  | ' ' | '\t' | '\n' | '\r' => some (tokens, .between)
  | '[' => some (tokens.push .openArray, .between)
  | ']' => some (tokens.push .closeArray, .between)
  | ':' => some (tokens.push .colon, .between)
  | ',' => some (tokens.push .comma, .between)
  | '"' => some (tokens, .string [])
  | c =>
      if c = '\x7b' then some (tokens.push .openObject, .between)
      else if c = '\x7d' then some (tokens.push .closeObject, .between)
      else if isWordChar c then some (tokens, .word [c])
      else none

/-- The lexer's step over one character. -/
def Lexing.step (tokens : Array Token) (c : Char) : Lexing → Option (Array Token × Lexing)
  | .between => start tokens c
  | .word gathered =>
      if isWordChar c then some (tokens, .word (c :: gathered))
      else do
        let token ← Token.ofWord? gathered.reverse
        start (tokens.push token) c
  | .string gathered =>
      if c = '"' then do
        let token ← Token.ofString? gathered.reverse
        return (tokens.push token, .between)
      else if c.toNat < 32 then none
      else if c = '\\' then some (tokens, .escape (c :: gathered))
      else some (tokens, .string (c :: gathered))
  | .escape gathered => some (tokens, .string (c :: gathered))

/-- The tokens at the end of the text. -/
def Lexing.finish (tokens : Array Token) : Lexing → Option (Array Token)
  | .between => some tokens
  | .word gathered => (Token.ofWord? gathered.reverse).map tokens.push
  | .string _ | .escape _ => none

/-- Lexes the rest of a text. -/
def tokensFrom? (tokens : Array Token) (state : Lexing) : List Char → Option (Array Token)
  | [] => state.finish tokens
  | c :: rest =>
      match state.step tokens c with
      | none => none
      | some (tokens, state) => tokensFrom? tokens state rest

/-- The tokens of a text. -/
def tokens? (text : String) : Option (List Token) :=
  (tokensFrom? #[] .between text.toList).map Array.toList

end TraceProbe.Json
