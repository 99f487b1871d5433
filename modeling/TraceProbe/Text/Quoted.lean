import TraceProbe.Text.Extending
import TraceProbe.Text.Hex
import TraceProbe.Text.Printing

/-!
# Quoted text

The written form of a string literal: double quotes around the characters,
with an escape for every character that would not be seen as itself.
-/

namespace TraceProbe.Text

/-- A character by its number, in braces and without leading zeros. -/
def codeEscape (c : Char) : List Char :=
  ['\\', 'u', '\x7b'] ++ hexDigits c.toNat ++ ['\x7d']

/-- How one character is written between double quotes. -/
def quotedChar (c : Char) : List Char :=
  match c with
  | '\x00' => ['\\', '0']
  | '\t' => ['\\', 't']
  | '\r' => ['\\', 'r']
  | '\n' => ['\\', 'n']
  | '"' => ['\\', '"']
  | '\\' => ['\\', '\\']
  | c => if extendsPrevious c || !prints c then codeEscape c else [c]

/-- A string as a literal. -/
def quoted (text : String) : String :=
  String.ofList ('"' :: text.toList.flatMap quotedChar ++ ['"'])

end TraceProbe.Text
