/-!
# Hexadecimal text
-/

namespace TraceProbe.Text

/-- The lower-case digit of a value below sixteen. -/
def hexDigit (value : Nat) : Char :=
  if value < 10 then Char.ofNat ('0'.toNat + value) else Char.ofNat ('a'.toNat + (value - 10))

/-- The hexadecimal digits of a number, without leading zeros. -/
def hexDigits (value : Nat) : List Char :=
  if value < 16 then [hexDigit value] else hexDigits (value / 16) ++ [hexDigit (value % 16)]

/-- A number in lower-case hexadecimal. -/
def hex (value : Nat) : String :=
  String.ofList (hexDigits value)

/-- Both digits of one byte. -/
def byteDigits (byte : UInt8) : List Char :=
  [hexDigit (byte.toNat / 16), hexDigit (byte.toNat % 16)]

/-- A byte string with two digits for each byte. -/
def hexBytes (bytes : List UInt8) : String :=
  String.ofList (bytes.flatMap byteDigits)

end TraceProbe.Text
