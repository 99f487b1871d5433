/-!
# Opcode bytes

The low three bits of an opcode name its class.  Arithmetic and jumps keep the
operation in the high four bits and the kind of their second operand in bit
three; memory accesses keep width and mode there.
-/

namespace TraceProbe.Opcode

/-- Wide immediate load. -/
def ld : UInt8 := 0x00

/-- Load from memory into a register. -/
def ldx : UInt8 := 0x01

/-- Store an immediate to memory. -/
def st : UInt8 := 0x02

/-- Store a register to memory. -/
def stx : UInt8 := 0x03

/-- Arithmetic on 32 bits. -/
def alu32 : UInt8 := 0x04

/-- Jumps, calls and the exit. -/
def jmp : UInt8 := 0x05

/-- Arithmetic on 64 bits. -/
def alu64 : UInt8 := 0x07

/-- The class of an opcode. -/
def classOf (code : UInt8) : UInt8 := code &&& 0x07

/-- The operation of an arithmetic or jump opcode. -/
def operationOf (code : UInt8) : UInt8 := code &&& 0xf0

def add : UInt8 := 0x00
def sub : UInt8 := 0x10
def mul : UInt8 := 0x20
def lsh : UInt8 := 0x60
def neg : UInt8 := 0x80
def mov : UInt8 := 0xb0

/-- Shift to the right that repeats the sign. -/
def arsh : UInt8 := 0xc0

/-- Jump always. -/
def ja : UInt8 := 0x00

/-- Jump if equal. -/
def jeq : UInt8 := 0x10

/-- Jump if different. -/
def jne : UInt8 := 0x50

/-- Call a helper. -/
def call : UInt8 := 0x80

/-- Return from the program. -/
def exit : UInt8 := 0x90

/-- The second operand is an immediate. -/
def immediateOperand : UInt8 := 0x00

/-- The second operand is a register. -/
def registerOperand : UInt8 := 0x08

/-- Whether the second operand is a register. -/
def hasRegisterOperand (code : UInt8) : Bool :=
  code &&& registerOperand != 0

/-- The operand of a wide load is an immediate. -/
def immediateMode : UInt8 := 0x00

/-- The operand is memory at a register plus an offset. -/
def memoryMode : UInt8 := 0x60

/-- The whole opcode of a wide load; its width is a double word. -/
def lddw : UInt8 := ld ||| 0x18 ||| immediateMode

/-- The whole opcode of a helper call. -/
def callHelper : UInt8 := jmp ||| call

/-- The whole opcode of the exit. -/
def exitProgram : UInt8 := jmp ||| exit

end TraceProbe.Opcode

namespace TraceProbe

/-- The width of a memory access. -/
inductive Width where
  | byte
  | half
  | word
  | double
deriving DecidableEq, Inhabited

namespace Width

/-- The number of bytes of an access. -/
def bytes : Width → Nat
  | byte => 1
  | half => 2
  | word => 4
  | double => 8

theorem bytes_pos (width : Width) : 0 < width.bytes := by
  cases width <;> decide

/-- How an opcode names a width. -/
def bits : Width → UInt8
  | byte => 0x10
  | half => 0x08
  | word => 0x00
  | double => 0x18

/-- The letters that stand for a width in listings. -/
def letters : Width → String
  | byte => "b"
  | half => "h"
  | word => "w"
  | double => "dw"

/-- The width that an opcode names. -/
def ofCode (code : UInt8) : Width :=
  let named := code &&& 0x18
  if named = byte.bits then byte
  else if named = half.bits then half
  else if named = word.bits then word
  else double

/-- The width of an access of so many bytes. -/
def ofBytes? : Nat → Option Width
  | 1 => some byte
  | 2 => some half
  | 4 => some word
  | 8 => some double
  | _ => none

theorem ofBytes?_bytes (width : Width) : ofBytes? width.bytes = some width := by
  cases width <;> rfl

theorem bytes_of_ofBytes? {count : Nat} {width : Width} (found : ofBytes? count = some width) :
    width.bytes = count := by
  unfold ofBytes? at found
  split at found <;> cases found <;> rfl

end Width

end TraceProbe
