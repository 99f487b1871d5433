import TraceProbe.Insn.Basic
import TraceProbe.Text.Hex

/-!
# Written instructions

The text of an instruction is read off its opcode byte, so that every byte has
a text, known operation or not.
-/

namespace TraceProbe

/-- A machine register is written with `r`, a virtual one with `v`. -/
def Reg.text : Reg → String
  | machine number => s!"r{number.toNat}"
  | virtual number => s!"v{number}"

/-- A label is written with its number. -/
def Label.text (label : Label) : String :=
  s!"L{label.index}"

namespace Insn

open Opcode

/-- A number in decimal. -/
def decimal (value : Int) : String :=
  if value < 0 then "-" ++ toString value.natAbs else toString value.natAbs

/-- A number in decimal with its sign, which zero has as well. -/
def signedDecimal (value : Int) : String :=
  if value < 0 then decimal value else "+" ++ decimal value

/-- The name of an arithmetic operation. -/
def aluName (operation : UInt8) : String :=
  if operation = add then "add"
  else if operation = sub then "sub"
  else if operation = mul then "mul"
  else if operation = lsh then "lsh"
  else if operation = arsh then "arsh"
  else if operation = neg then "neg"
  else if operation = mov then "mov"
  else "alu?"

/-- The name of a jump. -/
def jumpName (operation : UInt8) : String :=
  if operation = ja then "ja"
  else if operation = jeq then "jeq"
  else if operation = jne then "jne"
  else "j?"

/-- The letters for the width that an opcode names. -/
def widthName (code : UInt8) : String :=
  (Width.ofCode code).letters

/-- A memory operand: a base register and an offset in brackets. -/
def memoryText (base : Reg) (off : Int16) : String :=
  s!"[{base.text}{signedDecimal off.toInt}]"

/-- The second operand, as the opcode says. -/
def operandText (code : UInt8) (src : Reg) (imm : Int32) : String :=
  if hasRegisterOperand code then src.text else decimal imm.toInt

/-- The text of an arithmetic instruction; negation has one operand only. -/
def aluText (code : UInt8) (dst src : Reg) (imm : Int32) : String :=
  let operation := operationOf code
  let suffix := if classOf code = alu32 then "32" else ""
  if operation = neg then s!"neg{suffix} {dst.text}"
  else s!"{aluName operation}{suffix} {dst.text}, {operandText code src imm}"

/-- The text of a helper call. -/
def callText (imm : Int32) : String :=
  match Helper.ofId? imm with
  | some helper => s!"call {helper.name}"
  | none => s!"call {decimal imm.toInt}"

/-- The text of an instruction of eight bytes. -/
def plainText (code : UInt8) (dst src : Reg) (off : Int16) (imm : Int32) : String :=
  let kind := classOf code
  if kind = alu64 ∨ kind = alu32 then aluText code dst src imm
  else if kind = ldx then s!"ldx{widthName code} {dst.text}, {memoryText src off}"
  else if kind = stx then s!"stx{widthName code} {memoryText dst off}, {src.text}"
  else if kind = st then s!"st{widthName code} {memoryText dst off}, {decimal imm.toInt}"
  else if kind = jmp ∧ operationOf code = call then callText imm
  else if kind = jmp ∧ operationOf code = exit then "exit"
  else ".byte 0x" ++ String.ofList (Text.byteDigits code)

/-- The text of a jump; an unconditional one has a target only. -/
def jumpText (code : UInt8) (dst src : Reg) (imm : Int32) (target : Label) : String :=
  let operation := operationOf code
  if operation = ja then s!"ja {target.text}"
  else s!"{jumpName operation} {dst.text}, {operandText code src imm}, {target.text}"

/-- The text of an instruction. -/
def text : Insn → String
  | plain code dst src off imm => plainText code dst src off imm
  | wide dst value => s!"lddw {dst.text}, 0x{Text.hex value.toNat}"
  | mapRef dst map => s!"lddw {dst.text}, map#{map}"
  | jump code dst src imm target => jumpText code dst src imm target
  | label name => s!"{name.text}:"

end Insn

end TraceProbe
