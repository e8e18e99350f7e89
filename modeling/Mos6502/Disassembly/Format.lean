import Mos6502.Disassembly.Instruction
import Mos6502.Isa.Operand
import Mos6502.Source.Label
import Mos6502.Symbol.Table
import Mos6502.Text.Column
import Mos6502.Text.Rows

/-!
# Instructions as text

Operands are written with two or four hexadecimal digits, or by the name of a
symbol that has the value. Text that is to be assembled again carries the suffix
`.a` wherever it would otherwise give a zero page instruction.
-/
namespace Mos6502

/-- How instructions are written. -/
structure FormatOptions where
  /-- Names to write for addresses. -/
  symbols : Option SymbolTable := none
  /-- The text is to give the same bytes again. -/
  reassemblable : Bool := false

namespace Instruction

/-- The first symbol with the address of the operand whose name is a label. -/
def symbol? (i : Instruction) (symbols : SymbolTable) : Option Symbol :=
  match i.target? with
  | none => none
  | some a => symbols.symbols.find? fun s => s.address == a && isLabel s.name

/-- The operand's address: a name, or else two or four digits as the mode has bytes for. -/
def addressText (i : Instruction) (name : Option String) : String :=
  match name with
  | some name => name
  | none =>
    match i.mode with
    | .relative => "$" ++ Hex.word (i.target?.getD 0)
    | mode => if mode.operandBytes = 2 then "$" ++ Hex.word i.value else "$" ++ Hex.byte i.value.toUInt8

/-- The suffix that keeps an absolute operand absolute. -/
def forceText (i : Instruction) (options : FormatOptions) : String :=
  if options.reassemblable && i.opcode.any (·.needsForce i.value) then ".a" else ""

/-- The operand as text, empty for none. -/
def operandText (i : Instruction) (options : FormatOptions) : String :=
  match i.opcode with
  | none => "$" ++ Hex.byte i.code
  | some o =>
    let name := (options.symbols.bind i.symbol?).map (·.name)
    let address := i.addressText name
    match o.mode with
    | .implied => ""
    | .accumulator => "A"
    | .immediate => "#$" ++ Hex.byte i.value.toUInt8
    | .zeroPage | .relative => address
    | .zeroPageX => address ++ ",X"
    | .zeroPageY => address ++ ",Y"
    | .absolute => address ++ i.forceText options
    | .absoluteX => address ++ i.forceText options ++ ",X"
    | .absoluteY => address ++ i.forceText options ++ ",Y"
    | .indirect => "(" ++ address ++ ")"
    | .indirectX => "(" ++ address ++ ",X)"
    | .indirectY => "(" ++ address ++ "),Y"

/-- The instruction as text. -/
def render (i : Instruction) (options : FormatOptions) : String :=
  let operand := i.operandText options
  if operand.isEmpty then i.mnemonic else i.mnemonic ++ " " ++ operand

end Instruction

namespace HexDump

/-- The character column of a dump: a point for what is not printable ASCII. -/
def ascii (b : UInt8) : Char :=
  if 32 ≤ b ∧ b ≤ 126 then Char.ofNat b.toNat else '.'

/-- One row of up to sixteen bytes. -/
def row (address : UInt16) (bs : List UInt8) : String :=
  let half (cells : List UInt8) := Column.left 23 (Hex.spaced cells)
  let text := Column.left 16 (String.ofList (bs.map ascii))
  s!"{Hex.word address}: {half (bs.take 8)}  {half (bs.drop 8)} |{text}|\n"

/-- Rows of sixteen bytes with their addresses and characters. -/
def render (bs : List UInt8) (start : UInt16) : String :=
  String.join ((Rows.split 16 bs).mapIdx fun i r => row (start + UInt16.ofNat (16 * i)) r)

end HexDump

end Mos6502
