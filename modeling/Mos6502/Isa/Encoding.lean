import Mos6502.Isa.Branch
import Mos6502.Isa.Opcode

/-!
# Encoding

An instruction, the value of its operand and the address it stands at give its
bytes. Every value is checked against the room it has. Only data and immediate
operands may be negative; they are stored in two's complement.
-/
namespace Mos6502

/-- What a value is written into. -/
inductive Field
  | byte
  | word
  | zeroPageAddress
  | address
  | branchTarget
deriving DecidableEq

namespace Field

def describe : Field → String
  | byte => "byte"
  | word => "word"
  | zeroPageAddress => "zero page address"
  | address => "address"
  | branchTarget => "branch target"

/-- The least value the field takes. -/
def min : Field → Int
  | byte => -128
  | word => -32768
  | zeroPageAddress | address | branchTarget => 0

/-- The greatest value the field takes. -/
def max : Field → Int
  | byte | zeroPageAddress => 0xFF
  | word | address | branchTarget => 0xFFFF

end Field

inductive EncodeError
  | range (value : Int) (field : Field)
  | branch (e : Branch.OutOfReach)
  | missingOperand
deriving DecidableEq

def EncodeError.message : EncodeError → String
  | range value field => s!"value {value} out of range for {field.describe}"
  | branch e => e.message
  | missingOperand => "missing operand"

namespace Encoding

/-- The value, if the field has room for it. -/
def check (field : Field) (value : Int) : Except EncodeError Int :=
  if field.min ≤ value ∧ value ≤ field.max then .ok value else .error (.range value field)

/-- Low byte first. -/
def littleEndian (w : UInt16) : List UInt8 :=
  [w.toUInt8, (w >>> 8).toUInt8]

/-- A data or immediate byte. -/
def byte (value : Int) : Except EncodeError UInt8 :=
  (check .byte value).map UInt8.ofInt

/-- A data word. -/
def word (value : Int) : Except EncodeError (List UInt8) :=
  (check .word value).map fun v => littleEndian (UInt16.ofInt v)

/-- The operand bytes of an instruction at `address`; for a branch the value is the target. -/
def operand (mode : Mode) (value : Int) (address : UInt16) : Except EncodeError (List UInt8) :=
  match mode with
  | .implied | .accumulator => .ok []
  | .relative => do
    let target ← check .branchTarget value
    match Branch.displacement address (UInt16.ofInt target) with
    | .ok offset => .ok [offset.toUInt8]
    | .error e => .error (.branch e)
  | .immediate => do
    let b ← byte value
    .ok [b]
  | .zeroPage | .zeroPageX | .zeroPageY | .indirectX | .indirectY => do
    let v ← check .zeroPageAddress value
    .ok [UInt8.ofInt v]
  | .absolute | .absoluteX | .absoluteY | .indirect => do
    let v ← check .address value
    .ok (littleEndian (UInt16.ofInt v))

end Encoding

/-- The bytes of the instruction at `address`. -/
def Opcode.encode (o : Opcode) (value : Option Int) (address : UInt16) :
    Except EncodeError (List UInt8) :=
  if o.mode.operandBytes = 0 then .ok [o.code]
  else match value with
    | none => .error .missingOperand
    | some v => (Encoding.operand o.mode v address).map (o.code :: ·)

end Mos6502
