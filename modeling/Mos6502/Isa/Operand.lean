import Mos6502.Isa.Opcode

/-!
# Operands as written

The shape of an operand in source text decides the addressing mode, up to one
choice: a direct operand may stand for a zero page or an absolute address.
A value that fits in one byte takes the zero page form if the instruction has
one. A value not known yet takes the absolute form, so that no later value can
fail to fit.
-/
namespace Mos6502

inductive Index
  | x
  | y
deriving DecidableEq

/-- How an operand is written. -/
inductive Shape
  | none
  /-- `A` -/
  | accumulator
  /-- `#value` -/
  | immediate
  /-- `value`, `value,X` or `value,Y`; `forced` is the suffix `.a` that asks for an absolute address. -/
  | direct (index : Option Index) (forced : Bool)
  /-- `(value)` -/
  | indirect
  /-- `(value,X)` -/
  | indirectX
  /-- `(value),Y` -/
  | indirectY
deriving DecidableEq

namespace Shape

/-- Every shape once. -/
def all : List Shape :=
  [.none, .accumulator, .immediate, .direct .none false, .direct (some .x) false, .direct (some .y) false,
    .direct .none true, .direct (some .x) true, .direct (some .y) true, .indirect, .indirectX, .indirectY]

/-- The name of the shape in messages. -/
def describe : Shape → String
  | .none => "implied"
  | accumulator => "accumulator"
  | immediate => "immediate"
  | direct index forced =>
    (if forced then "absolute" else "direct") ++
      match index with
      | .none => ""
      | some .x => ",X"
      | some .y => ",Y"
  | indirect => "indirect"
  | indirectX => "(indirect,X)"
  | indirectY => "(indirect),Y"

end Shape

/-- No instruction fits what is written. -/
inductive SelectError
  | unknownMnemonic (name : String)
  | unsupported (mnemonic : String) (shape : Shape)
deriving DecidableEq

def SelectError.message : SelectError → String
  | unknownMnemonic name => s!"unknown mnemonic '{name}'"
  | unsupported mnemonic shape => s!"{mnemonic} does not support {shape.describe} addressing"

namespace Opcode

/-- The absolute mode of a direct operand. -/
def absoluteMode : Option Index → Mode
  | none => .absolute
  | some .x => .absoluteX
  | some .y => .absoluteY

/-- The zero page mode of a direct operand. -/
def zeroPageMode : Option Index → Mode
  | none => .zeroPage
  | some .x => .zeroPageX
  | some .y => .zeroPageY

/-- The instruction for a direct operand. If only one form exists that form is taken. -/
def selectDirect (name : String) (index : Option Index) (forced : Bool) (value : Option UInt16) :
    Option Opcode :=
  if forced then find? name (absoluteMode index)
  else if value.any (· ≤ 0xFF) then
    find? name (zeroPageMode index) <|> find? name (absoluteMode index)
  else
    find? name (absoluteMode index) <|> find? name (zeroPageMode index)

/-- The instruction of a name that takes no branch target. -/
def selectPlain (name : String) (value : Option UInt16) : Shape → Option Opcode
  | .none => find? name .implied
  | .accumulator => find? name .accumulator
  | .immediate => find? name .immediate
  | .direct index forced => selectDirect name index forced value
  | .indirect => find? name .indirect
  | .indirectX => find? name .indirectX
  | .indirectY => find? name .indirectY

/-- The instruction for a name and an operand. `value` is the operand's value if it is known. -/
def select (name : String) (shape : Shape) (value : Option UInt16) : Except SelectError Opcode :=
  if !isMnemonic name then .error (.unknownMnemonic name)
  else
    let found :=
      if isBranch name then
        if shape = .direct none false then find? name .relative else none
      else selectPlain name value shape
    match found with
    | some o => .ok o
    | none => .error (.unsupported (Text.upper name) shape)

/-- Plain text would select the zero page form instead, so the text needs the suffix `.a`. -/
def needsForce (o : Opcode) (operand : UInt16) : Bool :=
  match o.mode.zeroPageForm with
  | some mode => operand ≤ 0xFF && (find? o.mnemonic mode).isSome
  | none => false

end Opcode

end Mos6502
