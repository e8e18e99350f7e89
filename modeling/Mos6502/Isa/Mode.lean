/-!
# Addressing modes

The thirteen ways an instruction finds its operand, and how many bytes after
the opcode each of them takes.
-/
namespace Mos6502

inductive Mode
  | implied
  | accumulator
  | immediate
  | zeroPage
  | zeroPageX
  | zeroPageY
  | absolute
  | absoluteX
  | absoluteY
  | indirect
  | indirectX
  | indirectY
  | relative
deriving DecidableEq

namespace Mode

/-- Every mode once. -/
def all : List Mode :=
  [implied, accumulator, immediate, zeroPage, zeroPageX, zeroPageY, absolute, absoluteX, absoluteY,
    indirect, indirectX, indirectY, relative]

/-- Bytes after the opcode. -/
def operandBytes : Mode → Nat
  | implied | accumulator => 0
  | immediate | zeroPage | zeroPageX | zeroPageY | indirectX | indirectY | relative => 1
  | absolute | absoluteX | absoluteY | indirect => 2

/-- Bytes of the whole instruction. -/
def size (m : Mode) : Nat :=
  1 + m.operandBytes

/-- The one-byte counterpart of an absolute mode. -/
def zeroPageForm : Mode → Option Mode
  | absolute => some zeroPage
  | absoluteX => some zeroPageX
  | absoluteY => some zeroPageY
  | _ => none

/-- The two-byte counterpart of a zero page mode. -/
def absoluteForm : Mode → Option Mode
  | zeroPage => some absolute
  | zeroPageX => some absoluteX
  | zeroPageY => some absoluteY
  | _ => none

end Mode

end Mos6502
