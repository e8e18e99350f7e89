import Mos6502.Isa.Mode
import Mos6502.Isa.Operation
import Mos6502.Text.Upper

/-!
# The instruction table

One row per documented opcode. A byte without a row is no instruction, so a
lookup answers with an `Option` and never with a stand-in. Aliases are further
spellings that only source text may use; each names a row of the table.
-/
namespace Mos6502

/-- One documented instruction. -/
structure Opcode where
  code : UInt8
  operation : Operation
  mode : Mode
  /-- Base cost, without the extra cycles of page crossings. -/
  cycles : Nat
deriving DecidableEq

/-- A further spelling of an instruction. -/
structure Alias where
  mnemonic : String
  mode : Mode
  code : UInt8

namespace Opcode

def mnemonic (o : Opcode) : String :=
  o.operation.mnemonic

/-- Bytes of the whole instruction. -/
def size (o : Opcode) : Nat :=
  o.mode.size

/-- The documented instructions, by code. -/
def documented : List Opcode := [
  ⟨0x00, .brk, .implied, 7⟩,
  ⟨0x01, .ora, .indirectX, 6⟩,
  ⟨0x05, .ora, .zeroPage, 3⟩,
  ⟨0x06, .asl, .zeroPage, 5⟩,
  ⟨0x08, .php, .implied, 3⟩,
  ⟨0x09, .ora, .immediate, 2⟩,
  ⟨0x0A, .asl, .accumulator, 2⟩,
  ⟨0x0D, .ora, .absolute, 4⟩,
  ⟨0x0E, .asl, .absolute, 6⟩,
  ⟨0x10, .bpl, .relative, 2⟩,
  ⟨0x11, .ora, .indirectY, 5⟩,
  ⟨0x15, .ora, .zeroPageX, 4⟩,
  ⟨0x16, .asl, .zeroPageX, 6⟩,
  ⟨0x18, .clc, .implied, 2⟩,
  ⟨0x19, .ora, .absoluteY, 4⟩,
  ⟨0x1D, .ora, .absoluteX, 4⟩,
  ⟨0x1E, .asl, .absoluteX, 7⟩,
  ⟨0x20, .jsr, .absolute, 6⟩,
  ⟨0x21, .and, .indirectX, 6⟩,
  ⟨0x24, .bit, .zeroPage, 3⟩,
  ⟨0x25, .and, .zeroPage, 3⟩,
  ⟨0x26, .rol, .zeroPage, 5⟩,
  ⟨0x28, .plp, .implied, 4⟩,
  ⟨0x29, .and, .immediate, 2⟩,
  ⟨0x2A, .rol, .accumulator, 2⟩,
  ⟨0x2C, .bit, .absolute, 4⟩,
  ⟨0x2D, .and, .absolute, 4⟩,
  ⟨0x2E, .rol, .absolute, 6⟩,
  ⟨0x30, .bmi, .relative, 2⟩,
  ⟨0x31, .and, .indirectY, 5⟩,
  ⟨0x35, .and, .zeroPageX, 4⟩,
  ⟨0x36, .rol, .zeroPageX, 6⟩,
  ⟨0x38, .sec, .implied, 2⟩,
  ⟨0x39, .and, .absoluteY, 4⟩,
  ⟨0x3D, .and, .absoluteX, 4⟩,
  ⟨0x3E, .rol, .absoluteX, 7⟩,
  ⟨0x40, .rti, .implied, 6⟩,
  ⟨0x41, .eor, .indirectX, 6⟩,
  ⟨0x45, .eor, .zeroPage, 3⟩,
  ⟨0x46, .lsr, .zeroPage, 5⟩,
  ⟨0x48, .pha, .implied, 3⟩,
  ⟨0x49, .eor, .immediate, 2⟩,
  ⟨0x4A, .lsr, .accumulator, 2⟩,
  ⟨0x4C, .jmp, .absolute, 3⟩,
  ⟨0x4D, .eor, .absolute, 4⟩,
  ⟨0x4E, .lsr, .absolute, 6⟩,
  ⟨0x50, .bvc, .relative, 2⟩,
  ⟨0x51, .eor, .indirectY, 5⟩,
  ⟨0x55, .eor, .zeroPageX, 4⟩,
  ⟨0x56, .lsr, .zeroPageX, 6⟩,
  ⟨0x58, .cli, .implied, 2⟩,
  ⟨0x59, .eor, .absoluteY, 4⟩,
  ⟨0x5D, .eor, .absoluteX, 4⟩,
  ⟨0x5E, .lsr, .absoluteX, 7⟩,
  ⟨0x60, .rts, .implied, 6⟩,
  ⟨0x61, .adc, .indirectX, 6⟩,
  ⟨0x65, .adc, .zeroPage, 3⟩,
  ⟨0x66, .ror, .zeroPage, 5⟩,
  ⟨0x68, .pla, .implied, 4⟩,
  ⟨0x69, .adc, .immediate, 2⟩,
  ⟨0x6A, .ror, .accumulator, 2⟩,
  ⟨0x6C, .jmp, .indirect, 5⟩,
  ⟨0x6D, .adc, .absolute, 4⟩,
  ⟨0x6E, .ror, .absolute, 6⟩,
  ⟨0x70, .bvs, .relative, 2⟩,
  ⟨0x71, .adc, .indirectY, 5⟩,
  ⟨0x75, .adc, .zeroPageX, 4⟩,
  ⟨0x76, .ror, .zeroPageX, 6⟩,
  ⟨0x78, .sei, .implied, 2⟩,
  ⟨0x79, .adc, .absoluteY, 4⟩,
  ⟨0x7D, .adc, .absoluteX, 4⟩,
  ⟨0x7E, .ror, .absoluteX, 7⟩,
  ⟨0x81, .sta, .indirectX, 6⟩,
  ⟨0x84, .sty, .zeroPage, 3⟩,
  ⟨0x85, .sta, .zeroPage, 3⟩,
  ⟨0x86, .stx, .zeroPage, 3⟩,
  ⟨0x88, .dey, .implied, 2⟩,
  ⟨0x8A, .txa, .implied, 2⟩,
  ⟨0x8C, .sty, .absolute, 4⟩,
  ⟨0x8D, .sta, .absolute, 4⟩,
  ⟨0x8E, .stx, .absolute, 4⟩,
  ⟨0x90, .bcc, .relative, 2⟩,
  ⟨0x91, .sta, .indirectY, 6⟩,
  ⟨0x94, .sty, .zeroPageX, 4⟩,
  ⟨0x95, .sta, .zeroPageX, 4⟩,
  ⟨0x96, .stx, .zeroPageY, 4⟩,
  ⟨0x98, .tya, .implied, 2⟩,
  ⟨0x99, .sta, .absoluteY, 5⟩,
  ⟨0x9A, .txs, .implied, 2⟩,
  ⟨0x9D, .sta, .absoluteX, 5⟩,
  ⟨0xA0, .ldy, .immediate, 2⟩,
  ⟨0xA1, .lda, .indirectX, 6⟩,
  ⟨0xA2, .ldx, .immediate, 2⟩,
  ⟨0xA4, .ldy, .zeroPage, 3⟩,
  ⟨0xA5, .lda, .zeroPage, 3⟩,
  ⟨0xA6, .ldx, .zeroPage, 3⟩,
  ⟨0xA8, .tay, .implied, 2⟩,
  ⟨0xA9, .lda, .immediate, 2⟩,
  ⟨0xAA, .tax, .implied, 2⟩,
  ⟨0xAC, .ldy, .absolute, 4⟩,
  ⟨0xAD, .lda, .absolute, 4⟩,
  ⟨0xAE, .ldx, .absolute, 4⟩,
  ⟨0xB0, .bcs, .relative, 2⟩,
  ⟨0xB1, .lda, .indirectY, 5⟩,
  ⟨0xB4, .ldy, .zeroPageX, 4⟩,
  ⟨0xB5, .lda, .zeroPageX, 4⟩,
  ⟨0xB6, .ldx, .zeroPageY, 4⟩,
  ⟨0xB8, .clv, .implied, 2⟩,
  ⟨0xB9, .lda, .absoluteY, 4⟩,
  ⟨0xBA, .tsx, .implied, 2⟩,
  ⟨0xBC, .ldy, .absoluteX, 4⟩,
  ⟨0xBD, .lda, .absoluteX, 4⟩,
  ⟨0xBE, .ldx, .absoluteY, 4⟩,
  ⟨0xC0, .cpy, .immediate, 2⟩,
  ⟨0xC1, .cmp, .indirectX, 6⟩,
  ⟨0xC4, .cpy, .zeroPage, 3⟩,
  ⟨0xC5, .cmp, .zeroPage, 3⟩,
  ⟨0xC6, .dec, .zeroPage, 5⟩,
  ⟨0xC8, .iny, .implied, 2⟩,
  ⟨0xC9, .cmp, .immediate, 2⟩,
  ⟨0xCA, .dex, .implied, 2⟩,
  ⟨0xCC, .cpy, .absolute, 4⟩,
  ⟨0xCD, .cmp, .absolute, 4⟩,
  ⟨0xCE, .dec, .absolute, 6⟩,
  ⟨0xD0, .bne, .relative, 2⟩,
  ⟨0xD1, .cmp, .indirectY, 5⟩,
  ⟨0xD5, .cmp, .zeroPageX, 4⟩,
  ⟨0xD6, .dec, .zeroPageX, 6⟩,
  ⟨0xD8, .cld, .implied, 2⟩,
  ⟨0xD9, .cmp, .absoluteY, 4⟩,
  ⟨0xDD, .cmp, .absoluteX, 4⟩,
  ⟨0xDE, .dec, .absoluteX, 7⟩,
  ⟨0xE0, .cpx, .immediate, 2⟩,
  ⟨0xE1, .sbc, .indirectX, 6⟩,
  ⟨0xE4, .cpx, .zeroPage, 3⟩,
  ⟨0xE5, .sbc, .zeroPage, 3⟩,
  ⟨0xE6, .inc, .zeroPage, 5⟩,
  ⟨0xE8, .inx, .implied, 2⟩,
  ⟨0xE9, .sbc, .immediate, 2⟩,
  ⟨0xEA, .nop, .implied, 2⟩,
  ⟨0xEC, .cpx, .absolute, 4⟩,
  ⟨0xED, .sbc, .absolute, 4⟩,
  ⟨0xEE, .inc, .absolute, 6⟩,
  ⟨0xF0, .beq, .relative, 2⟩,
  ⟨0xF1, .sbc, .indirectY, 5⟩,
  ⟨0xF5, .sbc, .zeroPageX, 4⟩,
  ⟨0xF6, .inc, .zeroPageX, 6⟩,
  ⟨0xF8, .sed, .implied, 2⟩,
  ⟨0xF9, .sbc, .absoluteY, 4⟩,
  ⟨0xFD, .sbc, .absoluteX, 4⟩,
  ⟨0xFE, .inc, .absoluteX, 7⟩]

/-- The further spellings. -/
def aliases : List Alias := [
  ⟨"ASL", .implied, 0x0A⟩,
  ⟨"ROL", .implied, 0x2A⟩,
  ⟨"LSR", .implied, 0x4A⟩,
  ⟨"ROR", .implied, 0x6A⟩,
  ⟨"BLT", .relative, 0x90⟩,
  ⟨"BGE", .relative, 0xB0⟩]

/-- The table by code. -/
def byCode : Vector (Option Opcode) 256 :=
  Vector.ofFn fun i => documented.find? (·.code.toNat == i.val)

/-- The instruction that a byte stands for. -/
def ofCode? (b : UInt8) : Option Opcode :=
  byCode.get ⟨b.toNat, b.toNat_lt⟩

/-- The instruction for a name in either case and a mode. The table goes before the aliases. -/
def find? (name : String) (mode : Mode) : Option Opcode :=
  let name := Text.upper name
  (documented.find? fun o => o.mode = mode ∧ o.mnemonic = name) <|>
    ((aliases.find? fun a => a.mode = mode ∧ a.mnemonic = name).bind fun a => ofCode? a.code)

/-- The name, in either case, belongs to an instruction or an alias. -/
def isMnemonic (name : String) : Bool :=
  let name := Text.upper name
  documented.any (·.mnemonic = name) || aliases.any (·.mnemonic = name)

/-- The name takes a branch target. -/
def isBranch (name : String) : Bool :=
  (find? name .relative).isSome

end Opcode

end Mos6502
