import Mos6502.Isa.Opcode
import Mos6502.Machine.Arithmetic
import Mos6502.Machine.Memory

/-!
# What an instruction does

An operation reads registers, memory and its operand, and gives new registers
and the bytes to write. No operation reads a cell after it wrote it, so the writes
can be done last.
-/
namespace Mos6502

/-- A byte written to an address. -/
structure Write where
  address : UInt16
  value : UInt8
deriving DecidableEq

/-- The operand of an instruction in execution. -/
inductive Operand
  | none
  | accumulator
  | immediate (b : UInt8)
  /-- A place in memory; for a branch its target. -/
  | address (a : UInt16)
deriving DecidableEq

structure Effect where
  registers : Registers
  /-- The writes in order. -/
  writes : List Write := []

namespace Effect

/-! ## Operands -/

/-- A word in zero page; the byte after the last one is the first. -/
def zeroPageWord (m : Memory) (pointer : UInt8) : UInt16 :=
  (m.read pointer.toUInt16).toUInt16 ||| ((m.read (pointer + 1).toUInt16).toUInt16 <<< 8)

/-- A word whose second byte is fetched from the page of the first. -/
def pageWord (m : Memory) (pointer : UInt16) : UInt16 :=
  let next := (pointer &&& 0xFF00) ||| ((pointer + 1) &&& 0x00FF)
  (m.read pointer).toUInt16 ||| ((m.read next).toUInt16 <<< 8)

/-- The operand of the instruction at `r.pc`. -/
def operand (mode : Mode) (r : Registers) (m : Memory) : Operand :=
  let byte := m.read (r.pc + 1)
  let word := m.readWord (r.pc + 1)
  match mode with
  | .implied => .none
  | .accumulator => .accumulator
  | .immediate => .immediate byte
  | .zeroPage => .address byte.toUInt16
  | .zeroPageX => .address (byte + r.x).toUInt16
  | .zeroPageY => .address (byte + r.y).toUInt16
  | .absolute => .address word
  | .absoluteX => .address (word + r.x.toUInt16)
  | .absoluteY => .address (word + r.y.toUInt16)
  | .indirect => .address (pageWord m word)
  | .indirectX => .address (zeroPageWord m (byte + r.x))
  | .indirectY => .address (zeroPageWord m byte + r.y.toUInt16)
  | .relative => .address (r.pc + 2 + byte.toInt8.toInt16.toUInt16)

/-- The byte that an operand stands for. -/
def load (o : Operand) (r : Registers) (m : Memory) : UInt8 :=
  match o with
  | .none => 0
  | .accumulator => r.a
  | .immediate b => b
  | .address a => m.read a

/-- Puts a byte where an operand stands for. -/
def store (o : Operand) (r : Registers) (b : UInt8) : Effect :=
  match o with
  | .accumulator => { registers := { r with a := b } }
  | .address a => { registers := r, writes := [⟨a, b⟩] }
  | .none | .immediate _ => { registers := r }

/-! ## The stack -/

/-- The stack cell for a value of the stack pointer. -/
def stackCell (sp : UInt8) : UInt16 :=
  0x0100 ||| sp.toUInt16

/-- Pushes bytes in order. -/
def push (r : Registers) : List UInt8 → Effect
  | [] => { registers := r }
  | b :: bs =>
    let rest := push { r with sp := r.sp - 1 } bs
    { rest with writes := ⟨stackCell r.sp, b⟩ :: rest.writes }

/-- Pulls a byte. -/
def pull (r : Registers) (m : Memory) : UInt8 × Registers :=
  let sp := r.sp + 1
  (m.read (stackCell sp), { r with sp })

/-- Pulls a word, low byte first. -/
def pullWord (r : Registers) (m : Memory) : UInt16 × Registers :=
  let (low, r) := pull r m
  let (high, r) := pull r m
  (low.toUInt16 ||| (high.toUInt16 <<< 8), r)

/-- High byte and low byte. -/
def bigEndian (w : UInt16) : List UInt8 :=
  [(w >>> 8).toUInt8, w.toUInt8]

/-- The status byte as it is pushed, with bits four and five set. -/
def pushedStatus (r : Registers) : UInt8 :=
  r.status ||| 0x30

/-- The flags of a pulled status byte, without the break flag. -/
def pulledFlags (b : UInt8) : Flags :=
  Flags.unpack (b &&& 0xEF)

/-! ## Operations -/

/-- The registers after a jump to the operand. -/
def jump (o : Operand) (r : Registers) : Registers :=
  match o with
  | .address a => { r with pc := a }
  | _ => r

/-- A branch goes to its operand if the condition holds. -/
def branch (o : Operand) (r : Registers) (condition : Bool) : Effect :=
  { registers := if condition then jump o r else r }

/-- A byte loaded into a register. -/
def result (r : Registers) (b : UInt8) : Effect :=
  { registers := r.withResult b }

/-- A changed byte goes back to where it came from. -/
def modify (o : Operand) (r : Registers) (b : UInt8) : Effect :=
  let stored := store o r b
  { stored with registers := stored.registers.withResult b }

/-- A shifted byte goes back to where it came from, and the bit shifted out to the carry. -/
def shift (o : Operand) (r : Registers) (b : UInt8) (carry : Bool) : Effect :=
  let shifted := modify o r b
  { shifted with registers := { shifted.registers with flags := { shifted.registers.flags with carry } } }

/-- The effect of an operation; `r.pc` is the address after the instruction. -/
def ofOperation (op : Operation) (o : Operand) (r : Registers) (m : Memory) : Effect :=
  let b := load o r m
  let flags := r.flags
  match op with
  | .lda => result { r with a := b } b
  | .ldx => result { r with x := b } b
  | .ldy => result { r with y := b } b
  | .sta => store o r r.a
  | .stx => store o r r.x
  | .sty => store o r r.y
  | .adc => { registers := Arithmetic.add r b }
  | .sbc => { registers := Arithmetic.subtract r b }
  | .and => result { r with a := r.a &&& b } (r.a &&& b)
  | .ora => result { r with a := r.a ||| b } (r.a ||| b)
  | .eor => result { r with a := r.a ^^^ b } (r.a ^^^ b)
  | .cmp => { registers := Arithmetic.compare r r.a b }
  | .cpx => { registers := Arithmetic.compare r r.x b }
  | .cpy => { registers := Arithmetic.compare r r.y b }
  | .bit =>
    { registers := { r with flags := { flags with
        zero := r.a &&& b = 0, negative := b &&& 0x80 ≠ 0, overflow := b &&& 0x40 ≠ 0 } } }
  | .asl => shift o r (b <<< 1) (b &&& 0x80 ≠ 0)
  | .lsr => shift o r (b >>> 1) (b &&& 0x01 ≠ 0)
  | .rol => shift o r ((b <<< 1) ||| Flags.bit flags.carry 0x01) (b &&& 0x80 ≠ 0)
  | .ror => shift o r ((b >>> 1) ||| Flags.bit flags.carry 0x80) (b &&& 0x01 ≠ 0)
  | .inc => modify o r (b + 1)
  | .dec => modify o r (b - 1)
  | .inx => result { r with x := r.x + 1 } (r.x + 1)
  | .iny => result { r with y := r.y + 1 } (r.y + 1)
  | .dex => result { r with x := r.x - 1 } (r.x - 1)
  | .dey => result { r with y := r.y - 1 } (r.y - 1)
  | .bcc => branch o r (!flags.carry)
  | .bcs => branch o r flags.carry
  | .beq => branch o r flags.zero
  | .bne => branch o r (!flags.zero)
  | .bmi => branch o r flags.negative
  | .bpl => branch o r (!flags.negative)
  | .bvc => branch o r (!flags.overflow)
  | .bvs => branch o r flags.overflow
  | .brk =>
    let pushed := push r (bigEndian (r.pc + 1) ++ [pushedStatus r])
    { pushed with registers := { pushed.registers with
        pc := m.readWord 0xFFFE, flags := { flags with brk := true, interrupt := true } } }
  | .jmp => { registers := jump o r }
  | .jsr =>
    let pushed := push r (bigEndian (r.pc - 1))
    { pushed with registers := jump o pushed.registers }
  | .rts =>
    let (address, r) := pullWord r m
    { registers := { r with pc := address + 1 } }
  | .rti =>
    let (status, r) := pull r m
    let (address, r) := pullWord r m
    { registers := { r with pc := address, flags := pulledFlags status } }
  | .nop => { registers := r }
  | .pha => push r [r.a]
  | .php => push r [pushedStatus r]
  | .pla =>
    let (b, r) := pull r m
    result { r with a := b } b
  | .plp =>
    let (status, r) := pull r m
    { registers := { r with flags := pulledFlags status } }
  | .clc => { registers := { r with flags := { flags with carry := false } } }
  | .sec => { registers := { r with flags := { flags with carry := true } } }
  | .cli => { registers := { r with flags := { flags with interrupt := false } } }
  | .sei => { registers := { r with flags := { flags with interrupt := true } } }
  | .clv => { registers := { r with flags := { flags with overflow := false } } }
  | .cld => { registers := { r with flags := { flags with decimal := false } } }
  | .sed => { registers := { r with flags := { flags with decimal := true } } }
  | .tax => result { r with x := r.a } r.a
  | .tay => result { r with y := r.a } r.a
  | .txa => result { r with a := r.x } r.x
  | .tya => result { r with a := r.y } r.y
  | .tsx => result { r with x := r.sp } r.sp
  | .txs => { registers := { r with sp := r.x } }

end Effect

end Mos6502
