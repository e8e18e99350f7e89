import Mos6502.Machine.Registers

/-!
# Arithmetic

Addition and subtraction with carry, binary and decimal. In decimal mode the
accumulator holds two decimal digits. The flags follow the binary result there
too, except the carry of an addition, which follows the decimal one.
-/
namespace Mos6502.Arithmetic

/-- One for a set carry. -/
def carryIn (f : Flags) : Nat :=
  if f.carry then 1 else 0

/-- Both operands have a sign that the result does not have. -/
def signedOverflow (a b result : UInt8) : Bool :=
  (a ^^^ result) &&& (b ^^^ result) &&& 0x80 ≠ 0

/-- A digit sum with the correction that carries into the next digit from ten on. -/
def adjustUp (n : Nat) : Nat :=
  if n > 9 then n + 6 else n

/-- Accumulator and carry after a decimal addition. -/
def decimalSum (a b : UInt8) (carry : Nat) : UInt8 × Bool :=
  let low := adjustUp (a.toNat % 16 + b.toNat % 16 + carry)
  let high := adjustUp (a.toNat / 16 + b.toNat / 16 + if low > 15 then 1 else 0)
  (UInt8.ofNat (high * 16 + low % 16), high > 15)

/-- The accumulator after a decimal subtraction. -/
def decimalDifference (a b : UInt8) (borrow : Int) : UInt8 :=
  let low : Int := (a.toNat % 16 : Nat) - (b.toNat % 16 : Nat) - borrow
  let high : Int := (a.toNat / 16 : Nat) - (b.toNat / 16 : Nat)
  let (low, high) := if low < 0 then (low - 6, high - 1) else (low, high)
  let high := if high < 0 then high - 6 else high
  UInt8.ofInt (high * 16 + low % 16)

/-- Adds a byte and the carry to the accumulator. -/
def add (r : Registers) (b : UInt8) : Registers :=
  let sum := r.a.toNat + b.toNat + carryIn r.flags
  let binary := UInt8.ofNat sum
  let (a, carry) :=
    if r.flags.decimal then decimalSum r.a b (carryIn r.flags) else (binary, sum > 0xFF)
  let flags := { r.flags.withResult binary with overflow := signedOverflow r.a b binary, carry }
  { r with a, flags }

/-- Subtracts a byte and the complement of the carry from the accumulator. -/
def subtract (r : Registers) (b : UInt8) : Registers :=
  let sum := r.a.toNat + (~~~b).toNat + carryIn r.flags
  let binary := UInt8.ofNat sum
  let a :=
    if r.flags.decimal then decimalDifference r.a b (if r.flags.carry then 0 else 1) else binary
  let flags :=
    { r.flags.withResult binary with overflow := signedOverflow r.a (~~~b) binary, carry := sum > 0xFF }
  { r with a, flags }

/-- Compares a register with a byte; only flags change. -/
def compare (r : Registers) (register b : UInt8) : Registers :=
  { r with flags := { r.flags.withResult (register - b) with carry := b ≤ register } }

end Mos6502.Arithmetic
