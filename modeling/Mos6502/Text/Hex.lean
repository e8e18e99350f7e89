/-!
# Hexadecimal text

Bytes and words are written with upper-case digits and a fixed width; a number
of no fixed width takes as many digits as it needs.
-/
namespace Mos6502.Hex

/-- The upper-case digit for a value below sixteen. -/
def digit (n : Nat) : Char :=
  if n < 10 then Char.ofNat (48 + n) else Char.ofNat (55 + n)

/-- Digits of `n`, no leading zeros, at least one digit. -/
def digits (n : Nat) : List Char :=
  if n < 16 then [digit n] else digits (n / 16) ++ [digit (n % 16)]

/-- `n` with no leading zeros. -/
def number (n : Nat) : String :=
  String.ofList (digits n)

/-- Two digits. -/
def byte (b : UInt8) : String :=
  String.ofList [digit (b.toNat / 16), digit (b.toNat % 16)]

/-- Four digits. -/
def word (w : UInt16) : String :=
  String.ofList [digit (w.toNat / 4096), digit (w.toNat / 256 % 16),
    digit (w.toNat / 16 % 16), digit (w.toNat % 16)]

/-- The bytes one after another, nothing between them. -/
def bytes (bs : List UInt8) : String :=
  String.join (bs.map byte)

/-- The bytes with one space between neighbours. -/
def spaced (bs : List UInt8) : String :=
  " ".intercalate (bs.map byte)

end Mos6502.Hex
