/-!
# Numerals

Reading whole numbers in a radix: an optional sign, then digits of the radix
and nothing else. A minus sign is read only where the caller asks for one.
-/
namespace Mos6502.Numeral

/-- The value of a digit, either case, for radices up to sixteen. -/
def digit? (radix : Nat) (c : Char) : Option Nat :=
  let value :=
    if c.isDigit then some (c.toNat - 48)
    else if 'a' ≤ c ∧ c ≤ 'f' then some (c.toNat - 87)
    else if 'A' ≤ c ∧ c ≤ 'F' then some (c.toNat - 55)
    else none
  value.filter (· < radix)

/-- The character is a digit of the radix. -/
def isDigit (radix : Nat) (c : Char) : Bool :=
  (digit? radix c).isSome

/-- The value of a row of digits, most significant first. -/
def value (radix : Nat) (ds : List Char) : Nat :=
  ds.foldl (fun n c => n * radix + (digit? radix c).getD 0) 0

/-- Digits and nothing else, at least one. -/
def digits? (radix : Nat) (cs : List Char) : Option Nat :=
  if cs.isEmpty || !cs.all (isDigit radix) then none else some (value radix cs)

/-- A number from zero to `max`, with an optional plus sign. -/
def natural? (radix max : Nat) (cs : List Char) : Option Nat :=
  let digits := match cs with
    | '+' :: ds => ds
    | ds => ds
  (digits? radix digits).filter (· ≤ max)

/-- A number that fits in `bits` bits of two's complement, with an optional sign. -/
def signed? (radix bits : Nat) (cs : List Char) : Option Int :=
  let value := match cs with
    | '-' :: ds => (digits? radix ds).map fun n => -(n : Int)
    | '+' :: ds => (digits? radix ds).map fun n => (n : Int)
    | ds => (digits? radix ds).map fun n => (n : Int)
  let bound : Int := (1 <<< (bits - 1) : Nat)
  value.filter fun n => -bound ≤ n ∧ n < bound

/-- A sixteen-bit address: `$` or `0x` before hexadecimal digits, otherwise decimal. -/
def address? (cs : List Char) : Option UInt16 :=
  let value := match cs with
    | '$' :: ds => natural? 16 0xFFFF ds
    | '0' :: 'x' :: ds => natural? 16 0xFFFF ds
    | '0' :: 'X' :: ds => natural? 16 0xFFFF ds
    | ds => natural? 10 0xFFFF ds
  value.map UInt16.ofNat

end Mos6502.Numeral
