/-!
# Registers and flags

The processor's state outside memory. The status byte packs the flags; its bit
five is always set and carries no flag.
-/
namespace Mos6502

structure Flags where
  negative : Bool := false
  overflow : Bool := false
  brk : Bool := false
  decimal : Bool := false
  interrupt : Bool := false
  zero : Bool := false
  carry : Bool := false
deriving DecidableEq

namespace Flags

/-- One bit of the status byte. -/
def bit (set : Bool) (mask : UInt8) : UInt8 :=
  if set then mask else 0

/-- The status byte. -/
def pack (f : Flags) : UInt8 :=
  bit f.negative 0x80 ||| bit f.overflow 0x40 ||| 0x20 ||| bit f.brk 0x10 ||| bit f.decimal 0x08 |||
    bit f.interrupt 0x04 ||| bit f.zero 0x02 ||| bit f.carry 0x01

/-- The flags of a status byte. -/
def unpack (b : UInt8) : Flags where
  negative := b &&& 0x80 ≠ 0
  overflow := b &&& 0x40 ≠ 0
  brk := b &&& 0x10 ≠ 0
  decimal := b &&& 0x08 ≠ 0
  interrupt := b &&& 0x04 ≠ 0
  zero := b &&& 0x02 ≠ 0
  carry := b &&& 0x01 ≠ 0

/-- Zero and negative as a result sets them. -/
def withResult (f : Flags) (b : UInt8) : Flags :=
  { f with zero := b = 0, negative := b &&& 0x80 ≠ 0 }

end Flags

structure Registers where
  a : UInt8 := 0
  x : UInt8 := 0
  y : UInt8 := 0
  /-- The low byte of the next free stack cell. -/
  sp : UInt8 := 0xFD
  pc : UInt16 := 0
  flags : Flags := { interrupt := true }
deriving DecidableEq

namespace Registers

/-- The status byte. -/
def status (r : Registers) : UInt8 :=
  r.flags.pack

/-- Zero and negative as a result sets them. -/
def withResult (r : Registers) (b : UInt8) : Registers :=
  { r with flags := r.flags.withResult b }

end Registers

end Mos6502
