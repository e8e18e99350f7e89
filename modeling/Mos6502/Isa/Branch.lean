/-!
# Relative branches

A branch stores the distance from the address after it, two bytes on, to its
target. Addresses wrap at the top of memory, so the distance is taken modulo
2^16 as a signed number, and it has to fit in a signed byte.
-/
namespace Mos6502.Branch

/-- The target is too far away. -/
structure OutOfReach where
  offset : Int16
deriving DecidableEq

def OutOfReach.message (e : OutOfReach) : String :=
  s!"branch target out of range (offset {e.offset.toInt}, must be -128..=127)"

/-- The distance from the address after the branch at `address`. -/
def distance (address target : UInt16) : Int16 :=
  (target - (address + 2)).toInt16

/-- The displacement a branch at `address` stores to reach `target`. -/
def displacement (address target : UInt16) : Except OutOfReach Int8 :=
  let offset := distance address target
  if -128 ≤ offset.toInt ∧ offset.toInt ≤ 127 then .ok offset.toInt8 else .error ⟨offset⟩

/-- Where a taken branch at `address` goes. -/
def target (address : UInt16) (offset : Int8) : UInt16 :=
  address + 2 + offset.toInt16.toUInt16

end Mos6502.Branch
