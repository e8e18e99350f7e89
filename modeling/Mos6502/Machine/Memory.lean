import Mos6502.Image.Basic

/-!
# Memory

The 65536 bytes that a program runs in.
-/
namespace Mos6502

structure Memory where
  bytes : Vector UInt8 65536
deriving DecidableEq

namespace Memory

/-- Zeros everywhere. -/
def zero : Memory :=
  ⟨Vector.replicate 65536 0⟩

def read (m : Memory) (address : UInt16) : UInt8 :=
  m.bytes.get ⟨address.toNat, address.toNat_lt⟩

def write (m : Memory) (address : UInt16) (b : UInt8) : Memory :=
  ⟨m.bytes.set address.toNat b address.toNat_lt⟩

@[simp] theorem read_zero (a : UInt16) : zero.read a = 0 :=
  Vector.getElem_replicate a.toNat_lt

theorem read_write (m : Memory) (a c : UInt16) (b : UInt8) :
    (m.write a b).read c = if a = c then b else m.read c := by
  have h := @Vector.getElem_set _ _ m.bytes a.toNat b a.toNat_lt c.toNat c.toNat_lt
  simp only [UInt16.toNat_inj] at h
  exact h

@[ext] theorem ext {m n : Memory} (h : ∀ a, m.read a = n.read a) : m = n := by
  obtain ⟨ms⟩ := m
  obtain ⟨ns⟩ := n
  congr 1
  apply Vector.ext
  intro k hk
  have := h (UInt16.ofNat k)
  simp only [read, UInt16.toNat_ofNat_of_lt' hk] at this
  exact this

/-- Low byte first. The byte after the top of memory is the one at zero. -/
def readWord (m : Memory) (address : UInt16) : UInt16 :=
  (m.read address).toUInt16 ||| ((m.read (address + 1)).toUInt16 <<< 8)

/-- Puts bytes from an address on, around the top of memory. -/
def load (m : Memory) (address : UInt16) : List UInt8 → Memory
  | [] => m
  | b :: bs => (m.write address b).load (address + 1) bs

/-- Puts the bytes of an image; holes leave the memory as it is. -/
def loadImage (m : Memory) (i : Image) : Memory :=
  i.cellList.foldl (fun m (address, b) => m.write address b) m

/-- Where execution starts after a reset. -/
def setResetVector (m : Memory) (address : UInt16) : Memory :=
  (m.write 0xFFFC address.toUInt8).write 0xFFFD (address >>> 8).toUInt8

/-- Bytes from an address on, at most up to the top of memory. -/
def slice (m : Memory) (start : UInt16) (length : Nat) : List UInt8 :=
  (m.bytes.toList.drop start.toNat).take length

end Memory

end Mos6502
