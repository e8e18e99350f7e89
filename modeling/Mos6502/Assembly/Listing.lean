import Mos6502.Text.Column
import Mos6502.Text.Hex
import Mos6502.Text.Rows

/-!
# Listings

For each source line the address it starts at and the bytes it gave. A listing
is printed for readers, and it also leads from an address back to its line.
-/
namespace Mos6502

structure ListingLine where
  number : Nat
  /-- Where the line starts, unless that is past the top of memory. -/
  address : Option UInt16
  bytes : List UInt8
  source : String
deriving DecidableEq

/-- The lines in source order. -/
structure Listing where
  lines : List ListingLine
deriving DecidableEq

namespace ListingLine

/-- The line gave the byte at the address. -/
def covers (l : ListingLine) (address : UInt16) : Bool :=
  match l.address with
  | some start => start ≤ address && address.toNat < start.toNat + l.bytes.length
  | none => false

/-- The address where the line starts in print. -/
def addressText (l : ListingLine) : String :=
  (l.address.map Hex.word).getD "    "

/-- The first row: number, address, up to three bytes and the source. -/
def firstRow (l : ListingLine) : String :=
  let number := Column.right 5 (toString l.number)
  let bytes := Column.left 8 (Hex.spaced (l.bytes.take 3))
  s!"{number}  {l.addressText}  {bytes}  {l.source}\n"

/-- The rows for the bytes after the third, each with its address. -/
def moreRows (l : ListingLine) : List String :=
  (Rows.split 3 (l.bytes.drop 3)).mapIdx fun i row =>
    s!"       {Hex.word (l.address.getD 0 + UInt16.ofNat (3 * (i + 1)))}  {Hex.spaced row}\n"

/-- The line in print. -/
def render (l : ListingLine) : String :=
  l.firstRow ++ String.join l.moreRows

end ListingLine

namespace Listing

/-- The line that gave the byte at an address. -/
def lineAt? (l : Listing) (address : UInt16) : Option ListingLine :=
  l.lines.find? (·.covers address)

/-- The addresses of a line's bytes, from the first to the one after the last. -/
def rangeOf? (l : Listing) (number : Nat) : Option (UInt16 × Nat) := do
  let line ← l.lines.find? fun line => line.number = number ∧ line.bytes ≠ []
  let start ← line.address
  some (start, start.toNat + line.bytes.length)

def render (l : Listing) : String :=
  String.join (l.lines.map ListingLine.render)

end Listing

end Mos6502
