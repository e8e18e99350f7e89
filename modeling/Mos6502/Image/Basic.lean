import Mos6502.Text.Hex

/-!
# Images

The 65536 cells of memory, each a byte or a hole. A cell is written once: a
second write is an overlap, also with the same byte.
-/
namespace Mos6502

structure Image where
  cells : Vector (Option UInt8) 65536
deriving DecidableEq

/-- A write to a cell that has a byte. -/
structure Overlap where
  address : UInt16
  existing : UInt8
  new : UInt8
deriving DecidableEq

def Overlap.message (o : Overlap) : String :=
  s!"address ${Hex.word o.address} already assigned (existing ${Hex.byte o.existing}, new ${Hex.byte o.new})"

namespace Image

/-- Holes only. -/
def empty : Image :=
  ⟨Vector.replicate 65536 none⟩

/-- The byte at an address. -/
def get? (i : Image) (address : UInt16) : Option UInt8 :=
  i.cells.get ⟨address.toNat, address.toNat_lt⟩

/-- Puts a byte at an address, whatever was there. -/
def put (i : Image) (address : UInt16) (b : UInt8) : Image :=
  ⟨i.cells.set address.toNat (some b) address.toNat_lt⟩

@[simp] theorem get?_empty (a : UInt16) : empty.get? a = none :=
  Vector.getElem_replicate a.toNat_lt

theorem get?_put (i : Image) (a c : UInt16) (b : UInt8) :
    (i.put a b).get? c = if a = c then some b else i.get? c := by
  have h := @Vector.getElem_set _ _ i.cells a.toNat (some b) a.toNat_lt c.toNat c.toNat_lt
  simp only [UInt16.toNat_inj] at h
  exact h

@[ext] theorem ext {i j : Image} (h : ∀ a, i.get? a = j.get? a) : i = j := by
  obtain ⟨is⟩ := i
  obtain ⟨js⟩ := j
  congr 1
  apply Vector.ext
  intro n hn
  have := h (UInt16.ofNat n)
  simp only [get?, UInt16.toNat_ofNat_of_lt' hn] at this
  exact this

/-- Writes a hole. -/
def write (i : Image) (address : UInt16) (b : UInt8) : Except Overlap Image :=
  match i.get? address with
  | some old => .error ⟨address, old, b⟩
  | none => .ok (i.put address b)

/-- Bytes from an address up; those past the top of memory are dropped. -/
def ofBytes (base : UInt16) (bs : List UInt8) : Image :=
  let room := 65536 - base.toNat
  ((bs.take room).foldl (fun (i, n) b => (i.put (UInt16.ofNat n) b, n + 1)) (empty, base.toNat)).1

/-- The assigned cells, by address. -/
def cellList (i : Image) : List (UInt16 × UInt8) :=
  i.cells.toList.zipIdx.filterMap fun (cell, n) => cell.map fun b => (UInt16.ofNat n, b)

/-- The number of assigned cells. -/
def count (i : Image) : Nat :=
  i.cells.countP Option.isSome

def isEmpty (i : Image) : Bool :=
  i.cells.all Option.isNone

/-- The first and the last assigned address. -/
def range? (i : Image) : Option (UInt16 × UInt16) :=
  let cells := i.cellList
  match cells.head?, cells.getLast? with
  | some (first, _), some (last, _) => some (first, last)
  | _, _ => none

/-- The lowest assigned address. -/
def start? (i : Image) : Option UInt16 :=
  i.range?.map (·.1)

/-- The assigned range as bytes, holes filled. -/
def toBytes (i : Image) (fill : UInt8) : List UInt8 :=
  match i.range? with
  | none => []
  | some (first, last) =>
    ((i.cells.toList.take (last.toNat + 1)).drop first.toNat).map (·.getD fill)

/-- Range and number of assigned cells, in one line. -/
def summary (i : Image) : String :=
  let range := match i.range? with
    | some (first, last) => s!"Some({first.toNat}..={last.toNat})"
    | none => "None"
  s!"ObjectCode \x7b assigned_range: {range}, assigned_count: {i.count} \x7d"

/-! ## Runs -/

/-- Bytes at consecutive addresses. -/
structure Run where
  start : UInt16
  bytes : List UInt8
deriving DecidableEq

/-- Puts a cell before the runs of higher cells. -/
def prepend (cell : UInt16 × UInt8) : List Run → List Run
  | [] => [⟨cell.1, [cell.2]⟩]
  | r :: rs =>
    if cell.1.toNat + 1 = r.start.toNat then ⟨cell.1, cell.2 :: r.bytes⟩ :: rs
    else ⟨cell.1, [cell.2]⟩ :: r :: rs

/-- The longest runs of assigned cells, by address. -/
def runs (i : Image) : List Run :=
  i.cellList.foldr prepend []

end Image

end Mos6502
