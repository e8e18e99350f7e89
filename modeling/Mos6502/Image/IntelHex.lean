import Mos6502.Image.Basic
import Mos6502.Text.Rows

/-!
# Intel HEX

A text of records. A data record holds a count, an address, a type, up to
sixteen bytes and a checksum that makes all its bytes add up to zero. The last
record has no data and ends the file.
-/
namespace Mos6502

/-- Up to sixteen bytes at an address. -/
structure HexRecord where
  address : UInt16
  bytes : List UInt8
deriving DecidableEq

namespace HexRecord

/-- Count, address and type. -/
def header (r : HexRecord) : List UInt8 :=
  [UInt8.ofNat r.bytes.length, (r.address >>> 8).toUInt8, r.address.toUInt8, 0]

/-- The byte that makes the sum of the record zero. -/
def checksum (r : HexRecord) : UInt8 :=
  0 - (r.header ++ r.bytes).foldl (· + ·) 0

/-- The record as a line. -/
def render (r : HexRecord) : String :=
  s!":{Hex.bytes (r.header ++ r.bytes ++ [r.checksum])}\n"

/-- The record that ends a file. -/
def last : String :=
  ":00000001FF\n"

/-- The records of a run. -/
def ofRun (r : Image.Run) : List HexRecord :=
  (Rows.split 16 r.bytes).mapIdx fun i row => ⟨r.start + UInt16.ofNat (16 * i), row⟩

end HexRecord

namespace Image

/-- The data records of an image. -/
def records (i : Image) : List HexRecord :=
  i.runs.flatMap HexRecord.ofRun

/-- The image as an Intel HEX text. -/
def toIntelHex (i : Image) : String :=
  String.join (i.records.map HexRecord.render) ++ HexRecord.last

end Image

end Mos6502
