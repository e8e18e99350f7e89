import Mos6502.Disassembly.Format

/-!
# Regions of an image

The instructions between two addresses, found by stepping over each instruction
to the byte after it. Holes are stepped over one by one. The region can be
written as a source that gives the same cells again.
-/
namespace Mos6502

/-- An image and how to write its instructions. -/
structure Disassembler where
  image : Image
  options : FormatOptions := {}

namespace Disassembler

/-- The instructions from `next` up to `stop`, after those already found. -/
def walk (image : Image) (stop : Nat) (found : Array Instruction) (next : Nat) : Array Instruction :=
  if next < stop then
    match Instruction.decodeAt? image (UInt16.ofNat next) stop with
    | some i => walk image stop (found.push i) (next + i.size)
    | none => walk image stop found (next + 1)
  else found
termination_by stop - next
decreasing_by
  · have : 0 < i.size := by simp [Instruction.size, Instruction.bytes]
    omega
  · omega

/-- The address after a region of the given length. -/
def regionEnd (start : UInt16) (length : UInt32) : Nat :=
  min (start.toNat + length.toNat) 65536

/-- The instructions of a region. -/
def region (d : Disassembler) (start : UInt16) (length : UInt32) : List Instruction :=
  (walk d.image (regionEnd start length) #[] start.toNat).toList

/-- The text and the size of the instruction at an address, if no hole is there. -/
def one? (d : Disassembler) (address : UInt16) : Option (String × Nat) :=
  (Instruction.decodeAt? d.image address 65536).map fun i => (i.render d.options, i.size)

/-- An instruction as a line, with address and bytes before it if asked for. -/
def lineText (d : Disassembler) (showBytes : Bool) (i : Instruction) : String :=
  let text := i.render d.options
  if showBytes then s!"{Hex.word i.address}  {Column.left 8 (Hex.spaced i.bytes)}  {text}" else text

/-- The symbols that stand for operands of the instructions, by name. -/
def usedSymbols (d : Disassembler) (is : List Instruction) : List Symbol :=
  match d.options.symbols with
  | none => []
  | some table =>
    let used := is.filterMap (·.symbol? table)
    table.symbols.filter fun s => used.contains s

/-- One instruction of a source; an origin goes before it unless it follows on `expected`. -/
def sourceLine (d : Disassembler) (expected : Option Nat) (i : Instruction) : String :=
  let origin := if expected = some i.address.toNat then "" else s!"ORG ${Hex.word i.address}\n"
  s!"{origin}    {i.render d.options}\n"

/-- The instructions of a source, with origins wherever there is a gap. -/
def sourceLines (d : Disassembler) (is : List Instruction) : List String :=
  let after := is.map fun i => some (i.address.toNat + i.size)
  (is.zip (none :: after)).map fun (i, expected) => d.sourceLine expected i

/-- A source for a region: equates for the symbols it uses, then its instructions. -/
def source (d : Disassembler) (start : UInt16) (length : UInt32) : String :=
  let is := d.region start length
  let equates := (d.usedSymbols is).map fun s => s!"{s.name} = ${Hex.word s.address}\n"
  let separator := if equates.isEmpty then "" else "\n"
  String.join equates ++ separator ++ String.join (d.sourceLines is)

end Disassembler

end Mos6502
