import Mos6502.Isa.Operand
import Mos6502.Source.Expr

/-!
# Plans

What the first pass settles about a line and the second pass relies on: the
instruction chosen for it, or the size and the lines of its expansion.
-/
namespace Mos6502.Assembly

/-- How far macros may nest, and how much to report about progress. -/
structure Settings where
  debugLevel : UInt8 := 0
  maxDepth : Nat := 8
deriving DecidableEq

/-- An instruction chosen for a line. -/
structure Choice where
  opcode : Opcode
  /-- The operand had no value when the instruction was chosen. -/
  forward : Bool
  mnemonic : String
  shape : Shape

/-- The choice was made for a line that looks like this one. -/
def Choice.fits (c : Choice) (mnemonic : String) (shape : Shape) : Bool :=
  c.shape = shape && Text.sameLetters c.mnemonic mnemonic

/-- The choice by the look of a line alone, as if the operand had no value. -/
def Choice.ofShape (mnemonic : String) (shape : Shape) (operand : Option Expr) :
    Except SelectError Choice :=
  let value := (operand.filter Expr.isByteSelect).map fun _ => 0
  (Opcode.select mnemonic shape value).map fun o => ⟨o, false, mnemonic, shape⟩

inductive Plan
  /-- Nothing to keep. -/
  | nothing
  /-- An instruction that does not exist. -/
  | noInstruction
  | instruction (choice : Choice)
  /-- How far an expansion moves the cursor, and the plans of its lines. -/
  | expansion (size : Int) (lines : List Plan)

namespace Plan

/-- The plan of a line of an expansion. -/
def line (p : Plan) (i : Nat) : Plan :=
  match p with
  | expansion _ lines => lines[i]?.getD nothing
  | _ => nothing

end Plan

/-- How far a cursor went from where it began. An origin in an expansion may take it back. -/
def distance (begin cursor : Nat) : Int :=
  cursor - begin

/-- A distance as a number of bytes. It has 32 bits, so a way back appears as a long way ahead. For cursors below
`2 ^ 31` two distances are equal if their numbers of bytes are. -/
def byteCount (distance : Int) : Nat :=
  (distance % 4294967296).toNat

/-- The address a cursor stands at, unless it is past the top of memory. -/
def cursorAddress? (cursor : Nat) : Option UInt16 :=
  if cursor < 65536 then some (UInt16.ofNat cursor) else none

/-- The value as an address. -/
def valueAddress? (value : Int) : Option UInt16 :=
  if 0 ≤ value ∧ value ≤ 0xFFFF then some (UInt16.ofInt value) else none

end Mos6502.Assembly
