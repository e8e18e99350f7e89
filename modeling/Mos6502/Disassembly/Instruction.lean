import Mos6502.Image.Basic
import Mos6502.Isa.Branch
import Mos6502.Isa.Opcode

/-!
# Decoded instructions

Reading an instruction from bytes or from an image. A byte that does not start
a whole instruction stands for itself, as data.
-/
namespace Mos6502

structure Instruction where
  address : UInt16
  /-- The first byte. -/
  code : UInt8
  /-- The row of the table, or nothing for a data byte. -/
  opcode : Option Opcode
  operands : List UInt8
deriving DecidableEq

namespace Instruction

/-- A byte of data. -/
def data (address : UInt16) (b : UInt8) : Instruction :=
  ⟨address, b, none, []⟩

def isData (i : Instruction) : Bool :=
  i.opcode.isNone

def mnemonic (i : Instruction) : String :=
  (i.opcode.map (·.mnemonic)).getD "DB"

def mode (i : Instruction) : Mode :=
  (i.opcode.map (·.mode)).getD .implied

def cycles (i : Instruction) : Nat :=
  (i.opcode.map (·.cycles)).getD 0

/-- Every byte, the first one included. -/
def bytes (i : Instruction) : List UInt8 :=
  i.code :: i.operands

def size (i : Instruction) : Nat :=
  i.bytes.length

/-- The operand as a number, low byte first; zero if there is none. -/
def value (i : Instruction) : UInt16 :=
  match i.operands with
  | [low] => low.toUInt16
  | [low, high] => low.toUInt16 ||| (high.toUInt16 <<< 8)
  | _ => 0

/-- The address that the operand names, if its mode names one. For a branch it is the target. -/
def target? (i : Instruction) : Option UInt16 :=
  match i.opcode with
  | none => none
  | some o =>
    match o.mode with
    | .implied | .accumulator | .immediate => none
    | .relative => some (Branch.target i.address i.value.toUInt8.toInt8)
    | _ => some i.value

/-- The instruction at the start of the bytes, if all of it is there. -/
def decode? (bs : List UInt8) (address : UInt16) : Option Instruction :=
  match bs with
  | [] => none
  | code :: rest =>
    match Opcode.ofCode? code with
    | none => none
    | some o =>
      let operands := rest.take o.mode.operandBytes
      if operands.length = o.mode.operandBytes then some ⟨address, code, some o, operands⟩ else none

/-- The bytes of an image from an address on, if none is a hole. -/
def cells? (image : Image) (address : UInt16) (size : Nat) : Option (List UInt8) :=
  (List.range size).mapM fun k => image.get? (address + UInt16.ofNat k)

/-- The instruction at an address, if no hole is there. An instruction that a hole or `stop` cuts off
is a data byte. -/
def decodeAt? (image : Image) (address : UInt16) (stop : Nat) : Option Instruction :=
  match image.get? address with
  | none => none
  | some code =>
    let whole := do
      let o ← Opcode.ofCode? code
      if address.toNat + o.size ≤ min stop 65536 then
        let bs ← cells? image address o.size
        decode? bs address
      else none
    some (whole.getD (data address code))

end Instruction

namespace Disassembly

/-- The instructions of the bytes from an address on, after those already read. -/
def sliceFrom (done : Array Instruction) (address : UInt16) (bs : List UInt8) : Array Instruction :=
  match bs with
  | [] => done
  | b :: rest =>
    let i := (Instruction.decode? (b :: rest) address).getD (.data address b)
    sliceFrom (done.push i) (address + UInt16.ofNat i.size) (rest.drop i.operands.length)
termination_by bs.length
decreasing_by simp only [List.length_drop, List.length_cons]; omega

/-- The instructions of the bytes, the first of which stands at the address. -/
def slice (bs : List UInt8) (address : UInt16) : List Instruction :=
  (sliceFrom #[] address bs).toList

end Disassembly

end Mos6502
