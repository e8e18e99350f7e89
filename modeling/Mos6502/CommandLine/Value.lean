import Mos6502.Text.Blank
import Mos6502.Text.Numeral
import Mos6502.Text.Upper

/-!
# Values of options

The kinds of value that an option takes, and the texts that stand for one.
-/
namespace Mos6502.CommandLine

/-- What a disassembly shows. -/
inductive Format
  | asm
  | hex
  | both
deriving DecidableEq

namespace Format

def all : List Format := [asm, hex, both]

def name : Format → String
  | asm => "asm"
  | hex => "hex"
  | both => "both"

end Format

/-- What the value of an option is. -/
inductive ValueKind
  /-- The name of a file, which is not empty. -/
  | file
  /-- An address, with white space around it allowed. -/
  | address
  /-- A number of sixty-four bits. -/
  | natural
  /-- A number of one byte; a sign of zero is allowed. -/
  | byte
  | format
  /-- How much is logged: the name of a level, or a number from one to five. -/
  | logLevel
deriving DecidableEq

/-- The value of an option. -/
inductive Value
  | file (path : String)
  | address (a : UInt16)
  | natural (n : Nat)
  | byte (b : UInt8)
  | format (f : Format)
  | logLevel
  /-- A flag is set. -/
  | set
deriving DecidableEq

namespace ValueKind

/-- The texts of a value that has only few of them. -/
def choices : ValueKind → List String
  | format => Format.all.map Format.name
  | _ => []

/-- The value that a text stands for. -/
def read? (kind : ValueKind) (text : String) : Option Value :=
  match kind with
  | file => if text.isEmpty then none else some (.file text)
  | address => (Numeral.address? (Blank.trim text.toList)).map .address
  | natural => (Numeral.natural? 10 0xFFFFFFFFFFFFFFFF text.toList).map .natural
  | byte => do
    let n ← Numeral.signed? 10 64 text.toList
    if 0 ≤ n ∧ n ≤ 0xFF then some (.byte (UInt8.ofInt n)) else none
  | format => (Format.all.find? (·.name == text)).map .format
  | logLevel =>
    if (Numeral.natural? 10 0xFFFFFFFFFFFFFFFF text.toList).any (fun n => 1 ≤ n ∧ n ≤ 5) ||
        ["ERROR", "WARN", "INFO", "DEBUG", "TRACE"].contains (Text.upper text) then some .logLevel
    else none

end ValueKind

end Mos6502.CommandLine
