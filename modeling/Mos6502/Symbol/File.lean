import Mos6502.Symbol.Table
import Mos6502.Text.Blank
import Mos6502.Text.Column
import Mos6502.Text.Hex
import Mos6502.Text.Lines
import Mos6502.Text.Numeral

/-!
# Symbol files

A text with one symbol a line, `name = $0200 (512)`. Writing gives every symbol
in order of names. Reading also takes decimal and `0x` values, skips empty lines
and lines that start with `;` or `#`, and drops a note in parentheses.
-/
namespace Mos6502

/-- Why a line of a symbol file cannot be read. -/
inductive SymbolFileCause
  | notAnAssignment
  | missingName
  | badValue (text : String)
  | redefined (name : String) (old : Symbol)
deriving DecidableEq

structure SymbolFileError where
  line : Nat
  cause : SymbolFileCause
deriving DecidableEq

def SymbolFileCause.message : SymbolFileCause → String
  | notAnAssignment => "expected NAME = VALUE"
  | missingName => "missing symbol name"
  | badValue text => s!"invalid value '{text}'"
  | redefined name old => s!"'{name}' redefined (was ${Hex.word old.address})"

def SymbolFileError.message (e : SymbolFileError) : String :=
  s!"symbol file line {e.line}: {e.cause.message}"

namespace Symbol

/-- The symbol as a line of a file. -/
def render (s : Symbol) : String :=
  s!"{Column.left 20 s.name} = ${Hex.word s.address} ({s.address.toNat})\n"

end Symbol

namespace SymbolTable

/-- The table as a file. -/
def render (t : SymbolTable) : String :=
  String.join (t.symbols.map Symbol.render)

/-- The line holds no symbol: it is empty or a comment. -/
def isRemark : List Char → Bool
  | [] => true
  | c :: _ => c == ';' || c == '#'

/-- Name and value of a trimmed line. -/
def parseAssignment (cs : List Char) : Except SymbolFileCause (String × UInt16) :=
  match cs.dropWhile (· ≠ '=') with
  | [] => .error .notAnAssignment
  | _ :: right =>
    let name := Blank.trim (cs.takeWhile (· ≠ '='))
    let value := Blank.trim (right.takeWhile (· ≠ '('))
    if name.isEmpty then .error .missingName
    else match Numeral.address? value with
      | some address => .ok (String.ofList name, address)
      | none => .error (.badValue (String.ofList value))

/-- Adds what one line of a file says. -/
def readLine (t : SymbolTable) (number : Nat) (text : List Char) : Except SymbolFileError SymbolTable :=
  let cs := Blank.trim text
  if isRemark cs then .ok t
  else match parseAssignment cs with
    | .error cause => .error ⟨number, cause⟩
    | .ok (name, address) =>
      match t.define ⟨name, address, number⟩ with
      | .ok t => .ok t
      | .error old => .error ⟨number, .redefined name old⟩

/-- Adds what the lines of a file say, up to the first fault. -/
def readLines (t : SymbolTable) (number : Nat) : List (List Char) → Except SymbolFileError SymbolTable
  | [] => .ok t
  | text :: rest =>
    match t.readLine number text with
    | .error e => .error e
    | .ok t => readLines t (number + 1) rest

/-- Reads a file. -/
def parse (text : String) : Except SymbolFileError SymbolTable :=
  readLines empty 1 (Lines.split text.toList)

end SymbolTable

end Mos6502
