import Mos6502.Image.Basic
import Mos6502.Isa.Encoding
import Mos6502.Macro.Basic
import Mos6502.Source.Line

/-!
# Assembly errors

An error names its cause; the kind and the text follow from the cause. The
errors of both passes are collected.
-/
namespace Mos6502.Assembly

/-- Classes of errors. -/
inductive ErrorKind
  | syntaxError
  | undefinedSymbol
  | duplicateSymbol
  | addressOverlap
  | branchRange
  | macroExpansion
  | valueRange
deriving DecidableEq

def ErrorKind.describe : ErrorKind → String
  | syntaxError => "syntax error"
  | undefinedSymbol => "undefined symbol"
  | duplicateSymbol => "duplicate symbol"
  | addressOverlap => "address overlap"
  | branchRange => "branch out of range"
  | macroExpansion => "macro expansion"
  | valueRange => "value out of range"

/-- What went wrong. -/
inductive Cause
  | unreadable (cause : LineCause)
  | noInstruction (e : SelectError)
  | encoding (e : EncodeError)
  | undefined (name : String)
  /-- An equate whose value depends on a name without a value. -/
  | unresolved (name missing : String)
  | duplicate (name : String) (old : Symbol)
  | overlap (o : Overlap)
  | labelPastEnd (name : String)
  | codePastEnd
  | originRange (value : Int)
  | equateRange (name : String) (value : Int)
  | expansion (e : Macro.Error)
  /-- A line of an expansion cannot be read. -/
  | unreadableExpansion (name : String) (cause : LineCause)
  | tooDeep (name : String) (limit : Nat)
  | sizeChanged (name : String) (second first : Nat)

namespace Cause

def kind : Cause → ErrorKind
  | unreadable _ | noInstruction _ | encoding .missingOperand => .syntaxError
  | encoding (.branch _) => .branchRange
  | undefined _ | unresolved _ _ => .undefinedSymbol
  | duplicate _ _ => .duplicateSymbol
  | overlap _ => .addressOverlap
  | encoding (.range _ _) | labelPastEnd _ | codePastEnd | originRange _ | equateRange _ _ => .valueRange
  | expansion _ | unreadableExpansion _ _ | tooDeep _ _ | sizeChanged _ _ _ => .macroExpansion

def message : Cause → String
  | unreadable cause => cause.message
  | noInstruction e => e.message
  | encoding e => e.message
  | undefined name => s!"undefined symbol '{name}'"
  | unresolved name missing => s!"'{name}' depends on undefined symbol '{missing}'"
  | duplicate name old => s!"'{name}' already defined as ${Hex.word old.address} at line {old.line}"
  | overlap o => o.message
  | labelPastEnd name => s!"label '{name}' is past $FFFF"
  | codePastEnd => "code runs past $FFFF"
  | originRange value => s!"origin {value} is not a 16-bit address"
  | equateRange name value => s!"'{name}' = {value} does not fit in 16 bits"
  | expansion e => e.message
  | unreadableExpansion name cause => s!"in expansion of '{name}': {cause.message}"
  | tooDeep name limit => s!"macro '{name}' nests deeper than {limit} levels"
  | sizeChanged name second first =>
    s!"macro '{name}' emitted {second} bytes in pass 2 but {first} in pass 1"

end Cause

structure Error where
  cause : Cause
  line : Nat
  column : Nat
  pass : Pass

namespace Error

def kind (e : Error) : ErrorKind :=
  e.cause.kind

def message (e : Error) : String :=
  e.cause.message

/-- Line, class and text. -/
def render (e : Error) : String :=
  s!"line {e.line}: {e.kind.describe}: {e.message}"

end Error

/-- A remark that does not stop the assembly. -/
structure Warning where
  line : Nat
  /-- The value that turned out to fit in zero page. -/
  value : UInt8
  mnemonic : String
deriving DecidableEq

def Warning.message (w : Warning) : String :=
  s!"forward reference resolved to zero page ${Hex.byte w.value} but {w.mnemonic} was sized as absolute"

end Mos6502.Assembly
