import Mos6502.Assembly.Emission
import Mos6502.Assembly.Layout
import Mos6502.Image.IntelHex
import Mos6502.Macro.Builtin
import Mos6502.Symbol.File

/-!
# The assembler

Both passes over a source. The result is an image with its symbols, listing and
warnings if no pass found an error, and otherwise all errors by line.
-/
namespace Mos6502

namespace Assembly

structure Output where
  image : Image
  symbols : SymbolTable
  listing : Listing
  warnings : List Warning

/-- What both passes left behind. The errors stand in the order of their detection. -/
structure Result where
  output : Output
  errors : List Error

/-- The lines of a source with what was read from them. -/
def readSource (source : String) : List Emission.SourceLine :=
  (Lines.split source.toList).mapIdx fun i text => (text, Line.read text (i + 1))

/-- Runs both passes. -/
def run (settings : Settings) (registry : Macro.Registry) (source : String) : Result :=
  let lines := readSource source
  let (layout, plans) := Layout.run registry settings.maxDepth (lines.map (·.2))
  let failed := (layout.errors.toList.map (·.line)).eraseReps
  let env : Emission.Setting := ⟨registry, settings.maxDepth, layout.symbols, failed⟩
  let (emission, listing) := Emission.run env (lines.zip plans)
  { output := ⟨emission.image, layout.symbols, listing, emission.warnings.toList⟩
    errors := layout.errors.toList ++ emission.errors.toList }

/-- The errors by line; those of one line stay in the order of their detection. -/
def byLine (errors : List Error) : List Error :=
  errors.mergeSort fun a b => a.line ≤ b.line

/-- The output, or all errors by line. -/
def Result.toExcept (r : Result) : Except (List Error) Output :=
  if r.errors.isEmpty then .ok r.output else .error (byLine r.errors)

/-- How the last assembly ended. -/
inductive State
  | idle
  | done
  /-- The class of the first error that was detected. -/
  | failed (kind : ErrorKind)
deriving DecidableEq

def Result.state (r : Result) : State :=
  match r.errors with
  | [] => .done
  | e :: _ => .failed e.kind

end Assembly

open Assembly

/-- An assembler with its macros and the way its last assembly ended. -/
structure Assembler where
  settings : Settings
  registry : Macro.Registry
  state : State := .idle

namespace Assembler

/-- Assembles a source. -/
def assemble (a : Assembler) (source : String) : Except (List Error) Output × Assembler :=
  let r := run a.settings a.registry source
  (r.toExcept, { a with state := r.state })

def register (a : Assembler) (name : String) (handler : Macro.Handler) : Assembler :=
  { a with registry := a.registry.register name handler }

end Assembler

/-- Assembles with the built-in macros and the usual settings. -/
def assemble (source : String) : Except (List Error) Output :=
  (run {} .builtin source).toExcept

end Mos6502
