import Mos6502.Macro.Arguments
import Mos6502.Symbol.Table

/-!
# Macros

A line `@name arguments` calls a handler. The handler sees the arguments, a part
of the assembly in progress and the pass, and answers with bytes, with source
text that is assembled in place of the line, or with nothing.
-/
namespace Mos6502

/-- The two passes over a source. -/
inductive Pass
  | first
  | second
deriving DecidableEq

def Pass.number : Pass → Nat
  | first => 1
  | second => 2

namespace Macro

/-- What a handler sees of the assembly. -/
structure Context where
  /-- The last origin set. -/
  origin : UInt16
  /-- Where the expansion will stand. -/
  address : UInt16
  /-- The symbols so far; all of them only in the second pass. -/
  symbols : SymbolTable

inductive Output
  | bytes (bs : List UInt8)
  | source (text : String)
  | nothing

/-- An implementation of a macro; a failure is a text. -/
abbrev Handler := List String → Context → Pass → Except String Output

inductive Error
  | unknown (name : String)
  | failed (name message : String)
deriving DecidableEq

def Error.message : Error → String
  | unknown name => s!"unknown macro '{name}'"
  | failed name message => s!"macro '{name}' failed: {message}"

/-- Handlers by name; the first of a name counts. -/
structure Registry where
  handlers : List (String × Handler)

namespace Registry

def empty : Registry :=
  ⟨[]⟩

def find? (r : Registry) (name : String) : Option Handler :=
  r.handlers.lookup name

/-- Takes the place of an earlier handler of the name. -/
def register (r : Registry) (name : String) (handler : Handler) : Registry :=
  ⟨(name, handler) :: r.handlers.filter (·.1 != name)⟩

def contains (r : Registry) (name : String) : Bool :=
  (r.find? name).isSome

/-- The names in order. -/
def names (r : Registry) : List String :=
  (r.handlers.map (·.1)).mergeSort fun a b => a ≤ b

/-- Calls the handler of a name on the text of its arguments. -/
def expand (r : Registry) (name arguments : String) (context : Context) (pass : Pass) :
    Except Error Output :=
  match r.find? name with
  | none => .error (.unknown name)
  | some handler =>
    match handler (splitArguments arguments) context pass with
    | .ok output => .ok output
    | .error message => .error (.failed name message)

end Registry

end Macro

end Mos6502
