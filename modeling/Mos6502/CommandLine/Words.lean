import Mos6502.CommandLine.Page

/-!
# Words of a command line

Options, flags and plain words. An option is written `--name value`,
`--name=value`, `-n value`, `-nvalue` or `-n=value`; flags of one letter may
share a dash. A word with a dash is never the separate value of an option, and
after `--` every word is a plain one. No option is given twice.

Words are read from left to right. A value that is a word of its own stays open
until the next option or plain word and only then is looked at, all other values
at once. A call for help or for the version ends the reading: what stands before
it has to be right, and what follows does not count.
-/
namespace Mos6502.CommandLine

/-- Why a command line cannot be understood. -/
inductive UsageError
  | unknownOption (word : String)
  | missingValue (name : String)
  | needlessValue (name : String)
  | repeated (name : String)
  | badValue (name text : String)
  | wrongFiles
  | emptyFile
  | unknownCommand (name : String)
  | noCommand
deriving DecidableEq

def UsageError.message : UsageError → String
  | unknownOption word => s!"unknown option '{word}'"
  | missingValue name => s!"option '--{name}' needs a value"
  | needlessValue name => s!"option '--{name}' takes no value"
  | repeated name => s!"option '--{name}' is given twice"
  | badValue name text => s!"invalid value '{text}' for '--{name}'"
  | wrongFiles => "wrong number of files"
  | emptyFile => "the name of a file is empty"
  | unknownCommand name => s!"unknown command '{name}'"
  | noCommand => "no command"

/-- What ends the reading of words early. -/
inductive Halt
  | misuse (e : UsageError)
  | help
  | version
deriving DecidableEq

instance : MonadLift (Except UsageError) (Except Halt) where
  monadLift x := x.mapError .misuse

/-- An option whose value is not looked at yet. -/
structure OpenValue where
  name : String
  kind : ValueKind
  text : String
deriving DecidableEq

/-- What the words say. -/
structure Words where
  plain : List String := []
  /-- Options with their values. -/
  given : List (String × Value) := []
  openValue : Option OpenValue := none
deriving DecidableEq

namespace Words

/-! ## Looking up options -/

def value? (w : Words) (name : String) : Option Value :=
  w.given.lookup name

def has (w : Words) (name : String) : Bool :=
  (w.value? name).isSome

def file? (w : Words) (name : String) : Option String :=
  match w.value? name with
  | some (.file path) => some path
  | _ => none

def address? (w : Words) (name : String) : Option UInt16 :=
  match w.value? name with
  | some (.address a) => some a
  | _ => none

def natural? (w : Words) (name : String) : Option Nat :=
  match w.value? name with
  | some (.natural n) => some n
  | _ => none

def byte? (w : Words) (name : String) : Option UInt8 :=
  match w.value? name with
  | some (.byte b) => some b
  | _ => none

def format? (w : Words) (name : String) : Option Format :=
  match w.value? name with
  | some (.format f) => some f
  | _ => none

/-! ## Adding words -/

/-- Adds an option that is not there yet. -/
def add (w : Words) (name : String) (value : Value) : Except UsageError Words :=
  if w.has name then .error (.repeated name)
  else .ok { w with given := (name, value) :: w.given }

/-- Adds an option with the text of its value. -/
def addText (w : Words) (name : String) (kind : ValueKind) (text : String) : Except UsageError Words :=
  match kind.read? text with
  | some value => w.add name value
  | none => .error (.badValue name text)

/-- Looks at the value that is open. -/
def settle (w : Words) : Except UsageError Words :=
  match w.openValue with
  | some v => { w with openValue := none }.addText v.name v.kind v.text
  | none => .ok w

/-- Adds the name of a file, of which there are at most `files`. -/
def addFile (files : Nat) (w : Words) (word : String) : Except UsageError Words := do
  let w ← w.settle
  if w.plain.length ≥ files then .error .wrongFiles
  else if word.isEmpty then .error .emptyFile
  else .ok { w with plain := w.plain ++ [word] }

/-! ## Reading -/

/-- A dash with something after it. -/
def isOption : List Char → Bool
  | '-' :: _ :: _ => true
  | _ => false

/-- The words after an option is read: complete, or with a value to come. -/
inductive Reading
  | complete (w : Words)
  | awaiting (w : Words) (name : String) (kind : ValueKind)

/-- Reads the letters after one dash. -/
def readLetters (specs : List OptionSpec) (w : Words) : List Char → Except Halt Reading
  | [] => .ok (.complete w)
  | c :: cs =>
    match specs.find? (·.letter == some c) with
    | none => .error (.misuse (.unknownOption (String.ofList ['-', c])))
    | some spec =>
      match spec.kind with
      | .help => .error .help
      | .version => .error .version
      | .flag =>
        match w.add spec.name .set with
        | .ok w => readLetters specs w cs
        | .error e => .error (.misuse e)
      | .value kind =>
        match cs with
        | [] => .ok (.awaiting w spec.name kind)
        | '=' :: text => do return .complete (← w.addText spec.name kind (String.ofList text))
        | text => do return .complete (← w.addText spec.name kind (String.ofList text))

/-- Reads the name after two dashes, and the value after an equals sign. -/
def readName (specs : List OptionSpec) (w : Words) (cs : List Char) : Except Halt Reading := do
  let name := String.ofList (cs.takeWhile (· ≠ '='))
  match specs.find? (·.name == name), cs.dropWhile (· ≠ '=') with
  | none, _ => throw (.misuse (.unknownOption (String.ofList ('-' :: '-' :: cs))))
  | some spec, [] =>
    match spec.kind with
    | .help => throw .help
    | .version => throw .version
    | .flag => return .complete (← w.add name .set)
    | .value kind => return .awaiting w name kind
  | some spec, _ :: text =>
    match spec.kind with
    | .value kind => return .complete (← w.addText name kind (String.ofList text))
    | _ => throw (.misuse (.needlessValue name))

/-- Reads one word that starts with a dash. -/
def readOption (specs : List OptionSpec) (w : Words) (cs : List Char) : Except Halt Reading := do
  let w ← w.settle
  match cs with
  | '-' :: '-' :: cs => readName specs w cs
  | '-' :: cs => readLetters specs w cs
  | cs => throw (.misuse (.unknownOption (String.ofList cs)))

/-- Adds options and up to `files` plain words to `w`. The second part of the
answer is what is left: nothing, or a plain word too many and all after it. -/
def read (specs : List OptionSpec) (files : Nat) (w : Words) :
    List String → Except Halt (Words × List String)
  | [] => .ok (w, [])
  | "--" :: rest => do
    let w ← (rest.foldlM (addFile files) w : Except UsageError Words)
    return (w, [])
  | word :: rest =>
    if isOption word.toList then
      match readOption specs w word.toList, rest with
      | .error e, _ => .error e
      | .ok (.complete w), rest => read specs files w rest
      | .ok (.awaiting _ name _), [] => .error (.misuse (.missingValue name))
      | .ok (.awaiting w name kind), text :: rest =>
        if isOption text.toList then .error (.misuse (.missingValue name))
        else read specs files { w with openValue := some ⟨name, kind, text⟩ } rest
    else if w.plain.length < files then
      match addFile files w word with
      | .ok w => read specs files w rest
      | .error e => .error (.misuse e)
    else .ok (w, word :: rest)

end Words

end Mos6502.CommandLine
