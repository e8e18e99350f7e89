import Mos6502.CommandLine.Words

/-!
# Commands

The four commands with their options: assemble, disassemble, simulate and
verify. An option that is not given has its usual value.
-/
namespace Mos6502.CommandLine

structure AsmOptions where
  input : String
  /-- The HEX file; usually the input with the extension `hex`. -/
  output : Option String
  binary : Option String
  listing : Option String
  symbols : Option String
  debugLevel : UInt8
  maxDepth : Nat

structure DisOptions where
  input : String
  start : UInt16
  offset : Nat
  length : Option Nat
  output : Option String
  format : Format
  symbols : Option String
  reassemblable : Bool
  showBytes : Bool

structure SimOptions where
  input : String
  /-- Where a binary is loaded. -/
  load : UInt16
  start : Option UInt16
  maxSteps : Nat
  trace : Bool
  stopOnBreak : Bool
  detectStalls : Bool

structure VerifyOptions where
  reference : String
  candidate : String
  base : UInt16

inductive Command
  | asm (o : AsmOptions)
  | dis (o : DisOptions)
  | sim (o : SimOptions)
  | verify (o : VerifyOptions)

/-- What the user asks for. -/
inductive Demand
  | run (c : Command)
  | help (page : Page)
  | version

namespace Command

/-! ## From words -/

def readAsm (w : Words) : Except UsageError Command :=
  match w.plain with
  | [input] => .ok (.asm
    { input, output := w.file? "output", binary := w.file? "binary", listing := w.file? "listing",
      symbols := w.file? "symbols", debugLevel := (w.byte? "debug").getD 0,
      maxDepth := (w.natural? "max-macro-depth").getD 8 })
  | _ => .error .wrongFiles

def readDis (w : Words) : Except UsageError Command :=
  match w.plain with
  | [input] => .ok (.dis
    { input, start := (w.address? "start").getD 0, offset := (w.natural? "offset").getD 0,
      length := w.natural? "length", output := w.file? "output", format := (w.format? "format").getD .asm,
      symbols := w.file? "symbols", reassemblable := w.has "reassemblable", showBytes := w.has "show-bytes" })
  | _ => .error .wrongFiles

def readSim (w : Words) : Except UsageError Command :=
  match w.plain with
  | [input] => .ok (.sim
    { input, load := (w.address? "load").getD 0x0200, start := w.address? "start",
      maxSteps := (w.natural? "max-steps").getD 10000, trace := w.has "trace",
      stopOnBreak := !w.has "no-stop-on-brk", detectStalls := !w.has "no-stall-detect" })
  | _ => .error .wrongFiles

def readVerify (w : Words) : Except UsageError Command :=
  match w.plain with
  | [reference, candidate] => .ok (.verify { reference, candidate, base := (w.address? "base").getD 0 })
  | _ => .error .wrongFiles

/-- The page of a command and how its words are read. -/
def ofName? : String → Option (Page × (Words → Except UsageError Command))
  | "asm" => some (.asm, readAsm)
  | "dis" => some (.dis, readDis)
  | "sim" => some (.sim, readSim)
  | "verify" => some (.verify, readVerify)
  | _ => none

/-! ## Whole command lines -/

/-- Reads the words that belong to a page and goes on with `next`, unless they
ask for help or the version. -/
def onWords (page : Page) (words : List String) (next : Words → List String → Except UsageError Demand) :
    Except UsageError Demand :=
  match Words.read page.options page.arguments.length {} words with
  | .ok (w, rest) => next w rest
  | .error .help => .ok (.help page)
  | .error .version => .ok .version
  | .error (.misuse e) => .error e

/-- Reads the words after the name of a command. -/
def readCommand (page : Page) (read : Words → Except UsageError Command) (words : List String) :
    Except UsageError Demand :=
  onWords page words fun w rest => do
    let w ← w.settle
    if rest.isEmpty then return .run (← read w) else throw .wrongFiles

/-- The page that the words after `help` name. -/
def readHelp : List String → Except UsageError Demand
  | [] => .ok (.help .program)
  | name :: rest =>
    match Page.ofName? name, rest with
    | some page, [] => .ok (.help page)
    | some _, extra :: _ => .error (.unknownCommand extra)
    | none, _ => .error (.unknownCommand name)

/-- Reads a whole command line, without the program's name. A value that is
open before the command is looked at after the words of the command. -/
def parse (args : List String) : Except UsageError Demand :=
  onWords .program args fun w rest =>
    match rest with
    | [] => .error .noCommand
    | "help" :: names => readHelp names
    | name :: words =>
      match ofName? name with
      | none => .error (.unknownCommand name)
      | some (page, read) => do
        match ← readCommand page read words with
        | .run c =>
          let _ ← w.settle
          return .run c
        | demand => return demand

end Command

end Mos6502.CommandLine
