import Mos6502.Assembly.Assembler
import Mos6502.CommandLine.Command
import Mos6502.CommandLine.Help
import Mos6502.CommandLine.Host
import Mos6502.CommandLine.Path
import Mos6502.Comparison
import Mos6502.Disassembly.Region
import Mos6502.Image.IntelHex
import Mos6502.Machine.Run
import Mos6502.Symbol.File
import Mos6502.Text.Terminal

/-!
# Running commands

What each command does with files and what it prints. A command that fails ends
with a message; the exit code is zero for success, one for a failure and two for
a command line that is not understood.
-/
namespace Mos6502.CommandLine

variable {m : Type → Type} [Monad m] [Host m]

/-- A computation that may fail with a message. -/
abbrev Task (m : Type → Type) := ExceptT String m

/-- Complaints quote files and paths, so they are written for a terminal. -/
def complain (text : String) : m Unit :=
  Host.complain (Terminal.text text)

namespace Task

/-! ## Files -/

def read (path : String) : Task m (List UInt8) := do
  match ← (Host.readFile path : m _) with
  | .ok bytes => return bytes
  | .error e => throw s!"cant open {path}: {e.message}"

/-- A file as text. -/
def readText (path : String) : Task m String := do
  let bytes ← read path
  match String.fromUTF8? ⟨bytes.toArray⟩ with
  | some text => return text
  | none => throw s!"cant open {path}: {FileError.notText.message}"

def write (path : String) (bytes : List UInt8) : Task m Unit := do
  match ← (Host.writeFile path bytes : m _) with
  | .ok () => return
  | .error e => throw s!"cant write {path}: {e.message}"

def writeText (path text : String) : Task m Unit :=
  write path text.toUTF8.toList

/-- Does nothing if there is no file. -/
def writeTo (path : Option String) (bytes : List UInt8) : Task m Unit :=
  match path with
  | some path => write path bytes
  | none => return

def printLine (text : String) : Task m Unit :=
  (Host.print (text ++ "\n") : m Unit)

/-! ## Assembly -/

/-- Assembles a file. Each error is a complaint of its own. -/
def assemble (path : String) (settings : Assembly.Settings) : Task m Assembly.Output := do
  let source ← readText path
  match (Assembly.run settings .builtin source).toExcept with
  | .ok output => return output
  | .error errors =>
    for e in errors do
      (complain s!"{path}:{e.render}" : m Unit)
    throw s!"assembly failed with {errors.length} error(s)"

def asm (o : AsmOptions) : Task m UInt8 := do
  let result ← assemble o.input { debugLevel := o.debugLevel, maxDepth := o.maxDepth }
  writeTo o.listing result.listing.render.toUTF8.toList
  writeTo o.symbols result.symbols.render.toUTF8.toList
  let output := o.output.getD (Path.withExtension o.input "hex")
  writeText output result.image.toIntelHex
  writeTo o.binary (result.image.toBytes 0)
  if let some (first, last) := result.image.range? then
    printLine s!"Assembled {result.image.count} bytes (${Hex.word first}-${Hex.word last}) to {output}"
  return 0

/-! ## Disassembly -/

/-- The text of a disassembly of bytes. -/
def disassembly (o : DisOptions) (symbols : Option SymbolTable) (bytes : List UInt8) : String :=
  let d : Disassembler :=
    { image := .ofBytes o.start bytes, options := { symbols, reassemblable := o.reassemblable } }
  let length := UInt32.ofNat bytes.length
  let listing :=
    if o.reassemblable then d.source o.start length
    else String.join ((d.region o.start length).map fun i => d.lineText o.showBytes i ++ "\n")
  let dump := HexDump.render bytes o.start
  match o.format with
  | .asm => listing
  | .hex => dump
  | .both => listing ++ "\n=== HEX DUMP ===\n" ++ dump

def dis (o : DisOptions) : Task m UInt8 := do
  let data ← read o.input
  if o.offset > data.length then throw s!"offset {o.offset} is past the end of the file"
  let rest := data.drop o.offset
  let bytes := rest.take (min (o.length.getD rest.length) (65536 - o.start.toNat))
  let symbols ← match o.symbols with
    | none => pure none
    | some path =>
      match SymbolTable.parse (← readText path) with
      | .ok table => pure (some table)
      | .error e => throw e.message
  if !bytes.isEmpty then
    let last := UInt16.ofNat (o.start.toNat + bytes.length - 1)
    (Host.remark (s!"Disassembling {bytes.length} bytes " ++
      s!"(address range: ${Hex.word o.start}-${Hex.word last})") : m Unit)
  let text := disassembly o symbols bytes
  match o.output with
  | some path => writeText path text
  | none => (Host.print text : m Unit)
  return 0

/-! ## Simulation -/

/-- The file is a source, to judge by its name. -/
def isSource (path : String) : Bool :=
  ["asm", "s", "a65"].any (Path.extension? path == some ·)

/-- Memory with the program of a simulation, which starts at the reset vector. -/
def loaded (o : SimOptions) : Task m Memory := do
  if isSource o.input then
    let result ← assemble o.input {}
    let entry := (o.start <|> result.image.start?).getD o.load
    return (Memory.zero.loadImage result.image).setResetVector entry
  else
    let bytes ← read o.input
    return (Memory.zero.load o.load bytes).setResetVector (o.start.getD o.load)

/-- The machine after a simulation, in four lines. -/
def summary (p : Progress) : String :=
  let r := p.machine.registers
  let status := (List.range 8).reverse.map fun i => if r.status.toNat.testBit i then '1' else '0'
  s!"Executed {p.steps} instructions ({p.machine.cycles} cycles)\n" ++
    s!"PC=${Hex.word r.pc} A=${Hex.byte r.a} X=${Hex.byte r.x} Y=${Hex.byte r.y} SP=${Hex.byte r.sp}\n" ++
    s!"Flags: NV-BDIZC\n       {String.ofList status}"

def sim (o : SimOptions) : Task m UInt8 := do
  let memory ← loaded o
  let (p, reason) := (Machine.reset memory).session
    { maxSteps := o.maxSteps, stopOnBreak := o.stopOnBreak, detectStalls := o.detectStalls }
  if o.trace then
    printLine TraceRecord.header
    for t in p.records do
      printLine t.renderNamed
  printLine (summary p)
  match reason with
  | .fault f => throw f.message
  | .stepLimit => printLine "Stopped: step limit reached"
  | .brk pc => printLine s!"Stopped: BRK at ${Hex.word pc}"
  | .stall pc => printLine s!"Stopped: possible infinite loop at ${Hex.word pc}"
  return 0

/-! ## Verification -/

def verify (o : VerifyOptions) : Task m UInt8 := do
  let reference ← read o.reference
  let candidate ← read o.candidate
  match Comparison.of reference candidate o.base with
  | .identical =>
    printLine s!"Identical ({reference.length} bytes)"
    return 0
  | .mismatch report =>
    (Host.print ("Mismatch\n" ++ report.render) : m Unit)
    return 1

end Task

/-- Runs a command and answers with its exit code. -/
def Command.run (c : Command) : m UInt8 := do
  let task : Task m UInt8 := match c with
    | .asm o => Task.asm o
    | .dis o => Task.dis o
    | .sim o => Task.sim o
    | .verify o => Task.verify o
  match ← task.run with
  | .ok code => return code
  | .error message =>
    complain message
    return 1

/-- Runs a whole command line, without the program's name. The inner answer is
the exit code, and the outer error a command line that is not understood. -/
def run (args : List String) : m (Except UsageError UInt8) := do
  match Command.parse args with
  | .error e => return .error e
  | .ok (.run c) => return .ok (← c.run)
  | .ok (.help page) =>
    Host.print page.render
    return .ok 0
  | .ok .version =>
    Host.print Page.version
    return .ok 0

end Mos6502.CommandLine
