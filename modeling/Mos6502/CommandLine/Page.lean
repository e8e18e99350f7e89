import Mos6502.CommandLine.Value

/-!
# What the program offers

The commands with their arguments and options as data. The reader of a command
line and the help follow it.
-/
namespace Mos6502.CommandLine

/-- What an option takes or does. -/
inductive OptionKind
  | value (kind : ValueKind)
  | flag
  /-- Asks for help. -/
  | help
  /-- Asks for the version. -/
  | version
deriving DecidableEq

structure OptionSpec where
  name : String
  letter : Option Char := none
  kind : OptionKind
  about : String := ""
  /-- The value if the option is not given. -/
  usual : Option String := none
deriving DecidableEq

/-- A plain word that a command takes. -/
structure Argument where
  label : String
  about : String := ""
deriving DecidableEq

/-- A command, or the program itself if the name is empty. -/
structure Page where
  name : String
  about : String
  commands : List (String × String) := []
  arguments : List Argument := []
  /-- The options in the order of the help. -/
  options : List OptionSpec := []
deriving DecidableEq

/-! ## Options of every command -/

namespace OptionSpec

def logLevel : OptionSpec :=
  { name := "log-level", letter := some 'l', kind := .value .logLevel,
    about := "One of `TRACE`, `DEBUG`, `INFO`, `WARN`, or `ERROR`", usual := some "WARN" }

def help : OptionSpec :=
  { name := "help", letter := some 'h', kind := .help, about := "Print help" }

def version : OptionSpec :=
  { name := "version", letter := some 'V', kind := .version, about := "Print version" }

end OptionSpec

/-! ## The commands -/

namespace Page

def asm : Page where
  name := "asm"
  about := "Assemble a source file into Intel HEX (and optionally raw binary)"
  arguments := [{ label := "<INPUT>", about := "Assembly source file" }]
  options :=
    [{ name := "output", letter := some 'o', kind := .value .file,
       about := "Intel HEX output (default: input with a .hex extension)" },
     { name := "binary", letter := some 'b', kind := .value .file,
       about := "Also write a raw binary covering the used address range" },
     { name := "listing", kind := .value .file, about := "Write a listing file" },
     { name := "symbols", kind := .value .file, about := "Write a symbol file" },
     { name := "debug", kind := .value .byte,
       about := "Assembler debug level (0 = quiet)", usual := some "0" },
     .logLevel,
     { name := "max-macro-depth", kind := .value .natural,
       about := "Maximum nesting of source-producing macros", usual := some "8" },
     .help]

def dis : Page where
  name := "dis"
  about := "Disassemble a raw binary"
  arguments := [{ label := "<INPUT>", about := "Binary input file" }]
  options :=
    [{ name := "start", letter := some 's', kind := .value .address,
       about := "Load address of the first disassembled byte", usual := some "0" },
     { name := "offset", kind := .value .natural,
       about := "Skip this many bytes of the file", usual := some "0" },
     { name := "length", letter := some 'n', kind := .value .natural,
       about := "Number of bytes to disassemble (default: rest of file)" },
     { name := "output", letter := some 'o', kind := .value .file, about := "Output file (default: stdout)" },
     { name := "format", letter := some 'f', kind := .value .format, usual := some "asm" },
     .logLevel,
     { name := "symbols", kind := .value .file, about := "Symbol file used to name operands" },
     { name := "reassemblable", letter := some 'r', kind := .flag,
       about := "Emit source that reassembles to identical bytes" },
     { name := "show-bytes", kind := .flag, about := "Prefix each line with its address and bytes" },
     .help]

def sim : Page where
  name := "sim"
  about := "Run a program in the simulator"
  arguments := [{ label := "<INPUT>", about := "Assembly source (.asm/.s) or raw binary" }]
  options :=
    [{ name := "load", kind := .value .address,
       about := "Load address for raw binaries", usual := some "$0200" },
     { name := "start", kind := .value .address,
       about := "Start address (default: first assembled byte or the load address)" },
     { name := "max-steps", kind := .value .natural, usual := some "10000" },
     { name := "trace", kind := .flag, about := "Print one line per executed instruction" },
     .logLevel,
     { name := "no-stop-on-brk", kind := .flag, about := "Execute BRK instead of stopping before it" },
     { name := "no-stall-detect", kind := .flag, about := "Keep running when PC stops moving" },
     .help]

def verify : Page where
  name := "verify"
  about := "Compare two binaries byte for byte"
  arguments := [{ label := "<ORIGINAL>" }, { label := "<CANDIDATE>" }]
  options :=
    [{ name := "base", kind := .value .address,
       about := "Address of the first byte, used in reports", usual := some "0" },
     .logLevel,
     .help]

/-- The command that shows these pages. -/
def help : Page where
  name := "help"
  about := "Print this message or the help of the given subcommand(s)"
  arguments := [{ label := "[COMMAND]...", about := "Print help for the subcommand(s)" }]

def ofCommands : List Page := [asm, dis, sim, verify, help]

def program : Page where
  name := ""
  about := "A MOS 6502 toolchain: two-pass assembler, round-trip disassembler and instruction simulator"
  commands := ofCommands.map fun page => (page.name, page.about)
  options := [.logLevel, .help, .version]

/-- The page of a command. -/
def ofName? (name : String) : Option Page :=
  ofCommands.find? (·.name == name)

end Page

end Mos6502.CommandLine
