import Mos6502.Assembly.Assembler
import Mos6502.Assembly.Emission
import Mos6502.Assembly.Error
import Mos6502.Assembly.Layout
import Mos6502.Assembly.Listing
import Mos6502.Assembly.Plan
import Mos6502.CommandLine.Command
import Mos6502.CommandLine.Help
import Mos6502.CommandLine.Host
import Mos6502.CommandLine.Page
import Mos6502.CommandLine.Path
import Mos6502.CommandLine.Run
import Mos6502.CommandLine.Value
import Mos6502.CommandLine.Words
import Mos6502.Comparison
import Mos6502.Disassembly.Format
import Mos6502.Disassembly.Instruction
import Mos6502.Disassembly.Region
import Mos6502.Image.Basic
import Mos6502.Image.IntelHex
import Mos6502.Isa.Branch
import Mos6502.Isa.Encoding
import Mos6502.Isa.Mode
import Mos6502.Isa.Opcode
import Mos6502.Isa.Operand
import Mos6502.Isa.Operation
import Mos6502.Machine.Arithmetic
import Mos6502.Machine.Effect
import Mos6502.Machine.Memory
import Mos6502.Machine.Registers
import Mos6502.Machine.Run
import Mos6502.Machine.Step
import Mos6502.Macro.Arguments
import Mos6502.Macro.Basic
import Mos6502.Macro.Builtin
import Mos6502.Main
import Mos6502.Source.Expr
import Mos6502.Source.Expr.Parser
import Mos6502.Source.Label
import Mos6502.Source.Lexer
import Mos6502.Source.Line
import Mos6502.Source.Stream
import Mos6502.Source.Token
import Mos6502.Symbol.File
import Mos6502.Symbol.Table
import Mos6502.Text.Blank
import Mos6502.Text.Column
import Mos6502.Text.Hex
import Mos6502.Text.Lines
import Mos6502.Text.Lower
import Mos6502.Text.Numeral
import Mos6502.Text.Printable
import Mos6502.Text.Quoted
import Mos6502.Text.Ranges
import Mos6502.Text.Rows
import Mos6502.Text.Terminal
import Mos6502.Text.Upper
import Mos6502.Workbench
import Mos6502.Proofs.Emission
import Mos6502.Proofs.Encoding
import Mos6502.Proofs.Passes
import Mos6502.Proofs.Numbering
import Mos6502.Proofs.Equates
import Mos6502.Proofs.SourceMap
import Mos6502.Proofs.Decoded
import Mos6502.Proofs.Region
import Mos6502.Proofs.Reassembly
import Mos6502.Proofs.Meaning
import Mos6502.Proofs.ZeroPage
import Mos6502.Proofs.Expansion
import Mos6502.Proofs.Footprint
import Mos6502.Proofs.Session
import Mos6502.Proofs.Cells
import Mos6502.Proofs.Slices
import Mos6502.Proofs.Runs
import Mos6502.Proofs.IntelHex
import Mos6502.Proofs.Branches
import Mos6502.Proofs.ErrorLines
import Mos6502.Proofs.Loading
import Mos6502.Proofs.Workbench
import Mos6502.Proofs.Faults
import Mos6502.Proofs.Codec
import Mos6502.Proofs.LongNumbers
import Mos6502.Proofs.Returns
import Mos6502.Proofs.Grammar
import Mos6502.Proofs.Scanning
import Mos6502.Proofs.Coverage
import Mos6502.Proofs.Names
import Mos6502.Proofs.SymbolFile
import Mos6502.Proofs.Batches
import Mos6502.Proofs.Shifts
import Mos6502.Proofs.ParallelLayout
import Mos6502.Proofs.ParallelEmission
import Mos6502.Proofs.BuiltinMacros
import Mos6502.Proofs.Substitution
import Mos6502.Proofs.Nesting
import Mos6502.Proofs.BlankLines
import Mos6502.Proofs.Comparison
import Mos6502.Proofs.Printing
import Mos6502.Proofs.Quoting
import Mos6502.Proofs.Here
import Mos6502.Proofs.WordTables
import Mos6502.Proofs.FinalState
import Mos6502.Proofs.Positions
import Mos6502.Proofs.Placement
import Mos6502.Proofs.Arguments
import Mos6502.Proofs.Progress
import Mos6502.Proofs.ValueRange
import Mos6502.Proofs.Stack
