import Mos6502.Assembly.Error
import Mos6502.Assembly.Plan

/-!
# Layout

The first pass. It walks the lines with a cursor, gives labels and equates their
values, and chooses the instructions, so that every line has an address and a
size. An operand whose symbols are not defined yet gets the size that any value
fits in. Equates that need later symbols wait until the end of the pass.
-/
namespace Mos6502.Assembly

/-- An equate that waits for a symbol. -/
structure Pending where
  name : String
  value : Expr
  line : Nat
  column : Nat
  /-- What `*` stands for in it. -/
  address : UInt16

structure Layout where
  /-- The address of the next byte; it may pass the top of memory. -/
  cursor : Nat
  origin : UInt16
  symbols : SymbolTable
  pending : Array Pending
  errors : Array Error

namespace Layout

def start : Layout :=
  ⟨0, 0, .empty, #[], #[]⟩

/-- The low sixteen bits of the cursor. -/
def address (s : Layout) : UInt16 :=
  UInt16.ofNat s.cursor

def report (s : Layout) (line column : Nat) (cause : Cause) : Layout :=
  { s with errors := s.errors.push ⟨cause, line, column, .first⟩ }

def advance (s : Layout) (size : Nat) : Layout :=
  { s with cursor := s.cursor + size }

/-! ## Symbols -/

def define (s : Layout) (name : String) (address : UInt16) (line column : Nat) : Layout :=
  match s.symbols.define ⟨name, address, line⟩ with
  | .ok symbols => { s with symbols }
  | .error old => s.report line column (.duplicate name old)

/-- Gives a label the address of the cursor. -/
def label (s : Layout) (name : String) (line : Nat) : Layout :=
  match cursorAddress? s.cursor with
  | some address => s.define name address line 0
  | none => s.report line 0 (.labelPastEnd name)

/-- Gives an equate its value. -/
def assign (s : Layout) (name : String) (value : Int) (line column : Nat) : Layout :=
  match valueAddress? value with
  | some address => s.define name address line column
  | none => s.report line column (.equateRange name value)

def equate (s : Layout) (name : String) (value : Expr) (line : Line) : Layout :=
  match value.eval s.symbols s.address with
  | .ok v => s.assign name v line.number line.column
  | .error _ =>
    { s with pending := s.pending.push ⟨name, value, line.number, line.column, s.address⟩ }

/-- Tries each waiting equate once, in order. -/
def retry (s : Layout) : Layout :=
  s.pending.foldl (fun s p =>
    match p.value.eval s.symbols p.address with
    | .ok v => s.assign p.name v p.line p.column
    | .error _ => { s with pending := s.pending.push p }) { s with pending := #[] }

/-- Tries the waiting equates as long as that settles one of them. -/
def settle (s : Layout) : Layout :=
  let next := s.retry
  if next.pending.size < s.pending.size then settle next else next
termination_by s.pending.size

/-- Reports the equates that no round could settle. -/
def reportPending (s : Layout) : Layout :=
  s.pending.foldl (fun s p =>
    match p.value.eval s.symbols p.address with
    | .ok _ => s
    | .error u => s.report p.line p.column (.unresolved p.name u.name)) s

/-! ## Statements -/

def setOrigin (s : Layout) (value : Expr) (line : Line) : Layout :=
  match value.eval s.symbols s.address with
  | .error u => s.report line.number line.column (.undefined u.name)
  | .ok v =>
    match valueAddress? v with
    | some origin => { s with cursor := origin.toNat, origin }
    | none => s.report line.number line.column (.originRange v)

/-- The value of an operand for choosing an instruction, and whether its symbols are still to come.
One byte of a value fits in a byte, whatever the value will be. -/
def operandValue (s : Layout) : Option Expr → Option UInt16 × Bool
  | none => (none, false)
  | some e =>
    match e.eval s.symbols s.address with
    | .ok v => (valueAddress? v, false)
    | .error _ => (if e.isByteSelect then some 0 else none, true)

def instruction (s : Layout) (mnemonic : String) (shape : Shape) (operand : Option Expr) (line : Line) :
    Layout × Plan :=
  let (value, forward) := s.operandValue operand
  match Opcode.select mnemonic shape value with
  | .ok opcode => (s.advance opcode.size, .instruction ⟨opcode, forward, mnemonic, shape⟩)
  | .error e => (s.report line.number line.column (.noInstruction e), .noInstruction)

/-- Bytes of one item of data. -/
def itemSize : DataItem → Nat
  | .value _ => 1
  | .text bytes => bytes.length

def dataSize : List DataItem → Nat
  | [] => 0
  | i :: items => itemSize i + dataSize items

/-- What a macro sees. -/
def context (s : Layout) : Macro.Context :=
  ⟨s.origin, s.address, s.symbols⟩

/-- Lays out a line; `levels` is how much deeper macros may nest. -/
def line (registry : Macro.Registry) (limit levels : Nat) (s : Layout) (l : Line) : Layout × Plan :=
  let s := match l.label with
    | some name => s.label name l.number
    | none => s
  match l.statement with
  | none => (s, .nothing)
  | some (.origin e) => (s.setOrigin e l, .nothing)
  | some (.equate name e) => (s.equate name e l, .nothing)
  | some (.bytes items) => (s.advance (dataSize items), .nothing)
  | some (.words items) => (s.advance (2 * items.length), .nothing)
  | some (.instruction mnemonic shape operand) => s.instruction mnemonic shape operand l
  | some (.invocation name arguments) =>
    let (after, plans) :=
      match registry.expand name arguments s.context .first with
      | .error e => (s.report l.number l.column (.expansion e), [])
      | .ok .nothing => (s, [])
      | .ok (.bytes bs) => (s.advance bs.length, [])
      | .ok (.source text) =>
        match levels with
        | 0 => (s.report l.number l.column (.tooDeep name limit), [])
        | levels + 1 =>
          (Lines.split text.toList).foldl (fun (s, plans) text =>
            match Line.read text l.number with
            | .ok inner =>
              let (s, plan) := line registry limit levels s inner
              (s, plan :: plans)
            | .error e =>
              (s.report l.number l.column (.unreadableExpansion name e.cause), .nothing :: plans))
            (s, [])
    (after, .expansion (distance s.cursor after.cursor) plans.reverse)

/-- Lays out the lines of a source in order. The plans stand last first. -/
def pass (registry : Macro.Registry) (limit : Nat) (lines : List (Except LineError Line)) :
    Layout × List Plan :=
  lines.foldl (fun (s, plans) l =>
    match l with
    | .ok l =>
      let (s, plan) := s.line registry limit limit l
      (s, plan :: plans)
    | .error e => (s.report e.line e.column (.unreadable e.cause), .nothing :: plans)) (start, [])

/-- The finished layout of a source and the plan of each line. -/
def run (registry : Macro.Registry) (limit : Nat) (lines : List (Except LineError Line)) :
    Layout × List Plan :=
  let (s, plans) := pass registry limit lines
  (s.settle.reportPending, plans.reverse)

end Layout

end Mos6502.Assembly
