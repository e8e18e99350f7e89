import Mos6502.Assembly.Error
import Mos6502.Assembly.Listing
import Mos6502.Assembly.Plan

/-!
# Emission

The second pass. It walks the same lines with the finished symbol table, follows
the plans of the first pass and writes the bytes. A line that already has an
error gets no further ones, since they would follow from the first.
-/
namespace Mos6502.Assembly

/-- What stays fixed during the second pass. -/
structure Emission.Setting where
  registry : Macro.Registry
  /-- How deep macros may nest. -/
  limit : Nat
  symbols : SymbolTable
  /-- Numbers of lines with an error of the first pass. -/
  failed : List Nat

structure Emission where
  cursor : Nat
  origin : UInt16
  image : Image
  warnings : Array Warning
  errors : Array Error

namespace Emission

def start : Emission :=
  ⟨0, 0, .empty, #[], #[]⟩

/-- The low sixteen bits of the cursor. -/
def address (s : Emission) : UInt16 :=
  UInt16.ofNat s.cursor

def report (s : Emission) (env : Setting) (line column : Nat) (cause : Cause) : Emission :=
  if env.failed.contains line then s
  else { s with errors := s.errors.push ⟨cause, line, column, .second⟩ }

def advance (s : Emission) (size : Nat) : Emission :=
  { s with cursor := s.cursor + size }

/-! ## Bytes -/

/-- Writes a byte at the cursor. -/
def byte (env : Setting) (l : Line) (s : Emission) (b : UInt8) : Emission :=
  match s.image.get? s.address with
  | none => { s with image := s.image.put s.address b, cursor := s.cursor + 1 }
  | some old => (s.report env l.number l.column (.overlap ⟨s.address, old, b⟩)).advance 1

/-- Writes bytes from the cursor on; those past the top of memory are an error together. -/
def bytes (env : Setting) (l : Line) (s : Emission) (bs : List UInt8) : Emission :=
  let room := 65536 - s.cursor
  let s := (bs.take room).foldl (byte env l) s
  let beyond := bs.drop room
  if beyond.isEmpty then s
  else (s.report env l.number l.column .codePastEnd).advance beyond.length

/-! ## Values -/

/-- The value of an expression. One that mentions an undefined symbol is an error. -/
def value (env : Setting) (l : Line) (s : Emission) (e : Expr) : Emission × Option Int :=
  match e.eval env.symbols s.address with
  | .ok v => (s, some v)
  | .error u => (s.report env l.number l.column (.undefined u.name), none)

/-- The bytes of a value of data. They are zero where the value is missing or out of range. -/
def datum (env : Setting) (l : Line) (size : Nat) (encode : Int → Except EncodeError (List UInt8))
    (s : Emission) (e : Expr) : Emission × List UInt8 :=
  let (s, v) := s.value env l e
  match encode (v.getD 0) with
  | .ok bs => (s, bs)
  | .error err => (s.report env l.number l.column (.encoding err), List.replicate size 0)

/-- The bytes of one item of a list of bytes. -/
def item (env : Setting) (l : Line) (s : Emission) : DataItem → Emission × List UInt8
  | .text bs => (s, bs)
  | .value e => s.datum env l 1 (fun v => (Encoding.byte v).map ([·])) e

/-- The bytes of one item of a list of words. -/
def word (env : Setting) (l : Line) (s : Emission) (e : Expr) : Emission × List UInt8 :=
  s.datum env l 2 Encoding.word e

/-- The bytes of all items of a list. -/
def collect {α : Type} (f : Emission → α → Emission × List UInt8) (s : Emission) (items : List α) :
    Emission × List UInt8 :=
  let (s, parts) := items.foldl (fun (s, parts) i =>
    let (s, bs) := f s i
    (s, bs :: parts)) (s, [])
  (s, parts.reverse.flatten)

/-- Writes the bytes of a line and answers with them. -/
def write (env : Setting) (l : Line) (s : Emission) (bs : List UInt8) : Emission × List UInt8 :=
  (s.bytes env l bs, bs)

/-! ## Statements -/

/-- Past the top of memory a label has no address. -/
def label (env : Setting) (s : Emission) (name : String) (line : Nat) : Emission :=
  match cursorAddress? s.cursor with
  | some _ => s
  | none => s.report env line 0 (.labelPastEnd name)

def setOrigin (env : Setting) (l : Line) (s : Emission) (e : Expr) : Emission :=
  match s.value env l e with
  | (s, none) => s
  | (s, some v) =>
    match valueAddress? v with
    | some origin => { s with cursor := origin.toNat, origin }
    | none => s.report env l.number l.column (.originRange v)

/-- The choice for an instruction. A line that differs from the planned one is chosen for anew. -/
def choice (plan : Plan) (mnemonic : String) (shape : Shape) (operand : Option Expr) :
    Except SelectError Choice :=
  match plan with
  | .instruction c => if c.fits mnemonic shape then .ok c else Choice.ofShape mnemonic shape operand
  | _ => Choice.ofShape mnemonic shape operand

/-- The remark on an operand that was taken for a wide one and turned out to fit in zero page. -/
def warning? (c : Choice) (shape : Shape) (l : Line) (v : Option Int) : Option Warning :=
  let forced := match shape with
    | .direct _ forced => forced
    | _ => false
  match v with
  | some v =>
    if 0 ≤ v ∧ v ≤ 0xFF ∧ c.forward ∧ !forced ∧ c.opcode.needsForce (UInt16.ofInt v) then
      some ⟨l.number, UInt8.ofInt v, c.opcode.mnemonic⟩
    else none
  | none => none

/-- Writes the instruction chosen for a line. If that fails the cursor passes its size. -/
def chosen (env : Setting) (l : Line) (s : Emission) (c : Choice) (shape : Shape) (v : Option Int) :
    Emission × List UInt8 :=
  match c.opcode.encode v s.address with
  | .error e => ((s.report env l.number l.column (.encoding e)).advance c.opcode.size, [])
  | .ok bs =>
    let s := { s with warnings := s.warnings ++ (warning? c shape l v).toArray }
    s.write env l bs

/-- Writes an instruction. One that the first pass refused is left out. -/
def instruction (env : Setting) (l : Line) (plan : Plan) (s : Emission) (mnemonic : String)
    (shape : Shape) (operand : Option Expr) : Emission × List UInt8 :=
  match plan with
  | .noInstruction => (s, [])
  | plan =>
    match choice plan mnemonic shape operand with
    | .error e => (s.report env l.number l.column (.noInstruction e), [])
    | .ok c =>
      match operand with
      | none => s.chosen env l c shape none
      | some e =>
        match s.value env l e with
        | (s, none) => (s.advance c.opcode.size, [])
        | (s, some v) => s.chosen env l c shape (some v)

/-- What a macro sees. -/
def context (env : Setting) (s : Emission) : Macro.Context :=
  ⟨s.origin, s.address, env.symbols⟩

/-- An expansion has to move the cursor as far as in the first pass. -/
def checkSize (env : Setting) (l : Line) (plan : Plan) (name : String) (begin : Nat) (s : Emission) :
    Emission :=
  match plan with
  | .expansion size _ =>
    if distance begin s.cursor = size then s
    else
      s.report env l.number l.column (.sizeChanged name (byteCount (distance begin s.cursor)) (byteCount size))
  | _ => s

/-- Writes a line and answers with its bytes; `levels` is how much deeper macros may nest. -/
def line (env : Setting) (levels : Nat) (s : Emission) (plan : Plan) (l : Line) :
    Emission × List UInt8 :=
  let s := match l.label with
    | some name => s.label env name l.number
    | none => s
  match l.statement with
  | none => (s, [])
  | some (.origin e) => (s.setOrigin env l e, [])
  | some (.equate _ _) => (s, [])
  | some (.bytes items) =>
    let (s, bs) := s.collect (item env l) items
    s.write env l bs
  | some (.words items) =>
    let (s, bs) := s.collect (word env l) items
    s.write env l bs
  | some (.instruction mnemonic shape operand) => s.instruction env l plan mnemonic shape operand
  | some (.invocation name arguments) =>
    let begin := s.cursor
    let (s, bs) :=
      match env.registry.expand name arguments (s.context env) .second with
      | .error e => (s.report env l.number l.column (.expansion e), [])
      | .ok .nothing => (s, [])
      | .ok (.bytes bs) => s.write env l bs
      | .ok (.source text) =>
        match levels with
        | 0 => (s.report env l.number l.column (.tooDeep name env.limit), [])
        | levels + 1 =>
          let (s, _, parts) := (Lines.split text.toList).foldl (fun (s, i, parts) text =>
            match Line.read text l.number with
            | .ok inner =>
              let (s, bs) := line env levels s (plan.line i) inner
              (s, i + 1, bs :: parts)
            | .error e =>
              (s.report env l.number l.column (.unreadableExpansion name e.cause), i + 1, parts))
            (s, 0, [])
          (s, parts.reverse.flatten)
    (s.checkSize env l plan name begin, bs)

/-- A line of source: its text and what was read from it. -/
abbrev SourceLine := List Char × Except LineError Line

/-- Writes a line of source and adds it to the listing. -/
def sourceLine (env : Setting) (s : Emission) (listing : Array ListingLine) (plan : Plan) :
    SourceLine → Emission × Array ListingLine
  | (_, .error e) => (s.report env e.line e.column (.unreadable e.cause), listing)
  | (text, .ok l) =>
    let begin := cursorAddress? s.cursor
    let (s, bs) := s.line env env.limit plan l
    (s, listing.push ⟨l.number, begin, bs, String.ofList (Blank.trimEnd text)⟩)

/-- Writes the lines of a source with their plans, in order. -/
def run (env : Setting) (lines : List (SourceLine × Plan)) : Emission × Listing :=
  let (s, listing) := lines.foldl (fun (s, listing) (l, plan) => s.sourceLine env listing plan l) (start, #[])
  (s, ⟨listing.toList⟩)

end Emission

end Mos6502.Assembly
