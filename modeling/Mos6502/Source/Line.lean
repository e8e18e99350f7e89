import Mos6502.Isa.Operand
import Mos6502.Source.Expr.Parser
import Mos6502.Source.Label
import Mos6502.Source.Lexer
import Mos6502.Text.Lines

/-!
# Source lines

A line holds an optional label and an optional statement; a comment may follow.
Each line is read on its own, so a fault in one leaves its neighbours alone.
-/
namespace Mos6502

/-- One item of a list of data bytes. -/
inductive DataItem
  | value (e : Expr)
  | text (bytes : List UInt8)
deriving DecidableEq

inductive Statement
  | instruction (mnemonic : String) (shape : Shape) (operand : Option Expr)
  /-- `ORG` -/
  | origin (e : Expr)
  /-- `DB` or `BYTE` -/
  | bytes (items : List DataItem)
  /-- `DW` or `WORD` -/
  | words (items : List Expr)
  /-- `name = value` or `name EQU value` -/
  | equate (name : String) (e : Expr)
  /-- `@name arguments` -/
  | invocation (name arguments : String)
deriving DecidableEq

structure Line where
  number : Nat
  label : Option String
  statement : Option Statement
  /-- Where the statement starts. -/
  column : Nat
deriving DecidableEq

/-- What the text should have gone on with. -/
inductive Expected
  | expression
  | endOfLine
  | directiveName
  | statement
  | closingParen
  | indexX
  | indexY
  | index
  | forceSuffix
deriving DecidableEq

def Expected.describe : Expected → String
  | expression => "expression"
  | endOfLine => "end of line"
  | directiveName => "directive name"
  | statement => "instruction, directive or label"
  | closingParen => "')'"
  | indexX => "X"
  | indexY => "Y"
  | index => "X or Y"
  | forceSuffix => "'a' after '.'"

/-- Why a line cannot be read. -/
inductive LineCause
  | lexical (cause : LexCause)
  | unexpected (expected : Expected) (found : Lexeme)
  | unknownDirective (name : String)
  | label (e : LabelError)
deriving DecidableEq

def LineCause.message : LineCause → String
  | lexical cause => cause.message
  | unexpected expected found => s!"expected {expected.describe}, found {found.describe}"
  | unknownDirective name => s!"unknown directive '.{name}'"
  | label e => e.message

structure LineError where
  cause : LineCause
  line : Nat
  column : Nat
deriving DecidableEq

namespace Line

/-- A fault and the column it is shown at. -/
structure Fault where
  cause : LineCause
  column : Nat

/-- A reader takes tokens from a stream and gives a value and the stream after it. -/
abbrev Reader (α : Type) := TokenStream → Except Fault (α × TokenStream)

/-! ## Pieces of a statement -/

/-- A fault at the next token. -/
def fault {α : Type} (s : TokenStream) (cause : LineCause) : Except Fault α :=
  .error ⟨cause, s.location.2⟩

/-- Something else should stand at the next token. -/
def unexpected {α : Type} (s : TokenStream) (expected : Expected) : Except Fault α :=
  fault s (.unexpected expected s.lexeme)

def expression : Reader Expr := fun s =>
  match Expr.read s.rest with
  | .ok (e, rest) => .ok (e, { s with rest })
  | .error rest => unexpected { s with rest } .expression

/-- The stream after a comma, if one follows. -/
def comma? (s : TokenStream) : Option TokenStream :=
  let s := s.skipBlanks
  if s.lexeme = .comma then some s.advance else none

/-- The index register that follows. -/
def index? (s : TokenStream) : Option (Index × TokenStream) :=
  let s := s.skipBlanks
  match s.lexeme with
  | .identifier name =>
    if Text.sameLetters name "X" then some (.x, s.advance)
    else if Text.sameLetters name "Y" then some (.y, s.advance)
    else none
  | _ => none

/-- Passes the closing parenthesis. -/
def closeParen (s : TokenStream) : Except Fault TokenStream :=
  let s := s.skipBlanks
  if s.lexeme = .rightParen then .ok s.advance else unexpected s .closingParen

/-- Passes the named index register. A wrong register is passed too before the fault is shown. -/
def requireIndex (index : Index) (expected : Expected) (s : TokenStream) : Except Fault TokenStream :=
  match index? s with
  | some (found, s) => if found = index then .ok s else unexpected s expected
  | none => unexpected s.skipBlanks expected

/-- A value of a list after another: a comma and the value, as often as they follow. -/
def listFrom {α : Type} (item : Reader α) : Nat → List α → Reader (List α)
  | 0, items, s => .ok (items.reverse, s)
  | n + 1, items, s =>
    match comma? s with
    | none => .ok (items.reverse, s.skipBlanks)
    | some s => do
      let (i, s) ← item s
      listFrom item n (i :: items) s

/-- One or more values with commas between them. -/
def list {α : Type} (item : Reader α) : Reader (List α) := fun s => do
  let (i, s) ← item s
  listFrom item s.rest.length [i] s

/-- One item of a list of data bytes. -/
def dataItem : Reader DataItem := fun s =>
  match s.skipBlanks.lexeme with
  | .string bytes => .ok (.text bytes, s.skipBlanks.advance)
  | _ => do
    let (e, s) ← expression s
    .ok (.value e, s)

/-! ## Operands -/

/-- The suffix `.a`, right at the next token. -/
def forceSuffix : Reader Bool := fun s =>
  if s.lexeme = .dot then
    match s.advance.lexeme with
    | .identifier name =>
      if Text.sameLetters name "a" then .ok (true, s.advance.advance)
      else unexpected s.advance .forceSuffix
    | _ => unexpected s.advance .forceSuffix
  else .ok (false, s)

def directOperand : Reader (Shape × Option Expr) := fun s => do
  let (e, s) ← expression s
  let (forced, s) ← forceSuffix s
  match comma? s with
  | none => .ok ((.direct none forced, some e), s.skipBlanks)
  | some s =>
    match index? s with
    | some (index, s) => .ok ((.direct (some index) forced, some e), s)
    | none => unexpected s.skipBlanks .index

/-- The operand after an opening parenthesis. -/
def indirectOperand : Reader (Shape × Option Expr) := fun s => do
  let (e, s) ← expression s
  match comma? s with
  | some s =>
    let s ← requireIndex .x .indexX s
    let s ← closeParen s
    .ok ((.indirectX, some e), s)
  | none =>
    let s ← closeParen s
    match comma? s with
    | some s =>
      let s ← requireIndex .y .indexY s
      .ok ((.indirectY, some e), s)
    | none => .ok ((.indirect, some e), s.skipBlanks)

/-- The letter `A` with nothing attached to it stands for the accumulator. -/
def isAccumulator (s : TokenStream) : Bool :=
  match s.lexeme, s.advance.lexeme with
  | .identifier name, after => Text.sameLetters name "A" && (after = .blank || after.endsLine)
  | _, _ => false

def operand : Reader (Shape × Option Expr) := fun s =>
  let s := s.skipBlanks
  if s.lexeme.endsLine then .ok ((.none, none), s)
  else if isAccumulator s then .ok ((.accumulator, none), s.advance)
  else if s.lexeme = .hash then do
    let (e, s) ← expression s.advance
    .ok ((.immediate, some e), s)
  else if s.lexeme = .leftParen then indirectOperand s.advance
  else directOperand s

/-! ## Statements -/

/-- The statement of a directive, or nothing if the word is none. -/
def directive? (keyword : String) (s : TokenStream) : Option (Except Fault (Statement × TokenStream)) :=
  match Text.upper keyword with
  | "ORG" => some do
    let (e, s) ← expression s
    .ok (.origin e, s)
  | "DB" | "BYTE" => some do
    let (items, s) ← list dataItem s
    .ok (.bytes items, s)
  | "DW" | "WORD" => some do
    let (items, s) ← list expression s
    .ok (.words items, s)
  | _ => none

/-- The stream after `=` or `EQU`, if one follows. -/
def equals? (s : TokenStream) : Option TokenStream :=
  let s := s.skipBlanks
  match s.lexeme with
  | .equal => some s.advance
  | .identifier name => if Text.sameLetters name "EQU" then some s.advance else none
  | _ => none

/-- The statement that starts with a word. -/
def wordStatement (word : String) : Reader Statement := fun s =>
  match equals? s with
  | some s =>
    match checkLabel word with
    | .error e => fault s (.label e)
    | .ok _ => do
      let (e, s) ← expression s
      .ok (.equate word e, s)
  | none =>
    match directive? word s.skipBlanks with
    | some result => result
    | none => do
      let ((shape, e), s) ← operand s
      .ok (.instruction word shape e, s)

/-- The statement that starts with a dot. -/
def dotStatement : Reader Statement := fun s =>
  match s.lexeme with
  | .identifier keyword =>
    match directive? keyword s.advance with
    | some result => result
    | none => fault s.advance (.unknownDirective keyword)
  | _ => unexpected s .directiveName

def statementPart : Reader Statement := fun s =>
  match s.lexeme with
  | .invocation name arguments => .ok (.invocation name arguments, s.advance)
  | .dot => dotStatement s.advance
  | .identifier word => wordStatement word s.advance
  | _ => unexpected s .statement

/-! ## Lines -/

/-- The label at the start of a line. -/
def labelPart : Reader (Option String) := fun s =>
  match s.lexeme, s.advance.lexeme with
  | .identifier name, .colon =>
    match checkLabel name with
    | .error e => fault s (.label e)
    | .ok _ => .ok (some name, s.advance.advance)
  | _, _ => .ok (none, s)

/-- The line that the tokens form. -/
def ofTokens (number : Nat) (tokens : List Token) : Except Fault Line := do
  let (label, s) ← labelPart (TokenStream.ofList tokens).skipBlanks
  let s := s.skipBlanks
  if s.atLineEnd then .ok ⟨number, label, none, s.location.2⟩
  else
    let (st, rest) ← statementPart s
    let rest := rest.skipBlanks
    if rest.atLineEnd then .ok ⟨number, label, some st, s.location.2⟩
    else unexpected rest .endOfLine

/-- Reads one line of text. Of several lexical faults the first is shown. -/
def read (text : List Char) (number : Nat) : Except LineError Line :=
  match Token.scan text number with
  | (_, e :: _) => .error ⟨.lexical e.cause, e.line, e.column⟩
  | (tokens, []) =>
    match ofTokens number tokens with
    | .ok line => .ok line
    | .error f => .error ⟨f.cause, number, f.column⟩

/-- Reads every line of a text; the first has the given number. -/
def readAll (text : List Char) (firstLine : Nat) : List (Except LineError Line) :=
  (Lines.split text).mapIdx fun i line => read line (firstLine + i)

end Line

end Mos6502
