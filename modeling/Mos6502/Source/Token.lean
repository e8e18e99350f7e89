import Mos6502.Text.Lower
import Mos6502.Text.Quoted

/-!
# Tokens

The words and signs of assembly text, each with the place it was read at.
Columns and lengths count bytes of UTF-8.
-/
namespace Mos6502

/-- What a token stands for. -/
inductive Lexeme
  /-- A mnemonic, label or directive, spelled as in the text. -/
  | identifier (name : String)
  | decimal (n : UInt16)
  | hex (n : UInt16)
  | binary (n : UInt16)
  /-- `'c'` -/
  | character (b : UInt8)
  /-- The bytes between double quotes. -/
  | string (bytes : List UInt8)
  /-- `@name` and the rest of the line up to a comment. -/
  | invocation (name arguments : String)
  | colon
  | comma
  | hash
  | equal
  | leftParen
  | rightParen
  | dot
  | plus
  | minus
  | less
  | greater
  | star
  /-- Spaces and tabs. -/
  | blank
  | newline
  /-- The text after a semicolon. -/
  | comment (text : String)
  | endOfText
deriving DecidableEq

namespace Lexeme

/-- The sign that a single character stands for. -/
def ofSign? : Char → Option Lexeme
  | ':' => some colon
  | ',' => some comma
  | '#' => some hash
  | '=' => some equal
  | '(' => some leftParen
  | ')' => some rightParen
  | '.' => some dot
  | '+' => some plus
  | '-' => some minus
  | '<' => some less
  | '>' => some greater
  | '*' => some star
  | _ => none

/-- Nothing of the statement follows: a comment, a new line or the end. -/
def endsLine : Lexeme → Bool
  | newline | comment _ | endOfText => true
  | _ => false

/-- How messages name what was found. -/
def describe : Lexeme → String
  | identifier name => s!"'{name}'"
  | decimal n => s!"decimalnumber({n.toNat})"
  | hex n => s!"hexnumber({n.toNat})"
  | binary n => s!"binarynumber({n.toNat})"
  | character b => s!"charliteral({b.toNat})"
  | string _ => "string"
  | invocation name arguments =>
    Lower.text s!"macrocall \x7b name: {Quoted.text name}, args: {Quoted.text arguments} \x7d"
  | colon => "colon"
  | comma => "comma"
  | hash => "hash"
  | equal => "equal"
  | leftParen => "lparen"
  | rightParen => "rparen"
  | dot => "dot"
  | plus => "plus"
  | minus => "minus"
  | less => "less"
  | greater => "greater"
  | star => "star"
  | blank => "whitespace"
  | newline | comment _ | endOfText => "end of line"

end Lexeme

structure Token where
  lexeme : Lexeme
  line : Nat
  /-- Bytes between the start of the line and the token. -/
  column : Nat
  length : Nat
deriving DecidableEq

end Mos6502
