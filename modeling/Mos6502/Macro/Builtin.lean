import Mos6502.Macro.Basic
import Mos6502.Text.Numeral

/-!
# Built-in macros

Tables and strings of data. Each of them answers with bytes. A table of words
takes labels too; in the first pass a label without a value counts as zero, so
both passes give the same number of bytes.
-/
namespace Mos6502.Macro.Builtin

/-! ## Reading arguments -/

/-- A number with an optional sign: `$` or `0x` before hexadecimal, `%` before binary and `@` before
octal digits, otherwise decimal. A second sign may stand before the digits, which have to fit in a signed
number of 64 bits. Two minus signs before the least of them lead just out of that range. -/
def number? (text : String) : Option Int :=
  let unsigned (cs : List Char) : Option Int :=
    match cs with
    | '$' :: ds => Numeral.signed? 16 64 ds
    | '0' :: 'x' :: ds => Numeral.signed? 16 64 ds
    | '0' :: 'X' :: ds => Numeral.signed? 16 64 ds
    | '%' :: ds => Numeral.signed? 2 64 ds
    | '@' :: ds => Numeral.signed? 8 64 ds
    | ds => Numeral.signed? 10 64 ds
  match Blank.trim text.toList with
  | '-' :: cs => (unsigned cs).map (- ·)
  | cs => unsigned cs

def byte (text : String) : Except String UInt8 :=
  match number? text with
  | none => .error s!"cannot parse byte value: {text}"
  | some n =>
    if 0 ≤ n ∧ n ≤ 0xFF then .ok (UInt8.ofInt n) else .error s!"byte value out of range: {text}"

/-- Letters, digits and underscores only. -/
def isWord (text : String) : Bool :=
  text.toList.all fun c => c.isAlphanum || c == '_'

/-- The value of a label or a number. -/
def address (argument : String) (context : Context) (pass : Pass) : Except String Int :=
  match context.symbols.address? argument with
  | some a => .ok a.toNat
  | none =>
    match number? argument with
    | some n => .ok n
    | none =>
      if pass = .first ∧ isWord argument then .ok 0
      else .error s!"cannot resolve label: {argument}"

/-- The text between quotes of one kind, or the whole text. -/
def withoutQuotes (cs : List Char) : List Char :=
  match cs with
  | q :: c :: rest =>
    if (q = '"' ∨ q = '\'') ∧ (c :: rest).getLast? = some q then (c :: rest).dropLast else cs
  | _ => cs

/-- The byte for a character after a backslash. -/
def escape? (nul : Bool) : Char → Option UInt8
  | 'n' => some 10
  | 'r' => some 13
  | 't' => some 9
  | '\\' => some 92
  | '0' => if nul then some 0 else none
  | _ => none

/-- The bytes of a character in UTF-8. -/
def utf8 (c : Char) : List UInt8 :=
  (String.singleton c).toUTF8.toList

/-- The bytes of a text with its escapes. A backslash before any other character stands for itself.
`out` is in reverse. -/
def unescape (nul : Bool) (out : List UInt8) : List Char → List UInt8
  | [] => out.reverse
  | [c] => ((utf8 c).reverse ++ out).reverse
  | c :: d :: cs =>
    match if c = '\\' then escape? nul d else none with
    | some b => unescape nul (b :: out) cs
    | none => unescape nul ((utf8 c).reverse ++ out) (d :: cs)

/-- The bytes of a string argument; `nul` allows the escape for zero. -/
def stringBytes (nul : Bool) (argument : String) : List UInt8 :=
  unescape nul [] (withoutQuotes argument.toList)

/-- The first argument. -/
def first (name : String) : List String → Except String String
  | [] => .error s!"{name} requires an argument"
  | a :: _ => .ok a

/-! ## Handlers -/

/-- A string and a zero. -/
def textString : Handler := fun args _ _ => do
  let text ← first "text_string" args
  .ok (.bytes (stringBytes true text ++ [0]))

/-- The length of a string and the string. -/
def pascalString : Handler := fun args _ _ => do
  let text ← first "pascal_string" args
  let bs := stringBytes false text
  if bs.length ≤ 0xFF then .ok (.bytes (UInt8.ofNat bs.length :: bs))
  else .error s!"string too long ({bs.length} bytes)"

def byteTable : Handler := fun args _ _ => do
  let _ ← first "byte_table" args
  let bs ← args.mapM byte
  .ok (.bytes bs)

/-- The low sixteen bits, low byte first. -/
def wordBytes (n : Int) : List UInt8 :=
  [UInt8.ofInt n, UInt8.ofInt (n / 256)]

def wordTable : Handler := fun args context pass => do
  let _ ← first "word_table" args
  let values ← args.mapM (address · context pass)
  .ok (.bytes (values.flatMap wordBytes))

/-- Addresses less one, as a return from subroutine expects them. -/
def jumpTable : Handler := fun args context pass => do
  let _ ← first "jump_table" args
  let values ← args.mapM (address · context pass)
  .ok (.bytes (values.flatMap fun n => wordBytes (n - 1)))

def repeatByte : Handler := fun args _ _ =>
  match args with
  | [value, count] => do
    let b ← byte value
    match number? count with
    | some (.ofNat n) => .ok (.bytes (List.replicate n b))
    | _ => .error s!"invalid repeat count: {count}"
  | _ => .error "repeat_byte requires value and count"

/-- A byte in hexadecimal, with or without `$`. -/
def hexByte (argument : String) : Except String UInt8 :=
  let digits := match argument.toList with
    | '$' :: ds => ds
    | ds => ds
  match Numeral.natural? 16 0xFF digits with
  | some n => .ok (UInt8.ofNat n)
  | none => .error s!"invalid hex byte: {argument}"

def rawHex : Handler := fun args _ _ => do
  let _ ← first "raw_hex" args
  let bs ← args.mapM hexByte
  .ok (.bytes bs)

/-- Half a turn in radians. -/
def pi : Float := 3.141592653589793

/-- One period of a wave between -1 and 1, scaled to a byte. -/
def sample (wave : Float → Float) (count i : Nat) : UInt8 :=
  let angle := i.toFloat / count.toFloat * 2.0 * pi
  ((wave angle + 1.0) * 127.5).toUInt8

def waveTable (wave : Float → Float) : Handler := fun args _ _ =>
  let count : Except String Nat :=
    match args with
    | [] => .ok 256
    | a :: _ =>
      match number? a with
      | some (.ofNat n) => .ok n
      | _ => .error s!"invalid table size: {a}"
  count.map fun n => .bytes ((List.range n).map (sample wave n))

end Mos6502.Macro.Builtin

namespace Mos6502.Macro

/-- The built-in macros, with two waves for the sine and the cosine. -/
def Registry.ofWaves (sine cosine : Float → Float) : Registry :=
  ⟨[("text_string", Builtin.textString),
    ("pascal_string", Builtin.pascalString),
    ("byte_table", Builtin.byteTable),
    ("word_table", Builtin.wordTable),
    ("jump_table", Builtin.jumpTable),
    ("repeat_byte", Builtin.repeatByte),
    ("raw_hex", Builtin.rawHex),
    ("sine_table", Builtin.waveTable sine),
    ("cosine_table", Builtin.waveTable cosine)]⟩

/-- The built-in macros. -/
def Registry.builtin : Registry :=
  .ofWaves Float.sin Float.cos

end Mos6502.Macro
