import Mos6502.Text.Hex
import Mos6502.Text.Lower
import Mos6502.Text.Printable

/-!
# Quoted text

A text between double quotes. The quote and the backslash are written after a
backslash, tab, line feed, carriage return and the zero character as letters
after one, and every other character without a glyph by its code point.
-/
namespace Mos6502.Quoted

/-- One character between quotes. -/
def escape (c : Char) : List Char :=
  match c with
  | '"' => ['\\', '"']
  | '\\' => ['\\', '\\']
  | '\t' => ['\\', 't']
  | '\n' => ['\\', 'n']
  | '\r' => ['\\', 'r']
  | c =>
    if c.toNat = 0 then ['\\', '0']
    else if isPrintable c then [c]
    else ['\\', 'u', '\x7b'] ++ Lower.chars [] [] (Hex.digits c.toNat) ++ ['\x7d']

/-- The text between quotes. -/
def text (s : String) : String :=
  String.ofList ('"' :: (s.toList.flatMap escape ++ ['"']))

end Mos6502.Quoted
