import Mos6502.Text.Hex

/-!
# Text for a terminal

A message may quote a file, and a file may hold characters that steer a terminal.
Those are written as escapes: escape, bell, backspace, form feed and delete by
two digits after `\x`, and the controls from U+0080 to U+009F by their code point
between braces. The other characters stay as they are, the backslash too.
-/
namespace Mos6502.Terminal

/-- The digits of a code point in lower case. -/
def lowerHex (n : Nat) : List Char :=
  (Hex.digits n).map Char.toLower

/-- Escape, bell, backspace, form feed and delete. -/
def isSteering (c : Char) : Bool :=
  [0x1B, 0x07, 0x08, 0x0C, 0x7F].contains c.toNat

/-- A control of the second set. -/
def isLateControl (c : Char) : Bool :=
  0x80 ≤ c.toNat && c.toNat ≤ 0x9F

/-- One character of a message. -/
def escape (c : Char) : List Char :=
  if isSteering c then
    ['\\', 'x'] ++ (if c.toNat < 0x10 then ['0'] else []) ++ lowerHex c.toNat
  else if isLateControl c then ['\\', 'u', '\x7b'] ++ lowerHex c.toNat ++ ['\x7d']
  else [c]

/-- The text without characters that steer a terminal. -/
def text (s : String) : String :=
  String.ofList (s.toList.flatMap escape)

end Mos6502.Terminal
