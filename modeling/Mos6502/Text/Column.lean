/-!
# Columns of text

Padding to a width counted in characters. A text already as wide is left alone.
-/
namespace Mos6502.Column

/-- Spaces after the text. -/
def left (width : Nat) (text : String) : String :=
  text ++ String.ofList (List.replicate (width - text.length) ' ')

/-- Spaces before the text. -/
def right (width : Nat) (text : String) : String :=
  String.ofList (List.replicate (width - text.length) ' ') ++ text

end Mos6502.Column
