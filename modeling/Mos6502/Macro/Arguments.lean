import Mos6502.Text.Blank

/-!
# Macro arguments

The text after a macro's name is split at its commas. A comma between quotes
does not split, and between quotes a backslash takes the next character along.
Every argument is trimmed. A blank text has no arguments.
-/
namespace Mos6502.Macro

/-- Where a text stands with regard to quotes. -/
inductive Quoting
  | outside
  | inside (quote : Char)
  /-- Right after a backslash. -/
  | escaped (quote : Char)
deriving DecidableEq

/-- The state after one more character. -/
def Quoting.step : Quoting → Char → Quoting
  | outside, c => if c = '"' ∨ c = '\'' then inside c else outside
  | inside q, c => if c = '\\' then escaped q else if c = q then outside else inside q
  | escaped q, _ => inside q

/-- The pieces between the commas outside quotes; `piece` is the current one, in reverse, and `pieces`
those before it, last first. -/
def splitFrom (pieces : List (List Char)) (piece : List Char) (state : Quoting) :
    List Char → List (List Char)
  | [] => (piece.reverse :: pieces).reverse
  | c :: cs =>
    if c = ',' ∧ state = .outside then splitFrom (piece.reverse :: pieces) [] .outside cs
    else splitFrom pieces (c :: piece) (state.step c) cs

/-- The arguments in a text. -/
def splitArguments (text : String) : List String :=
  let cs := text.toList
  if (Blank.trim cs).isEmpty then []
  else (splitFrom [] [] .outside cs).map fun piece => String.ofList (Blank.trim piece)

end Mos6502.Macro
