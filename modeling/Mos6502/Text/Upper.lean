/-!
# Letter case

Names in assembly text are compared without regard to the case of ASCII
letters. Other characters have no case here.
-/
namespace Mos6502.Text

/-- ASCII letters in upper case. -/
def upper (s : String) : String :=
  String.ofList (s.toList.map Char.toUpper)

/-- Equal up to the case of ASCII letters. -/
def sameLetters (s t : String) : Bool :=
  upper s == upper t

end Mos6502.Text
