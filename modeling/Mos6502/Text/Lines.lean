/-!
# Lines of text

A line ends at a line feed, and a carriage return right before the line feed
belongs to the ending. A carriage return elsewhere is an ordinary character.
An empty piece after the last line feed is no line.
-/
namespace Mos6502.Lines

/-- The pieces between line feeds; one more piece than line feeds. -/
def pieces (cs : List Char) : List (List Char) :=
  cs.foldr (fun c ps =>
    if c = '\n' then [] :: ps
    else match ps with
      | [] => [[c]]
      | p :: ps => (c :: p) :: ps) [[]]

/-- The text without one carriage return at its end. -/
def dropReturn (cs : List Char) : List Char :=
  if cs.getLast? = some '\r' then cs.dropLast else cs

/-- The lines of a text. -/
def split (cs : List Char) : List (List Char) :=
  let ps := pieces cs
  ps.dropLast.map dropReturn ++ ps.getLast?.toList.filter (!·.isEmpty)

end Mos6502.Lines
