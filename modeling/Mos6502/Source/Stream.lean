import Mos6502.Source.Token

/-!
# Token streams

A list of tokens read from the front. The last token is kept, because a
place past the end is reported as the place of that token.
-/
namespace Mos6502

structure TokenStream where
  rest : List Token
  /-- The last token of the whole list. -/
  last : Option Token

namespace TokenStream

def ofList (tokens : List Token) : TokenStream :=
  ⟨tokens, tokens.getLast?⟩

/-- The token `n` places ahead. -/
def peek? (s : TokenStream) (n : Nat) : Option Token :=
  s.rest[n]?

/-- What the next token stands for. -/
def lexeme (s : TokenStream) : Lexeme :=
  match s.rest with
  | [] => .endOfText
  | t :: _ => t.lexeme

def isEmpty (s : TokenStream) : Bool :=
  s.rest.isEmpty

/-- The stream after the next token. -/
def advance (s : TokenStream) : TokenStream :=
  { s with rest := s.rest.tail }

/-- The stream from the first token on that is no space. -/
def skipBlanks (s : TokenStream) : TokenStream :=
  { s with rest := s.rest.dropWhile (·.lexeme = .blank) }

/-- Only spaces stand before a comment, a new line or the end. -/
def atLineEnd (s : TokenStream) : Bool :=
  s.skipBlanks.lexeme.endsLine

def atEnd (s : TokenStream) : Bool :=
  s.lexeme = .endOfText

/-- Line and column of the next token. -/
def location (s : TokenStream) : Nat × Nat :=
  match s.rest.head? <|> s.last with
  | some t => (t.line, t.column)
  | none => (0, 0)

end TokenStream

end Mos6502
