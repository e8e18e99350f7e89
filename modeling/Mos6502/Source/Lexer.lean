import Mos6502.Source.Token
import Mos6502.Text.Blank
import Mos6502.Text.Numeral

/-!
# Reading tokens

A scan looks at the start of a text and splits it into the characters it takes
and the rest. Repeated scans give the tokens of a text. After a fault the text
is skipped up to the next blank, line end or comment, so that one pass reports
every fault.

Main statement: each step takes at least one character (`Scanner.next_lt`).
-/
namespace Mos6502

/-- Why a text is not a token. -/
inductive LexCause
  | badHexDigit (c : Char)
  | missingHexDigits
  | badBinaryDigit (c : Char)
  | tooLarge (numeral : String)
  | unterminatedString
  | badCharacter
  | missingName
  | unexpected (c : Char)
deriving DecidableEq

namespace LexCause

def message : LexCause → String
  | badHexDigit c => s!"invalid hex digit '{c}'"
  | missingHexDigits => "expected hex digits after '$'"
  | badBinaryDigit c => s!"invalid binary digit '{c}'"
  | tooLarge numeral => s!"number too large: {numeral} (max 65535)"
  | unterminatedString => "unterminated string literal"
  | badCharacter => "malformed character literal"
  | missingName => "expected macro name after '@'"
  | unexpected c => s!"unexpected character '{c}'"

/-- The fault is shown where the token starts, not where the scan stopped. -/
def atStart : LexCause → Bool
  | tooLarge _ | unterminatedString | badCharacter | unexpected _ => true
  | badHexDigit _ | missingHexDigits | badBinaryDigit _ | missingName => false

end LexCause

structure LexError where
  cause : LexCause
  line : Nat
  column : Nat
deriving DecidableEq

/-- Bytes of the characters in UTF-8. -/
def byteLength (cs : List Char) : Nat :=
  cs.foldl (fun n c => n + c.utf8Size) 0

/-! ## Scans -/

/-- What a scan found, the characters it took and the rest. -/
structure Scan where
  found : Except LexCause Lexeme
  taken : List Char
  rest : List Char

namespace Scan

/-- A letter, digit or underscore. -/
def isWordChar (c : Char) : Bool :=
  c.isAlphanum || c == '_'

/-- The character may start an identifier. -/
def isWordStart (c : Char) : Bool :=
  c.isAlpha || c == '_'

def isSpace (c : Char) : Bool :=
  c == ' ' || c == '\t'

def isLineEnd (c : Char) : Bool :=
  c == '\n' || c == '\r'

/-- A number, or the fault that it takes more than sixteen bits. -/
def sixteenBits (mark : String) (radix : Nat) (ds : List Char) (lexeme : UInt16 → Lexeme) :
    Except LexCause Lexeme :=
  match (Numeral.digits? radix ds).filter (· ≤ 0xFFFF) with
  | some n => .ok (lexeme (UInt16.ofNat n))
  | none => .error (.tooLarge (mark ++ String.ofList ds))

def hexadecimal (cs : List Char) : Scan :=
  let ds := cs.takeWhile (Numeral.isDigit 16)
  let rest := cs.dropWhile (Numeral.isDigit 16)
  let found := match rest.head?.filter isWordChar with
    | some c => .error (.badHexDigit c)
    | none => if ds.isEmpty then .error .missingHexDigits else sixteenBits "$" 16 ds .hex
  ⟨found, '$' :: ds, rest⟩

def binary (cs : List Char) : Scan :=
  let ds := cs.takeWhile (Numeral.isDigit 2)
  let rest := cs.dropWhile (Numeral.isDigit 2)
  let found := match rest.head?.filter Char.isDigit with
    | some c => .error (.badBinaryDigit c)
    | none => sixteenBits "%" 2 ds .binary
  ⟨found, '%' :: ds, rest⟩

def decimal (c : Char) (cs : List Char) : Scan :=
  let ds := c :: cs.takeWhile (Numeral.isDigit 10)
  ⟨sixteenBits "" 10 ds .decimal, ds, cs.dropWhile (Numeral.isDigit 10)⟩

def identifier (c : Char) (cs : List Char) : Scan :=
  let word := c :: cs.takeWhile isWordChar
  ⟨.ok (.identifier (String.ofList word)), word, cs.dropWhile isWordChar⟩

/-- The byte of a character up to U+00FF. -/
def latin1? (c : Char) : Option UInt8 :=
  if c.toNat ≤ 0xFF then some (UInt8.ofNat c.toNat) else none

/-- The byte that a character after a backslash stands for. -/
def escape? : Char → Option UInt8
  | 'n' => some 10
  | 'r' => some 13
  | 't' => some 9
  | '0' => some 0
  | c => latin1? c

/-- The bytes up to the closing quote. `taken` and `bytes` are in reverse. -/
def stringBody (taken : List Char) (bytes : List UInt8) : List Char → Scan
  | [] => ⟨.error .unterminatedString, taken.reverse, []⟩
  | '"' :: cs => ⟨.ok (.string bytes.reverse), ('"' :: taken).reverse, cs⟩
  | ['\\'] => ⟨.error .unterminatedString, ('\\' :: taken).reverse, []⟩
  | '\\' :: c :: cs =>
    match escape? c with
    | some b => stringBody (c :: '\\' :: taken) (b :: bytes) cs
    | none => ⟨.error .unterminatedString, (c :: '\\' :: taken).reverse, cs⟩
  | c :: cs =>
    if isLineEnd c then ⟨.error .unterminatedString, taken.reverse, c :: cs⟩
    else match latin1? c with
      | some b => stringBody (c :: taken) (b :: bytes) cs
      | none => ⟨.error .unterminatedString, (c :: taken).reverse, cs⟩

/-- The closing quote of a character. -/
def closeCharacter (taken : List Char) (b : Option UInt8) (cs : List Char) : Scan :=
  match b, cs with
  | some b, '\'' :: cs => ⟨.ok (.character b), taken ++ ['\''], cs⟩
  | _, cs => ⟨.error .badCharacter, taken, cs⟩

def character : List Char → Scan
  | [] => ⟨.error .badCharacter, ['\''], []⟩
  | ['\\'] => ⟨.error .badCharacter, ['\'', '\\'], []⟩
  | '\\' :: c :: cs => closeCharacter ['\'', '\\', c] (escape? c) cs
  | c :: cs =>
    if c = '\'' ∨ c = '\n' then ⟨.error .badCharacter, ['\''], c :: cs⟩
    else closeCharacter ['\'', c] (latin1? c) cs

/-- The arguments of an invocation: up to a line end, or a semicolon outside quotes. Returns them in
reverse, and the rest. -/
def arguments (taken : List Char) (quote : Option Char) : List Char → List Char × List Char
  | [] => (taken, [])
  | c :: cs =>
    if isLineEnd c then (taken, c :: cs)
    else match quote with
      | none =>
        if c = ';' then (taken, c :: cs)
        else arguments (c :: taken) (if c = '"' ∨ c = '\'' then some c else none) cs
      | some q => arguments (c :: taken) (if c = q then none else some q) cs

def invocation (cs : List Char) : Scan :=
  let name := cs.takeWhile isWordChar
  let afterName := cs.dropWhile isWordChar
  if name.isEmpty then ⟨.error .missingName, ['@'], afterName⟩
  else
    let (args, rest) := arguments [] none afterName
    let args := args.reverse
    ⟨.ok (.invocation (String.ofList name) (String.ofList (Blank.trim args))), '@' :: (name ++ args), rest⟩

def comment (cs : List Char) : Scan :=
  let text := cs.takeWhile (!isLineEnd ·)
  ⟨.ok (.comment (String.ofList text)), ';' :: text, cs.dropWhile (!isLineEnd ·)⟩

def spaces (c : Char) (cs : List Char) : Scan :=
  ⟨.ok .blank, c :: cs.takeWhile isSpace, cs.dropWhile isSpace⟩

/-- The scan of a text that starts with `c`. -/
def start (c : Char) (cs : List Char) : Scan :=
  match c, cs with
  | '\n', cs => ⟨.ok .newline, ['\n'], cs⟩
  | '\r', '\n' :: cs => ⟨.ok .newline, ['\r', '\n'], cs⟩
  | '\r', cs => ⟨.ok .newline, ['\r'], cs⟩
  | ';', cs => comment cs
  | '$', cs => hexadecimal cs
  | '%', cs => binary cs
  | '"', cs => stringBody ['"'] [] cs
  | '\'', cs => character cs
  | '@', cs => invocation cs
  | c, cs =>
    if isSpace c then spaces c cs
    else if c.isDigit then decimal c cs
    else if isWordStart c then identifier c cs
    else match Lexeme.ofSign? c with
      | some lexeme => ⟨.ok lexeme, [c], cs⟩
      | none => ⟨.error (.unexpected c), [], c :: cs⟩

/-- Where reading goes on after a fault. -/
def isResting (c : Char) : Bool :=
  isSpace c || isLineEnd c || c == ';'

theorem length_stringBody (taken : List Char) (bytes : List UInt8) (cs : List Char) :
    (stringBody taken bytes cs).rest.length ≤ cs.length := by
  fun_induction stringBody taken bytes cs <;> grind

theorem length_arguments (taken : List Char) (quote : Option Char) (cs : List Char) :
    (arguments taken quote cs).2.length ≤ cs.length := by
  fun_induction arguments taken quote cs <;> grind

theorem length_closeCharacter (taken : List Char) (b : Option UInt8) (cs : List Char) :
    (closeCharacter taken b cs).rest.length ≤ cs.length := by
  unfold closeCharacter
  split <;> grind

theorem length_character (cs : List Char) : (character cs).rest.length ≤ cs.length := by
  unfold character
  split
  · simp
  · simp
  · exact Nat.le_trans (length_closeCharacter _ _ _) (by simp only [List.length_cons]; omega)
  · split
    · simp
    · exact Nat.le_trans (length_closeCharacter _ _ _) (by simp)

theorem length_invocation (cs : List Char) : (invocation cs).rest.length ≤ cs.length := by
  unfold invocation
  have h := (List.dropWhile_suffix (l := cs) isWordChar).length_le
  dsimp only
  split
  · exact h
  · exact Nat.le_trans (length_arguments _ _ _) h

/-- A scan takes the first character, or stays on it and it is no place to rest. -/
theorem start_rest (c : Char) (cs : List Char) :
    (start c cs).rest.length ≤ cs.length ∨ ((start c cs).rest = c :: cs ∧
      (∃ e, (start c cs).found = .error e) ∧ isResting c = false) := by
  unfold start
  split
  · simp
  · simp
  · simp
  · exact .inl (List.dropWhile_suffix _).length_le
  · exact .inl (List.dropWhile_suffix _).length_le
  · exact .inl (List.dropWhile_suffix _).length_le
  · exact .inl (length_stringBody _ _ _)
  · exact .inl (length_character _)
  · exact .inl (length_invocation _)
  · split
    · exact .inl (List.dropWhile_suffix _).length_le
    split
    · exact .inl (List.dropWhile_suffix _).length_le
    split
    · exact .inl (List.dropWhile_suffix _).length_le
    split
    · simp
    · refine .inr ⟨rfl, ⟨_, rfl⟩, ?_⟩
      simp_all [isResting, isLineEnd]

end Scan

/-! ## All tokens of a text -/

/-- A place in the text. -/
structure Scanner where
  rest : List Char
  line : Nat
  column : Nat

namespace Scanner

/-- One token or fault, and the place after it. -/
def next (s : Scanner) : Option (Except LexError Token × Scanner) :=
  match s.rest with
  | [] => none
  | c :: cs =>
    let scan := Scan.start c cs
    let column := s.column + byteLength scan.taken
    match scan.found with
    | .ok .newline => some (.ok ⟨.newline, s.line, s.column, 1⟩, ⟨scan.rest, s.line + 1, 0⟩)
    | .ok lexeme => some (.ok ⟨lexeme, s.line, s.column, column - s.column⟩, ⟨scan.rest, s.line, column⟩)
    | .error cause =>
      let skipped := scan.rest.takeWhile (!Scan.isResting ·)
      some (.error ⟨cause, s.line, if cause.atStart then s.column else column⟩,
        ⟨scan.rest.dropWhile (!Scan.isResting ·), s.line, column + byteLength skipped⟩)

/-- Every step takes at least one character. -/
theorem next_lt {s s' : Scanner} {r : Except LexError Token} (h : s.next = some (r, s')) :
    s'.rest.length < s.rest.length := by
  unfold next at h
  split at h
  · cases h
  · rename_i c cs heq
    rw [heq]
    have hs := Scan.start_rest c cs
    dsimp only at h
    split at h
    · rcases hs with hs | ⟨-, ⟨e, he⟩, -⟩
      · cases h; simpa using Nat.lt_succ_of_le hs
      · simp_all
    · rcases hs with hs | ⟨-, ⟨e, he⟩, -⟩
      · cases h; simpa using Nat.lt_succ_of_le hs
      · simp_all
    · cases h
      dsimp only
      rcases hs with hs | ⟨hr, -, hc⟩
      · exact Nat.lt_succ_of_le (Nat.le_trans (List.dropWhile_suffix _).length_le hs)
      · rw [hr, List.dropWhile_cons_of_pos (by simp [hc])]
        exact Nat.lt_succ_of_le (List.dropWhile_suffix _).length_le

/-- Tokens and faults from a place on, added to those read before it. -/
def run (s : Scanner) (tokens : Array Token) (errors : Array LexError) :
    Array Token × Array LexError :=
  match _h : s.next with
  | none => (tokens.push ⟨.endOfText, s.line, s.column, 0⟩, errors)
  | some (.ok token, s') => run s' (tokens.push token) errors
  | some (.error e, s') => run s' tokens (errors.push e)
termination_by s.rest.length
decreasing_by all_goals exact next_lt _h

end Scanner

namespace Token

/-- The tokens and the faults of a text whose first line has the given number. -/
def scan (text : List Char) (firstLine : Nat) : List Token × List LexError :=
  let (tokens, errors) := Scanner.run ⟨text, firstLine, 0⟩ #[] #[]
  (tokens.toList, errors.toList)

/-- The tokens of a text without faults, or all its faults. -/
def read (text : List Char) (firstLine : Nat) : Except (List LexError) (List Token) :=
  match scan text firstLine with
  | (tokens, []) => .ok tokens
  | (_, errors) => .error errors

end Token

end Mos6502
