import Mos6502.Proofs.Basic
import Mos6502.Proofs.Lexing
import Mos6502.Source.Line

/-!
# Lines that are read as they were written

What the readers of a line do with a row of lexemes. A reader looks at lexemes
only, never at the places of tokens, so `Takes` and `Refuses` speak about rows of
lexemes. Operands are written by `Shape.text` around a `Term`, and the line of an
instruction gives that shape and that term back, unless the term is a word that
stands for `=` after a name.
-/
namespace Mos6502

namespace TokenStream

def lexemes (s : TokenStream) : List Lexeme :=
  s.rest.map (·.lexeme)

theorem lexeme_eq (s : TokenStream) : s.lexeme = s.lexemes.headD .endOfText := by
  unfold lexeme lexemes
  cases s.rest <;> rfl

@[simp] theorem lexemes_advance (s : TokenStream) : s.advance.lexemes = s.lexemes.tail :=
  List.map_tail

@[simp] theorem lexemes_skipBlanks (s : TokenStream) :
    s.skipBlanks.lexemes = s.lexemes.dropWhile (· = .blank) := by
  unfold skipBlanks lexemes
  rw [List.dropWhile_map]
  rfl

theorem lexeme_of {s : TokenStream} {x : Lexeme} {xs : List Lexeme} (h : s.lexemes = x :: xs) : s.lexeme = x := by
  rw [lexeme_eq, h]
  rfl

theorem lexemes_advance_of {s : TokenStream} {x : Lexeme} {xs : List Lexeme} (h : s.lexemes = x :: xs) :
    s.advance.lexemes = xs := by
  rw [lexemes_advance, h]
  rfl

theorem skipBlanks_of {s : TokenStream} {x : Lexeme} {xs : List Lexeme} (h : s.lexemes = x :: xs)
    (hx : x ≠ .blank) : s.skipBlanks = s := by
  obtain ⟨t, ts, hrest, rfl, -⟩ := List.map_eq_cons_iff.1 h
  unfold skipBlanks
  rw [hrest, List.dropWhile_cons_of_neg (by simp [hx]), ← hrest]

end TokenStream

open TokenStream

namespace Line

/-- From the first lexemes the reader takes its value and leaves the second ones. -/
def Takes {α : Type} (r : Reader α) (xs : List Lexeme) (v : α) (ys : List Lexeme) : Prop :=
  ∀ s, s.lexemes = xs → ∃ s', r s = .ok (v, s') ∧ s'.lexemes = ys

/-- The reader finds a fault in the lexemes. -/
def Refuses {α : Type} (r : Reader α) (xs : List Lexeme) : Prop :=
  ∀ s, s.lexemes = xs → ∃ f, r s = .error f

/-! ## Expressions -/

/-- An expression does not go on here. -/
def Closes (xs : List Lexeme) : Prop :=
  ∀ x ∈ xs.head?, x ≠ .blank ∧ Expr.join? x = none

theorem closes_cons {x : Lexeme} {xs : List Lexeme} (hblank : x ≠ .blank) (hjoin : Expr.join? x = none) :
    Closes (x :: xs) := by
  rintro _ ⟨⟩
  exact ⟨hblank, hjoin⟩

theorem dropWhile_of_head {ts : List Token} (h : ∀ x ∈ (ts.map (·.lexeme)).head?, x ≠ .blank) :
    ts.dropWhile (·.lexeme = .blank) = ts := by
  cases ts with
  | nil => rfl
  | cons t ts => simp [h t.lexeme rfl]

theorem readSum_of_closes {ts : List Token} (h : Closes (ts.map (·.lexeme))) (e : Expr) :
    Expr.readSum e ts = .ok (e, ts) := by
  unfold Expr.readSum
  rw [dropWhile_of_head fun x hx => (h x hx).1]
  cases ts with
  | nil => rfl
  | cons t ts => simp [(h t.lexeme rfl).2]

/-- A lexeme that is a term is neither a space nor a sign before a term. -/
theorem term_lexeme {x : Lexeme} {e : Expr} (h : Expr.ofLexeme? x = some e) :
    x ≠ .blank ∧ x ≠ .minus ∧ Expr.select? x = none := by
  cases x with
  | identifier | decimal | hex | binary | character | star => exact ⟨nofun, nofun, rfl⟩
  | _ => cases h

/-- A term is read as an expression, after any spaces. -/
theorem takes_spaced {x : Lexeme} {e : Expr} {xs ys : List Lexeme} (hx : Expr.ofLexeme? x = some e)
    (hxs : xs.dropWhile (· = .blank) = x :: ys) (hys : Closes ys) : Takes expression xs e ys := by
  rintro s rfl
  rw [← lexemes_skipBlanks] at hxs
  obtain ⟨t, ts, hrest, rfl, rfl⟩ := List.map_eq_cons_iff.1 hxs
  obtain ⟨hblank, hminus, hselect⟩ := term_lexeme hx
  have hterm : Expr.readTerm (t :: ts) = .ok (e, ts) := by
    simp [Expr.readTerm, hx]
  have hread : Expr.read s.rest = .ok (e, ts) := by
    simp only [skipBlanks] at hrest
    simp [Expr.read, hrest, hselect, Expr.readPlain, hterm, readSum_of_closes hys, bind, Except.bind]
  exact ⟨{ s with rest := ts }, by simp [expression, hread], rfl⟩

theorem takes_expression {x : Lexeme} {e : Expr} {xs : List Lexeme} (hx : Expr.ofLexeme? x = some e)
    (hxs : Closes xs) : Takes expression (x :: xs) e xs :=
  takes_spaced hx (List.dropWhile_cons_of_neg (by simp [(term_lexeme hx).1])) hxs

theorem refuses_expression {x : Lexeme} {xs : List Lexeme} (hx : Expr.ofLexeme? x = none)
    (hsign : x ≠ .blank ∧ x ≠ .minus ∧ Expr.select? x = none) : Refuses expression (x :: xs) := by
  intro s hs
  obtain ⟨t, ts, hrest, rfl, rfl⟩ := List.map_eq_cons_iff.1 hs
  obtain ⟨hblank, hminus, hselect⟩ := hsign
  have hterm : Expr.readTerm (t :: ts) = .error (t :: ts) := by
    simp [Expr.readTerm, hx]
  simp [expression, hrest, Expr.read, hblank, hselect, Expr.readPlain, hterm, bind, Except.bind, unexpected, fault]

end Line

/-! ## Operands -/

/-- A value as an operand is written with it. -/
structure Term where
  text : String
  lexeme : Lexeme
  value : Expr
  spells : Spells text lexeme
  plain : Plain text
  isValue : Expr.ofLexeme? lexeme = some value
  noRegister : ∀ name, lexeme = .identifier name → isRegister name = false

namespace Term

def word (w : UInt16) : Term :=
  ⟨"$" ++ Hex.word w, .hex w, .number w.toNat, spells_hexWord w, plain_append (by decide) (plain_hexWord w), rfl, nofun⟩

def byte (b : UInt8) : Term :=
  ⟨"$" ++ Hex.byte b, .hex b.toUInt16, .number b.toNat, spells_hexByte b,
    plain_append (by decide) (plain_hexByte b),
    congrArg (fun n : Nat => some (Expr.number n)) (UInt8.toNat_toUInt16 b), nofun⟩

def label (name : String) (h : isLabel name = true) : Term :=
  ⟨name, .identifier name, .symbol name, spells_word (word_of_isLabel h).1, plain_word (word_of_isLabel h).1, rfl, by
    rintro _ ⟨⟩
    exact (word_of_isLabel h).2⟩

end Term

/-- The name of an index register. -/
def Index.name : Index → String
  | x => "X"
  | y => "Y"

theorem Index.spells_name (i : Index) : Spells i.name (.identifier i.name) := by
  cases i <;> exact spells_word rfl

namespace Shape

/-- The suffix of a forced operand. -/
def forceText (forced : Bool) : String :=
  if forced then ".a" else ""

def indexText : Option Index → String
  | .none => ""
  | some i => "," ++ i.name

/-- An operand of the shape with the value written as given. -/
def text (value : String) : Shape → String
  | .none => ""
  | .accumulator => "A"
  | .immediate => "#" ++ value
  | .direct index forced => value ++ forceText forced ++ indexText index
  | .indirect => "(" ++ value ++ ")"
  | .indirectX => "(" ++ value ++ ",X)"
  | .indirectY => "(" ++ value ++ "),Y"

def forceLexemes (forced : Bool) : List Lexeme :=
  if forced then [.dot, .identifier "a"] else []

def indexLexemes : Option Index → List Lexeme
  | .none => []
  | some i => [.comma, .identifier i.name]

/-- The lexemes of an operand of the shape. -/
def lexemes (x : Lexeme) : Shape → List Lexeme
  | .none => []
  | .accumulator => [.identifier "A"]
  | .immediate => [.hash, x]
  | .direct index forced => x :: (forceLexemes forced ++ indexLexemes index)
  | .indirect => [.leftParen, x, .rightParen]
  | .indirectX => [.leftParen, x, .comma, .identifier Index.x.name, .rightParen]
  | .indirectY => [.leftParen, x, .rightParen, .comma, .identifier Index.y.name]

/-- The operand starts with its value. -/
def isDirect : Shape → Bool
  | .direct .. => true
  | _ => false

/-- The expression of an operand of the shape. -/
def operand (e : Expr) : Shape → Option Expr
  | .none | .accumulator => Option.none
  | .immediate | .direct .. | .indirect | .indirectX | .indirectY => some e

theorem lexes_index (index : Option Index) : Lexes (indexText index).toList (indexLexemes index) := by
  cases index with
  | none => exact .nil
  | some i => simpa [indexText, indexLexemes] using Lexes.sign rfl i.spells_name.lexes

theorem stops_index (index : Option Index) : Stops Scan.isWordChar (indexText index).toList := by
  cases index with
  | none => exact stops_nil _
  | some i => simpa [indexText] using stops_cons rfl

theorem lexes_text (t : Term) (shape : Shape) : Lexes (shape.text t.text).toList (shape.lexemes t.lexeme) := by
  have hclose : Lexes [')'] [.rightParen] := .sign rfl .nil
  cases shape with
  | none => exact .nil
  | accumulator =>
    have ha : Spells "A" (.identifier "A") := spells_word rfl
    exact ha.lexes
  | immediate => simpa [text, lexemes] using Lexes.sign rfl t.spells.lexes
  | direct index forced =>
    have hindex := lexes_index index
    have hstop := stops_index index
    cases forced with
    | false => simpa [text, lexemes, forceText, forceLexemes] using t.spells.append hstop hindex
    | true =>
      have ha : Spells "a" (.identifier "a") := spells_word rfl
      have hforce : Lexes ('.' :: ("a".toList ++ (indexText index).toList)) _ := .sign rfl (ha.append hstop hindex)
      simpa [text, lexemes, forceText, forceLexemes] using t.spells.append (stops_cons rfl) hforce
  | indirect =>
    simpa [text, lexemes] using Lexes.sign rfl (t.spells.append (stops_cons rfl) hclose)
  | indirectX =>
    have hx := Index.x.spells_name.append (stops_cons rfl) hclose
    have hindex : Lexes (',' :: ("X".toList ++ [')'])) _ := .sign rfl hx
    simpa [text, lexemes] using Lexes.sign rfl (t.spells.append (stops_cons rfl) hindex)
  | indirectY =>
    have hindex : Lexes (')' :: (indexText (some .y)).toList) _ := .sign rfl (lexes_index (some .y))
    simpa [text, lexemes, indexText, indexLexemes, Index.name] using
      Lexes.sign rfl (t.spells.append (stops_cons rfl) hindex)

theorem plain_text (t : Term) (shape : Shape) : Plain (shape.text t.text) := by
  cases shape with
  | none => exact (by decide : Plain "")
  | accumulator => exact (by decide : Plain "A")
  | immediate => exact plain_append (by decide) t.plain
  | direct index forced =>
    have hforce : Plain (forceText forced) := by cases forced <;> decide
    have hindex : Plain (indexText index) := by
      match index with
      | .none | some .x | some .y => decide
    exact plain_append (plain_append t.plain hforce) hindex
  | indirect | indirectX | indirectY => exact plain_append (plain_append (by decide) t.plain) (by decide)

end Shape

namespace Line

theorem takes_forceSuffix (forced : Bool) {x : Lexeme} {xs : List Lexeme} (hx : x ≠ .dot) :
    Takes forceSuffix (Shape.forceLexemes forced ++ x :: xs) forced (x :: xs) := by
  intro s hs
  cases forced with
  | false => exact ⟨s, by simp [forceSuffix, lexeme_of hs, hx], hs⟩
  | true =>
    have hs₁ := lexemes_advance_of hs
    refine ⟨s.advance.advance, ?_, lexemes_advance_of hs₁⟩
    have ha : Text.sameLetters "a" "a" = true := rfl
    simp [forceSuffix, lexeme_of hs, lexeme_of hs₁, ha]

theorem comma?_of {s : TokenStream} {xs : List Lexeme} (h : s.lexemes = .comma :: xs) :
    comma? s = some s.advance := by
  simp [comma?, skipBlanks_of h, lexeme_of h]

theorem comma?_none {s : TokenStream} {x : Lexeme} {xs : List Lexeme} (h : s.lexemes = x :: xs)
    (hx : x ≠ .blank ∧ x ≠ .comma) : comma? s = none := by
  simp [comma?, skipBlanks_of h, lexeme_of h, hx]

theorem index?_of {s : TokenStream} {index : Index} {xs : List Lexeme}
    (h : s.lexemes = .identifier index.name :: xs) : index? s = some (index, s.advance) := by
  simp only [index?, skipBlanks_of h nofun, lexeme_of h]
  cases index <;> rfl

/-- No index and no suffix goes on with a sign of an expression. -/
theorem closes_suffix (index : Option Index) (forced : Bool) :
    Closes (Shape.forceLexemes forced ++ Shape.indexLexemes index ++ [.endOfText]) := by
  cases forced <;> cases index <;> exact closes_cons nofun rfl

theorem refuses_suffix (index : Option Index) (forced : Bool) :
    Refuses expression (Shape.forceLexemes forced ++ Shape.indexLexemes index ++ [.endOfText]) := by
  cases forced with
  | true => exact refuses_expression (x := .dot) rfl ⟨nofun, nofun, rfl⟩
  | false =>
    cases index with
    | none => exact refuses_expression (x := .endOfText) rfl ⟨nofun, nofun, rfl⟩
    | some i => exact refuses_expression (x := .comma) rfl ⟨nofun, nofun, rfl⟩

theorem takes_directOperand {x : Lexeme} {e : Expr} (hx : Expr.ofLexeme? x = some e) (index : Option Index)
    (forced : Bool) :
    Takes directOperand ((Shape.direct index forced).lexemes x ++ [.endOfText]) (.direct index forced, some e)
      [.endOfText] := by
  intro s hs
  obtain ⟨s₁, h₁, hs₁⟩ := takes_expression hx (closes_suffix index forced) s hs
  cases index with
  | none =>
    obtain ⟨s₂, h₂, hs₂⟩ := takes_forceSuffix (x := .endOfText) forced nofun s₁
      (by simpa [Shape.indexLexemes] using hs₁)
    refine ⟨s₂, ?_, hs₂⟩
    simp [directOperand, h₁, h₂, bind, Except.bind, comma?_none hs₂, skipBlanks_of hs₂]
  | some i =>
    obtain ⟨s₂, h₂, hs₂⟩ := takes_forceSuffix (x := .comma) forced nofun s₁
      (by simpa [Shape.indexLexemes] using hs₁)
    have hs₃ := lexemes_advance_of hs₂
    refine ⟨s₂.advance.advance, ?_, lexemes_advance_of hs₃⟩
    simp [directOperand, h₁, h₂, bind, Except.bind, comma?_of hs₂, index?_of hs₃]

theorem takes_indirectOperand {x : Lexeme} {e : Expr} (hx : Expr.ofLexeme? x = some e) :
    Takes indirectOperand [x, .rightParen, .endOfText] (.indirect, some e) [.endOfText] := by
  intro s hs
  obtain ⟨s₁, h₁, hs₁⟩ := takes_expression hx (by exact closes_cons nofun rfl) s hs
  have hs₂ := lexemes_advance_of hs₁
  refine ⟨s₁.advance, ?_, hs₂⟩
  simp [indirectOperand, h₁, bind, Except.bind, comma?_none hs₁, closeParen, skipBlanks_of hs₁, lexeme_of hs₁,
    comma?_none hs₂, skipBlanks_of hs₂]

theorem takes_indirectX {x : Lexeme} {e : Expr} (hx : Expr.ofLexeme? x = some e) :
    Takes indirectOperand [x, .comma, .identifier Index.x.name, .rightParen, .endOfText] (.indirectX, some e)
      [.endOfText] := by
  intro s hs
  obtain ⟨s₁, h₁, hs₁⟩ := takes_expression hx (by exact closes_cons nofun rfl) s hs
  have hs₂ := lexemes_advance_of hs₁
  have hs₃ := lexemes_advance_of hs₂
  refine ⟨s₁.advance.advance.advance, ?_, lexemes_advance_of hs₃⟩
  simp [indirectOperand, h₁, bind, Except.bind, comma?_of hs₁, requireIndex, index?_of hs₂, closeParen,
    skipBlanks_of hs₃, lexeme_of hs₃]

theorem takes_indirectY {x : Lexeme} {e : Expr} (hx : Expr.ofLexeme? x = some e) :
    Takes indirectOperand [x, .rightParen, .comma, .identifier Index.y.name, .endOfText] (.indirectY, some e)
      [.endOfText] := by
  intro s hs
  obtain ⟨s₁, h₁, hs₁⟩ := takes_expression hx (by exact closes_cons nofun rfl) s hs
  have hs₂ := lexemes_advance_of hs₁
  have hs₃ := lexemes_advance_of hs₂
  refine ⟨s₁.advance.advance.advance, ?_, lexemes_advance_of hs₃⟩
  simp [indirectOperand, h₁, bind, Except.bind, comma?_none hs₁, closeParen, skipBlanks_of hs₁, lexeme_of hs₁,
    comma?_of hs₂, requireIndex, index?_of hs₃]

/-- The operand starts with a value, not with a sign or the name of the accumulator. -/
theorem term_start {t : Term} {s : TokenStream} {xs : List Lexeme} (h : s.lexemes = t.lexeme :: xs) :
    s.lexeme.endsLine = false ∧ isAccumulator s = false ∧ s.lexeme ≠ .hash ∧ s.lexeme ≠ .leftParen := by
  have hvalue := t.isValue
  have hregister := t.noRegister
  unfold isAccumulator
  rw [lexeme_of h]
  cases hx : t.lexeme with
  | identifier name =>
    -- a word could be the accumulator, but a term is no register
    have ha : Text.sameLetters name "A" = false := by
      have hupper : Text.upper "A" = "A" := rfl
      have := hregister name hx
      simp only [isRegister, List.contains_cons, Bool.or_eq_false_iff] at this
      rw [Text.sameLetters, hupper, this.1]
    simp [Lexeme.endsLine, ha]
  | decimal | hex | binary | character | star => exact ⟨rfl, rfl, nofun, nofun⟩
  | _ =>
    rw [hx] at hvalue
    cases hvalue

theorem takes_operand (t : Term) (shape : Shape) {xs : List Lexeme}
    (hxs : xs.dropWhile (· = .blank) = shape.lexemes t.lexeme ++ [.endOfText]) :
    Takes operand xs (shape, shape.operand t.value) [.endOfText] := by
  rintro s rfl
  rw [← lexemes_skipBlanks] at hxs
  unfold operand
  generalize s.skipBlanks = u at hxs
  cases shape with
  | none => exact ⟨u, by simp [lexeme_of hxs, Lexeme.endsLine, Shape.operand], hxs⟩
  | accumulator =>
    have hadv := lexemes_advance_of hxs
    refine ⟨u.advance, ?_, hadv⟩
    simp [lexeme_of hxs, Lexeme.endsLine, Shape.operand, isAccumulator, lexeme_of hadv, Text.sameLetters]
  | immediate =>
    obtain ⟨s₁, h₁, hs₁⟩ := takes_expression t.isValue (by exact closes_cons nofun rfl) u.advance
      (lexemes_advance_of hxs)
    refine ⟨s₁, ?_, hs₁⟩
    simp [lexeme_of hxs, Lexeme.endsLine, isAccumulator, h₁, bind, Except.bind, Shape.operand]
  | direct index forced =>
    obtain ⟨s₁, h₁, hs₁⟩ := takes_directOperand t.isValue index forced u hxs
    obtain ⟨hend, hacc, hhash, hparen⟩ := term_start hxs
    exact ⟨s₁, by simp [hend, hacc, hhash, hparen, h₁, Shape.operand], hs₁⟩
  | indirect =>
    obtain ⟨s₁, h₁, hs₁⟩ := takes_indirectOperand t.isValue u.advance (lexemes_advance_of hxs)
    exact ⟨s₁, by simp [lexeme_of hxs, Lexeme.endsLine, isAccumulator, h₁, Shape.operand], hs₁⟩
  | indirectX =>
    obtain ⟨s₁, h₁, hs₁⟩ := takes_indirectX t.isValue u.advance (lexemes_advance_of hxs)
    exact ⟨s₁, by simp [lexeme_of hxs, Lexeme.endsLine, isAccumulator, h₁, Shape.operand], hs₁⟩
  | indirectY =>
    obtain ⟨s₁, h₁, hs₁⟩ := takes_indirectY t.isValue u.advance (lexemes_advance_of hxs)
    exact ⟨s₁, by simp [lexeme_of hxs, Lexeme.endsLine, isAccumulator, h₁, Shape.operand], hs₁⟩

/-! ## Statements -/

/-- The lexeme makes an equate of the word before it. -/
def isEquals : Lexeme → Bool
  | .equal => true
  | .identifier name => Text.sameLetters name "EQU"
  | _ => false

theorem equals?_eq {s : TokenStream} {x : Lexeme} {xs : List Lexeme} (h : s.skipBlanks.lexemes = x :: xs) :
    equals? s = if isEquals x then some s.skipBlanks.advance else none := by
  simp only [equals?, lexeme_of h]
  cases x <;> rfl

theorem equals?_operand (t : Term) (shape : Shape) {s : TokenStream}
    (hs : s.skipBlanks.lexemes = shape.lexemes t.lexeme ++ [.endOfText]) :
    equals? s = if shape.isDirect && isEquals t.lexeme then some s.skipBlanks.advance else none := by
  cases shape <;> exact equals?_eq hs

theorem takes_instruction {m : String} (hm : ∀ s, directive? m s = none) {t : Term} {shape : Shape}
    (hequ : (shape.isDirect && isEquals t.lexeme) = false) {xs : List Lexeme}
    (hxs : xs.dropWhile (· = .blank) = shape.lexemes t.lexeme ++ [.endOfText]) :
    Takes (wordStatement m) xs (.instruction m shape (shape.operand t.value)) [.endOfText] := by
  intro s hs
  obtain ⟨s₁, h₁, hs₁⟩ := takes_operand t shape hxs s hs
  have hequals := equals?_operand t shape (by rw [lexemes_skipBlanks, hs, hxs])
  exact ⟨s₁, by simp [wordStatement, hequals, hequ, hm, h₁, bind, Except.bind], hs₁⟩

/-- After a word for `=` an operand's suffix is no expression. -/
theorem refuses_equ {m : String} {t : Term} (ht : isEquals t.lexeme = true) {index : Option Index} {forced : Bool}
    {xs : List Lexeme}
    (hxs : xs.dropWhile (· = .blank) = (Shape.direct index forced).lexemes t.lexeme ++ [.endOfText]) :
    Refuses (wordStatement m) xs := by
  rintro s rfl
  rw [← lexemes_skipBlanks] at hxs
  have hequals := equals?_operand t _ hxs
  obtain ⟨f, hf⟩ := refuses_suffix index forced _ (lexemes_advance_of hxs)
  -- the word before may be refused as a name first, and the line is no better for it
  cases hlabel : checkLabel m with
  | error e => simp [wordStatement, hequals, Shape.isDirect, ht, hlabel, fault]
  | ok => simp [wordStatement, hequals, Shape.isDirect, ht, hlabel, hf, bind, Except.bind]

theorem takes_equate {name : String} (h : isLabel name = true) {x : Lexeme} {e : Expr}
    (hx : Expr.ofLexeme? x = some e) :
    Takes (wordStatement name) [.blank, .equal, .blank, x, .endOfText] (.equate name e) [.endOfText] := by
  intro s hs
  have hs₁ : s.skipBlanks.lexemes = [.equal, .blank, x, .endOfText] := by
    rw [lexemes_skipBlanks, hs]
    rfl
  have hterm : [Lexeme.blank, x, .endOfText].dropWhile (· = .blank) = [x, .endOfText] := by
    simp [(term_lexeme hx).1]
  obtain ⟨s₂, h₂, hs₂⟩ := takes_spaced hx hterm (closes_cons nofun rfl) _ (lexemes_advance_of hs₁)
  refine ⟨s₂, ?_, hs₂⟩
  simp [wordStatement, equals?_eq hs₁, isEquals, checkLabel_of_isLabel h, h₂, bind, Except.bind]

theorem takes_origin (w : UInt16) :
    Takes (wordStatement "ORG") [.blank, .hex w, .endOfText] (.origin (.number w.toNat)) [.endOfText] := by
  intro s hs
  have hs₁ : s.skipBlanks.lexemes = [.hex w, .endOfText] := by
    rw [lexemes_skipBlanks, hs]
    rfl
  obtain ⟨s₂, h₂, hs₂⟩ := takes_expression rfl (by exact closes_cons nofun rfl) _ hs₁
  have hupper : Text.upper "ORG" = "ORG" := rfl
  refine ⟨s₂, ?_, hs₂⟩
  simp [wordStatement, equals?_eq hs₁, isEquals, directive?, hupper, h₂, bind, Except.bind]

theorem takes_data (w : UInt16) :
    Takes (wordStatement "DB") [.blank, .hex w, .endOfText] (.bytes [.value (.number w.toNat)]) [.endOfText] := by
  intro s hs
  have hs₁ : s.skipBlanks.lexemes = [.hex w, .endOfText] := by
    rw [lexemes_skipBlanks, hs]
    rfl
  obtain ⟨s₂, h₂, hs₂⟩ := takes_expression rfl (by exact closes_cons nofun rfl) _ hs₁
  have hupper : Text.upper "DB" = "DB" := rfl
  have hitem : dataItem s.skipBlanks = .ok (.value (.number w.toNat), s₂) := by
    simp [dataItem, skipBlanks_of hs₁, lexeme_of hs₁, h₂, bind, Except.bind]
  -- the text ends after the item, so no other item is looked for
  have hlist : listFrom dataItem s₂.rest.length [.value (.number w.toNat)] s₂ =
      .ok ([.value (.number w.toNat)], s₂) := by
    obtain ⟨t, ts, hrest, -, -⟩ := List.map_eq_cons_iff.1 hs₂
    simp [hrest, listFrom, comma?_none hs₂, skipBlanks_of hs₂]
  refine ⟨s₂, ?_, hs₂⟩
  simp [wordStatement, equals?_eq hs₁, isEquals, directive?, hupper, list, hitem, hlist, bind, Except.bind]

/-! ## Lines -/

/-- The text is a line without a label that holds the statement. -/
def Reads (text : String) (st : Option Statement) : Prop :=
  ∀ n, ∃ column, read text.toList n = .ok ⟨n, none, st, column⟩

/-- The text is no line. -/
def Unreadable (text : String) : Prop :=
  ∀ n, ∃ e, read text.toList n = .error e

/-- A line that starts with a word goes on as the statement of that word does. -/
theorem ofTokens_word {tokens : List Token} {w : String} {xs : List Lexeme}
    (h : (TokenStream.ofList tokens).skipBlanks.lexemes = .identifier w :: xs) (hcolon : xs.head? ≠ some .colon)
    (n : Nat) :
    ofTokens n tokens = (do
      let (st, rest) ← wordStatement w (TokenStream.ofList tokens).skipBlanks.advance
      if rest.skipBlanks.atLineEnd then
        .ok ⟨n, none, some st, (TokenStream.ofList tokens).skipBlanks.location.2⟩
      else unexpected rest.skipBlanks .endOfLine) := by
  unfold ofTokens
  generalize (TokenStream.ofList tokens).skipBlanks = s at h
  -- only a colon would make a label of the word
  have hlabel : labelPart s = .ok (none, s) := by
    have hnext : s.advance.lexeme ≠ .colon := by
      rw [lexeme_eq, lexemes_advance_of h]
      cases xs <;> simp_all
    simp only [labelPart, lexeme_of h]
    split
    · contradiction
    · rfl
  have hend : s.atLineEnd = false := by
    simp [atLineEnd, skipBlanks_of h, lexeme_of h, Lexeme.endsLine]
  have hst : statementPart s = wordStatement w s.advance := by
    simp [statementPart, lexeme_of h]
  simp [hlabel, bind, Except.bind, skipBlanks_of h, hend, hst]

/-- The tokens of a text that starts with a word. -/
theorem scan_word {text : String} {w : String} {xs ys : List Lexeme} (ht : Lexes text.toList xs)
    (hxs : xs.dropWhile (· = .blank) = .identifier w :: ys) (n : Nat) :
    ∃ tokens, Token.scan text.toList n = (tokens, []) ∧
      (TokenStream.ofList tokens).skipBlanks.lexemes = .identifier w :: (ys ++ [.endOfText]) := by
  obtain ⟨tokens, hscan, htokens⟩ := ht.scan n
  refine ⟨tokens, hscan, ?_⟩
  rw [lexemes_skipBlanks, lexemes, TokenStream.ofList, htokens, List.dropWhile_append, hxs]
  rfl

theorem reads_word {text : String} {w : String} {xs ys : List Lexeme} {st : Statement}
    (ht : Lexes text.toList xs) (hxs : xs.dropWhile (· = .blank) = .identifier w :: ys)
    (hcolon : (ys ++ [Lexeme.endOfText]).head? ≠ some .colon)
    (hst : Takes (wordStatement w) (ys ++ [.endOfText]) st [.endOfText]) : Reads text (some st) := by
  intro n
  obtain ⟨tokens, hscan, htokens⟩ := scan_word ht hxs n
  obtain ⟨rest, hrest, hend⟩ := hst _ (lexemes_advance_of htokens)
  simp [read, hscan, ofTokens_word htokens hcolon, hrest, bind, Except.bind, skipBlanks_of hend, atLineEnd,
    lexeme_of hend, Lexeme.endsLine]

theorem unreadable_word {text : String} {w : String} {xs ys : List Lexeme}
    (ht : Lexes text.toList xs) (hxs : xs.dropWhile (· = .blank) = .identifier w :: ys)
    (hcolon : (ys ++ [Lexeme.endOfText]).head? ≠ some .colon)
    (hst : Refuses (wordStatement w) (ys ++ [.endOfText])) : Unreadable text := by
  intro n
  obtain ⟨tokens, hscan, htokens⟩ := scan_word ht hxs n
  obtain ⟨f, hf⟩ := hst _ (lexemes_advance_of htokens)
  simp [read, hscan, ofTokens_word htokens hcolon, hf, bind, Except.bind]

/-- A text that ends after its blanks is a line without a label and a statement. -/
theorem read_nothing {text : List Char} {xs ys : List Lexeme} {x : Lexeme} (ht : Lexes text xs)
    (hxs : (xs ++ [Lexeme.endOfText]).dropWhile (· = .blank) = x :: ys) (hx : x.endsLine = true) (n : Nat) :
    ∃ column, read text n = .ok ⟨n, none, none, column⟩ := by
  obtain ⟨tokens, hscan, htokens⟩ := ht.scan n
  have hs : (TokenStream.ofList tokens).skipBlanks.lexemes = x :: ys := by
    rw [lexemes_skipBlanks, ← hxs, ← htokens]
    rfl
  have hlabel : labelPart (TokenStream.ofList tokens).skipBlanks = .ok (none, (TokenStream.ofList tokens).skipBlanks) := by
    unfold labelPart
    rw [lexeme_of hs]
    cases x with
    | newline | comment _ | endOfText => rfl
    | _ => cases hx
  have hblank : x ≠ .blank := by
    rintro rfl
    cases hx
  simp [read, hscan, ofTokens, hlabel, bind, Except.bind, skipBlanks_of hs hblank, atLineEnd, lexeme_of hs, hx]

theorem reads_empty : Reads "" none :=
  fun n => read_nothing (x := .endOfText) Lexes.nil rfl rfl n

theorem reads_equate {name : String} (h : isLabel name = true) (w : UInt16) :
    Reads (name ++ " = $" ++ Hex.word w) (some (.equate name (.number w.toNat))) := by
  have hvalue := (spells_hexWord w).lexes.spaces (n := 0) nofun
  have hequal := (Lexes.sign (c := '=') rfl hvalue).spaces (n := 0) nofun
  have hline := (spells_word (word_of_isLabel h).1).append (stops_cons rfl) hequal
  exact reads_word (by simpa using hline) rfl (by simp) (takes_equate h rfl)

theorem reads_equate_here {name : String} (h : isLabel name = true) :
    Reads (name ++ " = *") (some (.equate name .here)) := by
  have hvalue := (Lexes.sign (c := '*') rfl .nil).spaces (n := 0) nofun
  have hequal := (Lexes.sign (c := '=') rfl hvalue).spaces (n := 0) nofun
  have hline := (spells_word (word_of_isLabel h).1).append (stops_cons rfl) hequal
  exact reads_word (by simpa using hline) rfl (by simp) (takes_equate h rfl)

theorem reads_origin (w : UInt16) : Reads ("ORG $" ++ Hex.word w) (some (.origin (.number w.toNat))) := by
  have hvalue := (spells_hexWord w).lexes.spaces (n := 0) nofun
  have hword : Spells "ORG" (.identifier "ORG") := spells_word rfl
  have hline := hword.append (stops_cons rfl) hvalue
  exact reads_word (by simpa using hline) rfl (by simp) (takes_origin w)

theorem reads_data (b : UInt8) :
    Reads ("    DB $" ++ Hex.byte b) (some (.bytes [.value (.number b.toNat)])) := by
  have hvalue := (spells_hexByte b).lexes.spaces (n := 0) nofun
  have hword : Spells "DB" (.identifier "DB") := spells_word rfl
  have hline := (hword.append (stops_cons rfl) hvalue).spaces (n := 3) nofun
  exact reads_word (by simpa using hline) rfl (by simp) (by simpa using takes_data b.toUInt16)

/-- A mnemonic, indented, and its operand, if it has one. -/
def instructionText (mnemonic operand : String) : String :=
  "    " ++ if operand.isEmpty then mnemonic else mnemonic ++ " " ++ operand

theorem lexes_instructionText {m operand : String} {xs : List Lexeme} (hm : isWord m = true)
    (h : Lexes operand.toList xs) (hx : xs.head? ≠ some .blank) :
    ∃ ys, Lexes (instructionText m operand).toList (.blank :: .identifier m :: ys) ∧
      (ys ++ [Lexeme.endOfText]).head? ≠ some .colon ∧
      (ys ++ [Lexeme.endOfText]).dropWhile (· = .blank) = xs ++ [.endOfText] := by
  have hword := spells_word hm
  unfold instructionText
  split
  · rename_i hempty
    rw [String.isEmpty_iff.1 hempty] at h
    cases h
    exact ⟨[], by simpa using hword.lexes.spaces (n := 3) nofun, by simp, by simp⟩
  · have hline := (hword.append (stops_cons rfl) (h.spaces (n := 0) hx)).spaces (n := 3) nofun
    refine ⟨.blank :: xs, by simpa using hline, by simp, ?_⟩
    cases xs with
    | nil => simp
    | cons x xs =>
      have hblank : x ≠ .blank := by simpa using hx
      simp [hblank]

theorem head?_lexemes (t : Term) (shape : Shape) : (shape.lexemes t.lexeme).head? ≠ some .blank := by
  cases shape <;> simp [Shape.lexemes, (term_lexeme t.isValue).1]

/-- The shape and the value of an instruction are read from its line. -/
theorem reads_instruction {m : String} (hm : isWord m = true) (hdirective : ∀ s, directive? m s = none)
    {t : Term} {shape : Shape} (hequ : (shape.isDirect && isEquals t.lexeme) = false) :
    Reads (instructionText m (shape.text t.text)) (some (.instruction m shape (shape.operand t.value))) := by
  obtain ⟨ys, hline, hcolon, hys⟩ := lexes_instructionText hm (shape.lexes_text t) (head?_lexemes t shape)
  exact reads_word hline rfl hcolon (takes_instruction hdirective hequ hys)

/-- A word for `=` right after the mnemonic spoils the line. -/
theorem unreadable_equ {m : String} (hm : isWord m = true) {t : Term} {shape : Shape}
    (hequ : (shape.isDirect && isEquals t.lexeme) = true) :
    Unreadable (instructionText m (shape.text t.text)) := by
  obtain ⟨ys, hline, hcolon, hys⟩ := lexes_instructionText hm (shape.lexes_text t) (head?_lexemes t shape)
  cases shape with
  | direct index forced => exact unreadable_word hline rfl hcolon (refuses_equ hequ hys)
  | _ => cases hequ

end Line

end Mos6502
