import Mos6502.Proofs.Basic
import Mos6502.Source.Line

/-!
# Reading does not depend on the number of a line

A text that stands some lines further down gives the same tokens that much
further down, and the readers look at lexemes and columns alone. So a line is
read alike wherever it stands.

Main statement: `Line.read_down`.
-/
namespace Mos6502

/-! ## Tokens -/

/-- The token some lines further down. -/
def Token.down (d : Nat) (t : Token) : Token :=
  { t with line := t.line + d }

@[simp] theorem Token.lexeme_down (d : Nat) (t : Token) : (t.down d).lexeme = t.lexeme :=
  rfl

def LexError.down (d : Nat) (e : LexError) : LexError :=
  { e with line := e.line + d }

namespace Scanner

def down (d : Nat) (s : Scanner) : Scanner :=
  { s with line := s.line + d }

/-- What one step reads, some lines further down. -/
def stepDown (d : Nat) : Except LexError Token × Scanner → Except LexError Token × Scanner
  | (.ok t, s) => (.ok (t.down d), s.down d)
  | (.error e, s) => (.error (e.down d), s.down d)

theorem next_down (d : Nat) (s : Scanner) : (s.down d).next = s.next.map (stepDown d) := by
  obtain ⟨rest, line, column⟩ := s
  cases rest with
  | nil => rfl
  | cons c cs =>
    simp only [next, down]
    cases hfound : (Scan.start c cs).found with
    | error cause => rfl
    | ok lexeme =>
      cases lexeme with
      | newline => simp [stepDown, down, Token.down, Nat.add_right_comm]
      | _ => rfl

theorem run_eq (s : Scanner) (tokens : Array Token) (errors : Array LexError) :
    s.run tokens errors =
      match s.next with
      | none => (tokens.push ⟨.endOfText, s.line, s.column, 0⟩, errors)
      | some (.ok t, s') => s'.run (tokens.push t) errors
      | some (.error e, s') => s'.run tokens (errors.push e) := by
  rw [run]
  split <;> simp_all

theorem run_down (d : Nat) (s : Scanner) (tokens : Array Token) (errors : Array LexError) :
    (s.down d).run (tokens.map (Token.down d)) (errors.map (LexError.down d)) =
      ((s.run tokens errors).1.map (Token.down d), (s.run tokens errors).2.map (LexError.down d)) := by
  fun_induction run s tokens errors with
  | case1 s tokens errors hnext =>
    rw [run_eq, next_down, hnext]
    simp [Token.down, down]
  | case2 s tokens errors t s' hnext ih =>
    rw [run_eq, next_down, hnext]
    simpa [stepDown] using ih
  | case3 s tokens errors e s' hnext ih =>
    rw [run_eq, next_down, hnext]
    simpa [stepDown] using ih

end Scanner

theorem Token.scan_down (text : List Char) (n d : Nat) :
    scan text (n + d) = ((scan text n).1.map (Token.down d), (scan text n).2.map (LexError.down d)) := by
  have h := Scanner.run_down d ⟨text, n, 0⟩ #[] #[]
  simp only [Scanner.down, Array.map_empty] at h
  simp only [scan, h, Array.toList_map]

namespace TokenStream

def down (d : Nat) (s : TokenStream) : TokenStream :=
  ⟨s.rest.map (Token.down d), s.last.map (Token.down d)⟩

theorem ofList_down (d : Nat) (ts : List Token) : ofList (ts.map (Token.down d)) = (ofList ts).down d := by
  simp [ofList, down]

@[simp] theorem lexeme_down (d : Nat) (s : TokenStream) : (s.down d).lexeme = s.lexeme := by
  unfold lexeme down
  cases s.rest <;> rfl

@[simp] theorem advance_down (d : Nat) (s : TokenStream) : (s.down d).advance = s.advance.down d := by
  simp [advance, down]

theorem dropBlanks_down (d : Nat) (ts : List Token) :
    (ts.map (Token.down d)).dropWhile (·.lexeme = .blank) = (ts.dropWhile (·.lexeme = .blank)).map (Token.down d) := by
  rw [List.dropWhile_map]
  rfl

@[simp] theorem skipBlanks_down (d : Nat) (s : TokenStream) : (s.down d).skipBlanks = s.skipBlanks.down d := by
  simp [skipBlanks, down, dropBlanks_down]

@[simp] theorem atLineEnd_down (d : Nat) (s : TokenStream) : (s.down d).atLineEnd = s.atLineEnd := by
  simp [atLineEnd]

/-- The column is the same. -/
@[simp] theorem location_down (d : Nat) (s : TokenStream) : (s.down d).location.2 = s.location.2 := by
  obtain ⟨rest, last⟩ := s
  cases rest with
  | nil => cases last <;> rfl
  | cons t ts => rfl

end TokenStream

/-! ## Expressions -/

namespace Expr

/-- What was read from tokens, if they stand some lines further down. -/
def readDown (d : Nat) : Except (List Token) (Expr × List Token) → Except (List Token) (Expr × List Token)
  | .ok (e, rest) => .ok (e, rest.map (Token.down d))
  | .error rest => .error (rest.map (Token.down d))

theorem readTerm_down (d : Nat) (ts : List Token) : readTerm (ts.map (Token.down d)) = readDown d (readTerm ts) := by
  induction ts with
  | nil => rfl
  | cons t ts ih =>
    rw [List.map_cons, readTerm, readTerm]
    simp only [Token.lexeme_down]
    split
    · exact ih
    · rw [ih]
      cases readTerm ts <;> rfl
    · split <;> rfl

theorem readSum_eq (left : Expr) (ts : List Token) :
    readSum left ts =
      match ts.dropWhile (·.lexeme = .blank) with
      | [] => .ok (left, [])
      | t :: ts' =>
        match join? t.lexeme with
        | none => .ok (left, t :: ts')
        | some join => readTerm ts' >>= fun r => readSum (join left r.1) r.2 := by
  rw [readSum]
  split
  · rename_i hts
    rw [hts]
  · rename_i t ts' hts
    simp only [hts]
    cases join? t.lexeme with
    | none => rfl
    | some join =>
      dsimp only
      split <;> simp_all [bind, Except.bind]

theorem readSum_down (d : Nat) (left : Expr) (ts : List Token) :
    readSum left (ts.map (Token.down d)) = readDown d (readSum left ts) := by
  fun_induction readSum left ts with
  | case1 left ts hts =>
    rw [readSum_eq, TokenStream.dropBlanks_down, hts]
    rfl
  | case2 left ts t ts' hts hjoin =>
    rw [readSum_eq, TokenStream.dropBlanks_down, hts]
    simp [readDown, hjoin]
  | case3 left ts t ts' hts join hjoin rest hr =>
    rw [readSum_eq, TokenStream.dropBlanks_down, hts]
    simp [hjoin, readTerm_down, hr, readDown, bind, Except.bind]
  | case4 left ts t ts' hts join hjoin right rest hr ih =>
    rw [readSum_eq, TokenStream.dropBlanks_down, hts]
    simpa [hjoin, readTerm_down, hr, readDown, bind, Except.bind] using ih

theorem readPlain_down (d : Nat) (ts : List Token) : readPlain (ts.map (Token.down d)) = readDown d (readPlain ts) := by
  unfold readPlain
  rw [readTerm_down]
  cases readTerm ts with
  | error rest => rfl
  | ok r => exact readSum_down d r.1 r.2

theorem read_down (d : Nat) (ts : List Token) : read (ts.map (Token.down d)) = readDown d (read ts) := by
  unfold read
  rw [TokenStream.dropBlanks_down]
  dsimp only
  cases ts.dropWhile (·.lexeme = .blank) with
  | nil => rfl
  | cons t ts =>
    have hplain := readPlain_down d (t :: ts)
    rw [List.map_cons] at hplain ⊢
    simp only [Token.lexeme_down]
    cases select? t.lexeme with
    | none => exact hplain
    | some select =>
      simp only [readPlain_down]
      cases readPlain ts <;> rfl

end Expr

/-! ## Lines -/

namespace Line

/-- What a reader took from a stream, if the stream stands some lines further down. -/
def taken {α : Type} (d : Nat) : α × TokenStream → α × TokenStream
  | (v, s) => (v, s.down d)

/-- The reader does not look at the numbers of lines. -/
def Unnumbered {α : Type} (r : Reader α) : Prop :=
  ∀ d s, r (s.down d) = (r s).map (taken d)

theorem fault_down {α : Type} (d : Nat) (s : TokenStream) (cause : LineCause) :
    fault (s.down d) cause = (fault s cause : Except Fault α) := by
  simp [fault]

theorem unexpected_down {α : Type} (d : Nat) (s : TokenStream) (expected : Expected) :
    unexpected (s.down d) expected = (unexpected s expected : Except Fault α) := by
  simp [unexpected, fault_down]

theorem unnumbered_expression : Unnumbered expression := by
  intro d s
  have hdown (rest : List Token) :
      ({ s.down d with rest := rest.map (Token.down d) } : TokenStream) = TokenStream.down d { s with rest } := rfl
  unfold expression
  rw [show (s.down d).rest = s.rest.map (Token.down d) from rfl, Expr.read_down]
  cases Expr.read s.rest with
  | error rest =>
    simp only [Expr.readDown, hdown, unexpected_down]
    rfl
  | ok r => rfl

theorem comma?_down (d : Nat) (s : TokenStream) : comma? (s.down d) = (comma? s).map (TokenStream.down d) := by
  unfold comma?
  simp only [TokenStream.skipBlanks_down, TokenStream.lexeme_down, TokenStream.advance_down]
  split <;> rfl

theorem index?_down (d : Nat) (s : TokenStream) : index? (s.down d) = (index? s).map (taken d) := by
  unfold index?
  simp only [TokenStream.skipBlanks_down, TokenStream.lexeme_down, TokenStream.advance_down]
  split
  · split
    · rfl
    · split <;> rfl
  · rfl

theorem closeParen_down (d : Nat) (s : TokenStream) :
    closeParen (s.down d) = (closeParen s).map (TokenStream.down d) := by
  unfold closeParen
  simp only [TokenStream.skipBlanks_down, TokenStream.lexeme_down, TokenStream.advance_down, unexpected_down]
  split <;> rfl

theorem requireIndex_down (index : Index) (expected : Expected) (d : Nat) (s : TokenStream) :
    requireIndex index expected (s.down d) = (requireIndex index expected s).map (TokenStream.down d) := by
  unfold requireIndex
  rw [index?_down]
  cases index? s with
  | none =>
    simp only [Option.map_none, TokenStream.skipBlanks_down, unexpected_down]
    rfl
  | some r =>
    simp only [Option.map_some, taken, unexpected_down]
    split <;> rfl

theorem Unnumbered.listFrom {α : Type} {item : Reader α} (h : Unnumbered item) (n : Nat) (items : List α) :
    Unnumbered (listFrom item n items) := by
  intro d s
  induction n generalizing items s with
  | zero => rfl
  | succ n ih =>
    unfold Line.listFrom
    rw [comma?_down]
    cases comma? s with
    | none =>
      simp only [Option.map_none, TokenStream.skipBlanks_down]
      rfl
    | some s =>
      simp only [Option.map_some, h d s]
      cases item s with
      | error f => rfl
      | ok r => exact ih _ _

theorem Unnumbered.list {α : Type} {item : Reader α} (h : Unnumbered item) : Unnumbered (list item) := by
  intro d s
  unfold Line.list
  rw [h d s]
  cases item s with
  | error f => rfl
  | ok r =>
    have hlength : (r.2.down d).rest.length = r.2.rest.length := List.length_map _
    exact (congrArg (Line.listFrom item · [r.1] (r.2.down d)) hlength).trans (h.listFrom _ _ d r.2)

theorem unnumbered_dataItem : Unnumbered dataItem := by
  intro d s
  unfold dataItem
  simp only [TokenStream.skipBlanks_down, TokenStream.lexeme_down, TokenStream.advance_down]
  split
  · rfl
  · rw [unnumbered_expression d s]
    cases expression s <;> rfl

/-! ## Operands -/

theorem unnumbered_forceSuffix : Unnumbered forceSuffix := by
  intro d s
  unfold forceSuffix
  simp only [TokenStream.lexeme_down, TokenStream.advance_down, unexpected_down]
  split
  · split
    · split <;> rfl
    · rfl
  · rfl

theorem unnumbered_directOperand : Unnumbered directOperand := by
  intro d s
  unfold directOperand
  rw [unnumbered_expression d s]
  cases expression s with
  | error f => rfl
  | ok r =>
    obtain ⟨e, s⟩ := r
    simp only [Except.map, taken, bind, Except.bind, unnumbered_forceSuffix d s]
    cases forceSuffix s with
    | error f => rfl
    | ok r =>
      obtain ⟨forced, s⟩ := r
      simp only [comma?_down]
      cases comma? s with
      | none => simp only [Option.map_none, TokenStream.skipBlanks_down]
      | some s =>
        simp only [Option.map_some, index?_down]
        cases index? s with
        | none =>
          simp only [Option.map_none, TokenStream.skipBlanks_down, unexpected_down]
          rfl
        | some r => rfl

theorem unnumbered_indirectOperand : Unnumbered indirectOperand := by
  intro d s
  unfold indirectOperand
  rw [unnumbered_expression d s]
  cases expression s with
  | error f => rfl
  | ok r =>
    obtain ⟨e, s⟩ := r
    simp only [Except.map, taken, bind, Except.bind, comma?_down]
    cases comma? s with
    | some s =>
      simp only [Option.map_some, requireIndex_down]
      cases requireIndex .x .indexX s with
      | error f => rfl
      | ok s =>
        simp only [Except.map, closeParen_down]
        cases closeParen s <;> rfl
    | none =>
      simp only [Option.map_none, closeParen_down]
      cases closeParen s with
      | error f => rfl
      | ok s =>
        simp only [Except.map, comma?_down]
        cases comma? s with
        | none => simp only [Option.map_none, TokenStream.skipBlanks_down]
        | some s =>
          simp only [Option.map_some, requireIndex_down]
          cases requireIndex .y .indexY s <;> rfl

theorem isAccumulator_down (d : Nat) (s : TokenStream) : isAccumulator (s.down d) = isAccumulator s := by
  simp only [isAccumulator, TokenStream.lexeme_down, TokenStream.advance_down]

theorem unnumbered_operand : Unnumbered operand := by
  intro d s
  unfold operand
  simp only [TokenStream.skipBlanks_down, TokenStream.lexeme_down, TokenStream.advance_down, isAccumulator_down,
    unnumbered_indirectOperand d _, unnumbered_directOperand d _, unnumbered_expression d _]
  split
  · rfl
  split
  · rfl
  split
  · cases expression s.skipBlanks.advance <;> rfl
  split <;> rfl

/-! ## Statements -/

theorem directive?_down (keyword : String) (d : Nat) (s : TokenStream) :
    directive? keyword (s.down d) = (directive? keyword s).map (·.map (taken d)) := by
  unfold directive?
  split
  · rw [unnumbered_expression d s]
    cases expression s <;> rfl
  · rw [unnumbered_dataItem.list d s]
    cases list dataItem s <;> rfl
  · rw [unnumbered_dataItem.list d s]
    cases list dataItem s <;> rfl
  · rw [unnumbered_expression.list d s]
    cases list expression s <;> rfl
  · rw [unnumbered_expression.list d s]
    cases list expression s <;> rfl
  · rfl

theorem equals?_down (d : Nat) (s : TokenStream) : equals? (s.down d) = (equals? s).map (TokenStream.down d) := by
  unfold equals?
  simp only [TokenStream.skipBlanks_down, TokenStream.lexeme_down, TokenStream.advance_down]
  split
  · rfl
  · split <;> rfl
  · rfl

theorem unnumbered_wordStatement (word : String) : Unnumbered (wordStatement word) := by
  intro d s
  unfold wordStatement
  rw [equals?_down]
  cases equals? s with
  | some s =>
    simp only [Option.map_some]
    cases checkLabel word with
    | error e =>
      simp only [fault_down]
      rfl
    | ok _ =>
      simp only [unnumbered_expression d s]
      cases expression s <;> rfl
  | none =>
    simp only [Option.map_none, TokenStream.skipBlanks_down, directive?_down]
    cases directive? word s.skipBlanks with
    | some result => rfl
    | none =>
      simp only [Option.map_none, unnumbered_operand d s]
      cases operand s <;> rfl

theorem unnumbered_dotStatement : Unnumbered dotStatement := by
  intro d s
  unfold dotStatement
  simp only [TokenStream.lexeme_down, TokenStream.advance_down, directive?_down, fault_down, unexpected_down]
  split
  · rename_i keyword hlexeme
    cases directive? keyword s.advance <;> rfl
  · rfl

theorem unnumbered_statementPart : Unnumbered statementPart := by
  intro d s
  unfold statementPart
  simp only [TokenStream.lexeme_down, TokenStream.advance_down, unexpected_down]
  split
  · rfl
  · exact unnumbered_dotStatement d s.advance
  · exact unnumbered_wordStatement _ d s.advance
  · rfl

theorem unnumbered_labelPart : Unnumbered labelPart := by
  intro d s
  unfold labelPart
  simp only [TokenStream.lexeme_down, TokenStream.advance_down, fault_down]
  split
  · split <;> rfl
  · rfl

/-! ## Lines -/

/-- The line some lines further down. -/
def down (d : Nat) (l : Line) : Line :=
  { l with number := l.number + d }

theorem ofTokens_down (n d : Nat) (ts : List Token) :
    ofTokens (n + d) (ts.map (Token.down d)) = (ofTokens n ts).map (down d) := by
  unfold ofTokens
  rw [TokenStream.ofList_down, TokenStream.skipBlanks_down, unnumbered_labelPart]
  cases labelPart (TokenStream.ofList ts).skipBlanks with
  | error f => rfl
  | ok r =>
    obtain ⟨label, s⟩ := r
    simp only [Except.map, taken, bind, Except.bind, TokenStream.skipBlanks_down, TokenStream.atLineEnd_down,
      TokenStream.location_down, unnumbered_statementPart d _]
    split
    · rfl
    · cases statementPart s.skipBlanks with
      | error f => rfl
      | ok r =>
        simp only [TokenStream.skipBlanks_down, TokenStream.atLineEnd_down, unexpected_down]
        split <;> rfl

/-- What is read from a line further down: the same line, or the same fault, further down. -/
def readDown (d : Nat) : Except LineError Line → Except LineError Line
  | .ok l => .ok (l.down d)
  | .error e => .error { e with line := e.line + d }

theorem read_down (text : List Char) (n d : Nat) : read text (n + d) = readDown d (read text n) := by
  unfold read
  rw [Token.scan_down]
  rcases Token.scan text n with ⟨tokens, _ | ⟨e, errors⟩⟩
  · simp only [List.map_nil, ofTokens_down]
    cases ofTokens n tokens <;> rfl
  · rfl

theorem read_number {text : List Char} {n : Nat} {l : Line} (h : read text n = .ok l) : l.number = n := by
  unfold read at h
  split at h
  · cases h
  · split at h
    · rename_i line hline
      obtain rfl := Except.ok.inj h
      unfold ofTokens at hline
      obtain ⟨⟨label, s⟩, -, hline⟩ := bind_eq_ok.1 hline
      dsimp only at hline
      split at hline
      · cases hline
        rfl
      · obtain ⟨⟨st, rest⟩, -, hline⟩ := bind_eq_ok.1 hline
        dsimp only at hline
        split at hline
        · cases hline
          rfl
        · cases hline
    · cases h

end Line

end Mos6502
