import Mathlib.Data.List.DropRight
import Mos6502.Proofs.Basic
import Mos6502.Source.Line

/-!
# How lines are written

The lexemes that write an expression, an operand, a statement and a whole line,
said without the readers. Spaces do not count: they may stand between any two
lexemes. A reader that succeeds has passed a writing of what it gives, up to the
place where it stopped, and never the end of a line.

Main statements: `Line.gives_content`, with `Line.ofTokens_eq_ok` for whole lines.
-/
namespace Mos6502

/-! ## Passing tokens -/

/-- Between the two places stand the lexemes, some spaces, and no end of a line. -/
def Passed (ts : List Token) (xs : List Lexeme) (rest : List Token) : Prop :=
  ∃ row, ts = row ++ rest ∧ (∀ t ∈ row, t.lexeme.endsLine = false) ∧
    (row.map (·.lexeme)).filter (· ≠ .blank) = xs

namespace Passed

theorem refl (ts : List Token) : Passed ts [] ts :=
  ⟨[], rfl, by simp, rfl⟩

theorem trans {ts us rest : List Token} {xs ys : List Lexeme} (h : Passed ts xs us) (k : Passed us ys rest) :
    Passed ts (xs ++ ys) rest := by
  obtain ⟨row, rfl, hrow, rfl⟩ := h
  obtain ⟨row', rfl, hrow', rfl⟩ := k
  refine ⟨row ++ row', by simp, ?_, by simp⟩
  intro t ht
  rcases List.mem_append.1 ht with ht | ht
  · exact hrow t ht
  · exact hrow' t ht

theorem blank {t : Token} (h : t.lexeme = .blank) (ts : List Token) : Passed (t :: ts) [] ts :=
  ⟨[t], rfl, by simp [h, Lexeme.endsLine], by simp [h]⟩

theorem lexeme {t : Token} {x : Lexeme} (h : t.lexeme = x) (hblank : x ≠ .blank) (hend : x.endsLine = false)
    (ts : List Token) : Passed (t :: ts) [x] ts := by
  subst h
  exact ⟨[t], rfl, by simp [hend], by simp [hblank]⟩

theorem dropBlanks (ts : List Token) : Passed ts [] (ts.dropWhile (·.lexeme = .blank)) := by
  induction ts with
  | nil => exact refl _
  | cons t ts ih =>
    by_cases ht : t.lexeme = .blank
    · rw [List.dropWhile_cons_of_pos (by simpa using ht)]
      exact (blank ht ts).trans ih
    · rw [List.dropWhile_cons_of_neg (by simpa using ht)]
      exact refl _

theorem skipBlanks (s : TokenStream) : Passed s.rest [] s.skipBlanks.rest :=
  dropBlanks s.rest

theorem advance {s : TokenStream} {x : Lexeme} (h : s.lexeme = x) (hblank : x ≠ .blank) (hend : x.endsLine = false) :
    Passed s.rest [x] s.advance.rest := by
  obtain ⟨rest, last⟩ := s
  cases rest with
  | nil =>
    -- past the last token the stream shows the end of the text
    subst h
    cases hend
  | cons t ts => exact lexeme h hblank hend ts

end Passed

/-! ## Expressions -/

namespace Expr

/-- The lexemes write a term: minus signs, then a number, a symbol or `*`. -/
inductive IsTerm : List Lexeme → Expr → Prop
  | hex (n : UInt16) : IsTerm [.hex n] (.number n.toNat)
  | decimal (n : UInt16) : IsTerm [.decimal n] (.number n.toNat)
  | binary (n : UInt16) : IsTerm [.binary n] (.number n.toNat)
  | character (b : UInt8) : IsTerm [.character b] (.number b.toNat)
  | symbol (name : String) : IsTerm [.identifier name] (.symbol name)
  | here : IsTerm [.star] .here
  | neg {xs : List Lexeme} {e : Expr} : IsTerm xs e → IsTerm (.minus :: xs) (.neg e)

/-- The lexemes write a sum of terms. -/
inductive IsSum : List Lexeme → Expr → Prop
  | term {xs : List Lexeme} {e : Expr} : IsTerm xs e → IsSum xs e
  | add {xs ys : List Lexeme} {l r : Expr} : IsSum xs l → IsTerm ys r → IsSum (xs ++ .plus :: ys) (.add l r)
  | sub {xs ys : List Lexeme} {l r : Expr} : IsSum xs l → IsTerm ys r → IsSum (xs ++ .minus :: ys) (.sub l r)

/-- The lexemes write an expression: a sum, or a byte of a sum. -/
inductive Written : List Lexeme → Expr → Prop
  | sum {xs : List Lexeme} {e : Expr} : IsSum xs e → Written xs e
  | low {xs : List Lexeme} {e : Expr} : IsSum xs e → Written (.less :: xs) (.low e)
  | high {xs : List Lexeme} {e : Expr} : IsSum xs e → Written (.greater :: xs) (.high e)

theorem ofLexeme?_term {x : Lexeme} {e : Expr} (h : ofLexeme? x = some e) :
    IsTerm [x] e ∧ x ≠ .blank ∧ x.endsLine = false := by
  cases x <;> cases h <;> exact ⟨by constructor, nofun, rfl⟩

theorem readTerm_written {ts rest : List Token} {e : Expr} (h : readTerm ts = .ok (e, rest)) :
    ∃ xs, Passed ts xs rest ∧ IsTerm xs e := by
  induction ts generalizing e with
  | nil => cases h
  | cons t ts ih =>
    unfold readTerm at h
    split at h
    · rename_i hblank
      obtain ⟨xs, hpassed, hterm⟩ := ih h
      exact ⟨xs, (Passed.blank hblank ts).trans hpassed, hterm⟩
    · rename_i hminus
      obtain ⟨⟨e', rest'⟩, hread, heq⟩ := map_eq_ok.1 h
      cases heq
      obtain ⟨xs, hpassed, hterm⟩ := ih hread
      exact ⟨.minus :: xs, (Passed.lexeme hminus nofun rfl ts).trans hpassed, hterm.neg⟩
    · split at h
      · rename_i hterm
        cases h
        obtain ⟨hterm, hblank, hend⟩ := ofLexeme?_term hterm
        exact ⟨_, .lexeme rfl hblank hend _, hterm⟩
      · cases h

theorem join?_sum {x : Lexeme} {join : Expr → Expr → Expr} (h : join? x = some join) {xs ys : List Lexeme}
    {l r : Expr} (hl : IsSum xs l) (hr : IsTerm ys r) :
    IsSum (xs ++ x :: ys) (join l r) ∧ x ≠ .blank ∧ x.endsLine = false := by
  cases x <;> cases h
  · exact ⟨.add hl hr, nofun, rfl⟩
  · exact ⟨.sub hl hr, nofun, rfl⟩

theorem readSum_written {left e : Expr} {ts rest : List Token} (h : readSum left ts = .ok (e, rest))
    {ws : List Lexeme} (hleft : IsSum ws left) : ∃ xs, Passed ts xs rest ∧ IsSum (ws ++ xs) e := by
  have hdrop := Passed.dropBlanks ts
  fun_induction readSum left ts generalizing ws with
  | case1 left ts hts =>
    cases h
    rw [hts] at hdrop
    exact ⟨[], hdrop, by simpa using hleft⟩
  | case2 left ts t ts' hts hjoin =>
    cases h
    rw [hts] at hdrop
    exact ⟨[], hdrop, by simpa using hleft⟩
  | case3 => cases h
  | case4 left ts t ts' hts join hjoin right rest' hr ih =>
    rw [hts] at hdrop
    obtain ⟨ys, hys, hterm⟩ := readTerm_written hr
    obtain ⟨hsum, hblank, hend⟩ := join?_sum hjoin hleft hterm
    obtain ⟨xs, hxs, he⟩ := ih h hsum (Passed.dropBlanks rest')
    refine ⟨t.lexeme :: ys ++ xs, ?_, by simpa using he⟩
    simpa using hdrop.trans ((Passed.lexeme rfl hblank hend ts').trans (hys.trans hxs))

theorem readPlain_written {ts rest : List Token} {e : Expr} (h : readPlain ts = .ok (e, rest)) :
    ∃ xs, Passed ts xs rest ∧ IsSum xs e := by
  obtain ⟨⟨first, rest'⟩, hterm, hsum⟩ := bind_eq_ok.1 h
  obtain ⟨xs, hxs, hterm⟩ := readTerm_written hterm
  obtain ⟨ys, hys, hsum⟩ := readSum_written hsum (.term hterm)
  exact ⟨xs ++ ys, hxs.trans hys, hsum⟩

theorem select?_written {x : Lexeme} {select : Expr → Expr} (h : select? x = some select) {xs : List Lexeme}
    {e : Expr} (he : IsSum xs e) : Written (x :: xs) (select e) ∧ x ≠ .blank ∧ x.endsLine = false := by
  cases x <;> cases h
  · exact ⟨.low he, nofun, rfl⟩
  · exact ⟨.high he, nofun, rfl⟩

theorem read_written {ts rest : List Token} {e : Expr} (h : read ts = .ok (e, rest)) :
    ∃ xs, Passed ts xs rest ∧ Written xs e := by
  have hdrop := Passed.dropBlanks ts
  unfold read at h
  dsimp only at h
  split at h
  · cases h
  · rename_i t ts' hts
    rw [hts] at hdrop
    split at h
    · rename_i select hselect
      obtain ⟨⟨e', rest'⟩, hplain, heq⟩ := map_eq_ok.1 h
      cases heq
      obtain ⟨xs, hxs, hsum⟩ := readPlain_written hplain
      obtain ⟨hwritten, hblank, hend⟩ := select?_written hselect hsum
      exact ⟨_, hdrop.trans ((Passed.lexeme rfl hblank hend ts').trans hxs), hwritten⟩
    · obtain ⟨xs, hxs, hsum⟩ := readPlain_written h
      exact ⟨xs, hdrop.trans hxs, .sum hsum⟩

end Expr

/-! ## Lists and operands -/

/-- The lexemes write one or more items with commas between them. -/
inductive Listed {α : Type} (item : List Lexeme → α → Prop) : List Lexeme → List α → Prop
  | one {xs : List Lexeme} {a : α} : item xs a → Listed item xs [a]
  | more {xs ys : List Lexeme} {as : List α} {a : α} : Listed item xs as → item ys a →
    Listed item (xs ++ .comma :: ys) (as ++ [a])

/-- The lexemes write an item of a list of bytes. -/
inductive DataItem.Written : List Lexeme → DataItem → Prop
  | text (bytes : List UInt8) : Written [.string bytes] (.text bytes)
  | value {xs : List Lexeme} {e : Expr} : e.Written xs → Written xs (.value e)

namespace Line

/-- A name of the register. -/
def IsRegister : Index → String → Prop
  | .x, name => Text.sameLetters name "X" = true
  | .y, name => Text.sameLetters name "Y" = true

/-- The lexemes write the index after a direct operand, or there is none. -/
inductive IndexWritten : List Lexeme → Option Index → Prop
  | none : IndexWritten [] none
  | some {index : Index} {name : String} : IsRegister index name → IndexWritten [.comma, .identifier name] (some index)

/-- The lexemes write the suffix that forces a wide operand, or there is none. -/
inductive ForceWritten : List Lexeme → Bool → Prop
  | none : ForceWritten [] false
  | some {name : String} : Text.sameLetters name "a" = true → ForceWritten [.dot, .identifier name] true

/-- The lexemes write an operand. -/
inductive OperandWritten : List Lexeme → Shape × Option Expr → Prop
  | none : OperandWritten [] (.none, none)
  | accumulator {name : String} : Text.sameLetters name "A" = true →
    OperandWritten [.identifier name] (.accumulator, none)
  | immediate {xs : List Lexeme} {e : Expr} : e.Written xs → OperandWritten (.hash :: xs) (.immediate, some e)
  | indirect {xs : List Lexeme} {e : Expr} : e.Written xs →
    OperandWritten (.leftParen :: xs ++ [.rightParen]) (.indirect, some e)
  | indirectX {xs : List Lexeme} {e : Expr} {name : String} : e.Written xs → IsRegister .x name →
    OperandWritten (.leftParen :: xs ++ [.comma, .identifier name, .rightParen]) (.indirectX, some e)
  | indirectY {xs : List Lexeme} {e : Expr} {name : String} : e.Written xs → IsRegister .y name →
    OperandWritten (.leftParen :: xs ++ [.rightParen, .comma, .identifier name]) (.indirectY, some e)
  | direct {xs ys zs : List Lexeme} {e : Expr} {forced : Bool} {index : Option Index} : e.Written xs →
    ForceWritten ys forced → IndexWritten zs index → OperandWritten (xs ++ ys ++ zs) (.direct index forced, some e)

end Line

/-! ## Statements and lines -/

/-- The lexemes are the keyword, with or without a dot. -/
inductive IsKeyword (keyword : String) : List Lexeme → Prop
  | plain {word : String} : Text.upper word = keyword → IsKeyword keyword [.identifier word]
  | dotted {word : String} : Text.upper word = keyword → IsKeyword keyword [.dot, .identifier word]

/-- The lexeme makes an equate of the name before it. -/
inductive IsEquals : Lexeme → Prop
  | sign : IsEquals .equal
  | word {name : String} : Text.sameLetters name "EQU" = true → IsEquals (.identifier name)

/-- The lexemes write a statement. -/
inductive Statement.Written : List Lexeme → Statement → Prop
  | instruction {mnemonic : String} {xs : List Lexeme} {shape : Shape} {operand : Option Expr} :
    Line.OperandWritten xs (shape, operand) → Written (.identifier mnemonic :: xs) (.instruction mnemonic shape operand)
  | origin {ks xs : List Lexeme} {e : Expr} : IsKeyword "ORG" ks → e.Written xs → Written (ks ++ xs) (.origin e)
  | bytes {ks xs : List Lexeme} {items : List DataItem} : IsKeyword "DB" ks ∨ IsKeyword "BYTE" ks →
    Listed DataItem.Written xs items → Written (ks ++ xs) (.bytes items)
  | words {ks xs : List Lexeme} {items : List Expr} : IsKeyword "DW" ks ∨ IsKeyword "WORD" ks →
    Listed Expr.Written xs items → Written (ks ++ xs) (.words items)
  | equate {name : String} {x : Lexeme} {xs : List Lexeme} {e : Expr} : isLabel name = true → IsEquals x →
    e.Written xs → Written (.identifier name :: x :: xs) (.equate name e)
  | invocation (name arguments : String) : Written [.invocation name arguments] (.invocation name arguments)

namespace Line

/-- The lexemes write the label of a line, or there is none. -/
inductive LabelWritten : List Lexeme → Option String → Prop
  | none : LabelWritten [] none
  | some {name : String} : isLabel name = true → LabelWritten [.identifier name, .colon] (some name)

/-- The lexemes write the statement of a line, or there is none. -/
inductive StatementWritten : List Lexeme → Option Statement → Prop
  | none : StatementWritten [] none
  | some {xs : List Lexeme} {st : Statement} : st.Written xs → StatementWritten xs (some st)

/-- The lexemes write the line: its label, then its statement, and nothing else. -/
def Written (xs : List Lexeme) (l : Line) : Prop :=
  ∃ ys zs, xs = ys ++ zs ∧ LabelWritten ys l.label ∧ StatementWritten zs l.statement

/-! ## Readers -/

/-- What the reader gives is written between the place where it starts and the place where it stops. -/
def Gives {α : Type} (r : Reader α) (written : List Lexeme → α → Prop) : Prop :=
  ∀ {s v s'}, r s = .ok (v, s') → ∃ xs, Passed s.rest xs s'.rest ∧ written xs v

theorem gives_expression : Gives expression Expr.Written := by
  intro s e s' h
  unfold expression at h
  split at h
  · rename_i hread
    cases h
    exact Expr.read_written hread
  · cases h

theorem comma?_passed {s s' : TokenStream} (h : comma? s = some s') : Passed s.rest [.comma] s'.rest := by
  unfold comma? at h
  dsimp only at h
  split at h
  · rename_i hcomma
    cases h
    exact (Passed.skipBlanks s).trans (.advance hcomma nofun rfl)
  · cases h

theorem index?_passed {s s' : TokenStream} {index : Index} (h : index? s = some (index, s')) :
    ∃ name, IsRegister index name ∧ Passed s.rest [.identifier name] s'.rest := by
  unfold index? at h
  dsimp only at h
  split at h
  · rename_i name hname
    have hpassed := (Passed.skipBlanks s).trans (.advance hname nofun rfl)
    split at h
    · rename_i hx
      cases h
      exact ⟨name, hx, hpassed⟩
    · split at h
      · rename_i hy
        cases h
        exact ⟨name, hy, hpassed⟩
      · cases h
  · cases h

theorem closeParen_passed {s s' : TokenStream} (h : closeParen s = .ok s') : Passed s.rest [.rightParen] s'.rest := by
  unfold closeParen at h
  dsimp only at h
  split at h
  · rename_i hparen
    cases h
    exact (Passed.skipBlanks s).trans (.advance hparen nofun rfl)
  · cases h

theorem requireIndex_passed {index : Index} {expected : Expected} {s s' : TokenStream}
    (h : requireIndex index expected s = .ok s') :
    ∃ name, IsRegister index name ∧ Passed s.rest [.identifier name] s'.rest := by
  unfold requireIndex at h
  split at h
  · rename_i found t hindex
    split at h
    · rename_i heq
      cases h
      exact heq ▸ index?_passed hindex
    · cases h
  · cases h

theorem Gives.listFrom {α : Type} {item : Reader α} {written : List Lexeme → α → Prop} (hitem : Gives item written)
    {n : Nat} {items as : List α} {s s' : TokenStream} (h : listFrom item n items s = .ok (as, s'))
    {ws : List Lexeme} (hws : Listed written ws items.reverse) :
    ∃ xs, Passed s.rest xs s'.rest ∧ Listed written (ws ++ xs) as := by
  induction n generalizing items s ws with
  | zero =>
    cases h
    exact ⟨[], .refl _, by simpa using hws⟩
  | succ n ih =>
    unfold Line.listFrom at h
    split at h
    · cases h
      exact ⟨[], .skipBlanks s, by simpa using hws⟩
    · rename_i t hcomma
      obtain ⟨⟨a, u⟩, ha, h⟩ := bind_eq_ok.1 h
      obtain ⟨ys, hys, hwritten⟩ := hitem ha
      have hmore : Listed written (ws ++ .comma :: ys) (a :: items).reverse := by
        rw [List.reverse_cons]
        exact hws.more hwritten
      obtain ⟨xs, hxs, hlisted⟩ := ih h hmore
      exact ⟨.comma :: ys ++ xs, (comma?_passed hcomma).trans (hys.trans hxs), by simpa using hlisted⟩

theorem Gives.list {α : Type} {item : Reader α} {written : List Lexeme → α → Prop} (hitem : Gives item written) :
    Gives (list item) (Listed written) := by
  intro s as s' h
  obtain ⟨⟨a, t⟩, ha, h⟩ := bind_eq_ok.1 h
  obtain ⟨xs, hxs, hwritten⟩ := hitem ha
  obtain ⟨ys, hys, hlisted⟩ := hitem.listFrom h (.one hwritten)
  exact ⟨xs ++ ys, hxs.trans hys, hlisted⟩

theorem gives_dataItem : Gives dataItem DataItem.Written := by
  intro s i s' h
  unfold dataItem at h
  split at h
  · rename_i bytes hstring
    cases h
    exact ⟨_, (Passed.skipBlanks s).trans (.advance hstring nofun rfl), .text bytes⟩
  · obtain ⟨⟨e, t⟩, he, h⟩ := bind_eq_ok.1 h
    cases h
    obtain ⟨xs, hxs, hwritten⟩ := gives_expression he
    exact ⟨xs, hxs, .value hwritten⟩

theorem gives_forceSuffix : Gives forceSuffix ForceWritten := by
  intro s forced s' h
  unfold forceSuffix at h
  split at h
  · rename_i hdot
    split at h
    · rename_i name hname
      split at h
      · rename_i ha
        cases h
        exact ⟨_, (Passed.advance hdot nofun rfl).trans (.advance hname nofun rfl), .some ha⟩
      · cases h
    · cases h
  · cases h
    exact ⟨[], .refl _, .none⟩

theorem gives_directOperand : Gives directOperand OperandWritten := by
  intro s r s' h
  obtain ⟨⟨e, t⟩, he, h⟩ := bind_eq_ok.1 h
  obtain ⟨⟨forced, u⟩, hforced, h⟩ := bind_eq_ok.1 h
  obtain ⟨xs, hxs, hwritten⟩ := gives_expression he
  obtain ⟨ys, hys, hsuffix⟩ := gives_forceSuffix hforced
  dsimp only at h
  split at h
  · cases h
    exact ⟨xs ++ ys ++ [], (hxs.trans hys).trans (.skipBlanks u), .direct hwritten hsuffix .none⟩
  · rename_i v hcomma
    split at h
    · rename_i index w hindex
      cases h
      obtain ⟨name, hname, hpassed⟩ := index?_passed hindex
      exact ⟨_, (hxs.trans hys).trans ((comma?_passed hcomma).trans hpassed),
        .direct hwritten hsuffix (.some hname)⟩
    · cases h

theorem gives_indirectOperand : Gives indirectOperand fun xs => OperandWritten (.leftParen :: xs) := by
  intro s r s' h
  obtain ⟨⟨e, t⟩, he, h⟩ := bind_eq_ok.1 h
  obtain ⟨xs, hxs, hwritten⟩ := gives_expression he
  dsimp only at h
  split at h
  · rename_i u hcomma
    obtain ⟨v, hindex, h⟩ := bind_eq_ok.1 h
    obtain ⟨w, hparen, h⟩ := bind_eq_ok.1 h
    cases h
    obtain ⟨name, hname, hpassed⟩ := requireIndex_passed hindex
    exact ⟨_, hxs.trans ((comma?_passed hcomma).trans (hpassed.trans (closeParen_passed hparen))),
      .indirectX hwritten hname⟩
  · obtain ⟨u, hparen, h⟩ := bind_eq_ok.1 h
    have hclosed := hxs.trans (closeParen_passed hparen)
    split at h
    · rename_i v hcomma
      obtain ⟨w, hindex, h⟩ := bind_eq_ok.1 h
      cases h
      obtain ⟨name, hname, hpassed⟩ := requireIndex_passed hindex
      refine ⟨_, hclosed.trans ((comma?_passed hcomma).trans hpassed), ?_⟩
      simpa using OperandWritten.indirectY hwritten hname
    · cases h
      refine ⟨_, hclosed.trans (.skipBlanks u), ?_⟩
      simpa using OperandWritten.indirect hwritten

theorem gives_operand : Gives operand OperandWritten := by
  intro s r s' h
  have hskip := Passed.skipBlanks s
  unfold operand at h
  dsimp only at h
  split at h
  · cases h
    exact ⟨[], hskip, .none⟩
  split at h
  · rename_i haccumulator
    cases h
    unfold isAccumulator at haccumulator
    split at haccumulator
    · rename_i name hname
      rw [Bool.and_eq_true] at haccumulator
      exact ⟨_, hskip.trans (.advance hname nofun rfl), .accumulator haccumulator.1⟩
    · cases haccumulator
  split at h
  · rename_i hhash
    obtain ⟨⟨e, t⟩, he, h⟩ := bind_eq_ok.1 h
    cases h
    obtain ⟨xs, hxs, hwritten⟩ := gives_expression he
    exact ⟨_, hskip.trans ((Passed.advance hhash nofun rfl).trans hxs), .immediate hwritten⟩
  split at h
  · rename_i hparen
    obtain ⟨xs, hxs, hwritten⟩ := gives_indirectOperand h
    exact ⟨_, hskip.trans ((Passed.advance hparen nofun rfl).trans hxs), hwritten⟩
  · obtain ⟨xs, hxs, hwritten⟩ := gives_directOperand h
    exact ⟨xs, hskip.trans hxs, hwritten⟩

/-- After its keyword a directive reads the rest of the statement. -/
theorem directive?_written {keyword : String} {ks : List Lexeme} (hks : IsKeyword (Text.upper keyword) ks)
    {s s' : TokenStream} {st : Statement} (h : directive? keyword s = some (.ok (st, s'))) :
    ∃ xs, Passed s.rest xs s'.rest ∧ st.Written (ks ++ xs) := by
  have hbytes (hk : IsKeyword "DB" ks ∨ IsKeyword "BYTE" ks)
      (h : (list dataItem s >>= fun r => .ok (.bytes r.1, r.2)) = .ok (st, s')) :
      ∃ xs, Passed s.rest xs s'.rest ∧ st.Written (ks ++ xs) := by
    obtain ⟨⟨items, t⟩, hitems, h⟩ := bind_eq_ok.1 h
    cases h
    obtain ⟨xs, hxs, hlisted⟩ := gives_dataItem.list hitems
    exact ⟨xs, hxs, .bytes hk hlisted⟩
  have hwords (hk : IsKeyword "DW" ks ∨ IsKeyword "WORD" ks)
      (h : (list expression s >>= fun r => .ok (.words r.1, r.2)) = .ok (st, s')) :
      ∃ xs, Passed s.rest xs s'.rest ∧ st.Written (ks ++ xs) := by
    obtain ⟨⟨items, t⟩, hitems, h⟩ := bind_eq_ok.1 h
    cases h
    obtain ⟨xs, hxs, hlisted⟩ := gives_expression.list hitems
    exact ⟨xs, hxs, .words hk hlisted⟩
  unfold directive? at h
  split at h
  · rename_i hkeyword
    obtain ⟨⟨e, t⟩, he, h⟩ := bind_eq_ok.1 (Option.some.inj h)
    cases h
    obtain ⟨xs, hxs, hwritten⟩ := gives_expression he
    exact ⟨xs, hxs, .origin (hkeyword ▸ hks) hwritten⟩
  · rename_i hkeyword
    exact hbytes (.inl (hkeyword ▸ hks)) (Option.some.inj h)
  · rename_i hkeyword
    exact hbytes (.inr (hkeyword ▸ hks)) (Option.some.inj h)
  · rename_i hkeyword
    exact hwords (.inl (hkeyword ▸ hks)) (Option.some.inj h)
  · rename_i hkeyword
    exact hwords (.inr (hkeyword ▸ hks)) (Option.some.inj h)
  · cases h

theorem equals?_passed {s s' : TokenStream} (h : equals? s = some s') :
    ∃ x, IsEquals x ∧ Passed s.rest [x] s'.rest := by
  unfold equals? at h
  dsimp only at h
  split at h
  · rename_i hequal
    cases h
    exact ⟨_, .sign, (Passed.skipBlanks s).trans (.advance hequal nofun rfl)⟩
  · rename_i name hname
    split at h
    · rename_i hequ
      cases h
      exact ⟨_, .word hequ, (Passed.skipBlanks s).trans (.advance hname nofun rfl)⟩
    · cases h
  · cases h

theorem isLabel_of_checkLabel {name : String} {u : Unit} (h : checkLabel name = .ok u) : isLabel name = true := by
  simp only [isLabel, h]

theorem gives_wordStatement (word : String) :
    Gives (wordStatement word) fun xs => Statement.Written (.identifier word :: xs) := by
  intro s st s' h
  unfold wordStatement at h
  split at h
  · rename_i t hequals
    split at h
    · cases h
    · rename_i hlabel
      obtain ⟨⟨e, u⟩, he, h⟩ := bind_eq_ok.1 h
      cases h
      obtain ⟨x, hx, hpassed⟩ := equals?_passed hequals
      obtain ⟨xs, hxs, hwritten⟩ := gives_expression he
      exact ⟨_, hpassed.trans hxs, .equate (isLabel_of_checkLabel hlabel) hx hwritten⟩
  · split at h
    · rename_i result hdirective
      subst h
      obtain ⟨xs, hxs, hwritten⟩ := directive?_written (.plain rfl) hdirective
      exact ⟨xs, (Passed.skipBlanks s).trans hxs, hwritten⟩
    · obtain ⟨⟨⟨shape, e⟩, t⟩, hoperand, h⟩ := bind_eq_ok.1 h
      cases h
      obtain ⟨xs, hxs, hwritten⟩ := gives_operand hoperand
      exact ⟨xs, hxs, .instruction hwritten⟩

theorem gives_dotStatement : Gives dotStatement fun xs => Statement.Written (.dot :: xs) := by
  intro s st s' h
  unfold dotStatement at h
  split at h
  · rename_i keyword hkeyword
    split at h
    · rename_i result hdirective
      subst h
      obtain ⟨xs, hxs, hwritten⟩ := directive?_written (.dotted rfl) hdirective
      exact ⟨_, (Passed.advance hkeyword nofun rfl).trans hxs, hwritten⟩
    · cases h
  · cases h

theorem gives_statementPart : Gives statementPart Statement.Written := by
  intro s st s' h
  unfold statementPart at h
  split at h
  · rename_i name arguments hinvocation
    cases h
    exact ⟨_, .advance hinvocation nofun rfl, .invocation name arguments⟩
  · rename_i hdot
    obtain ⟨xs, hxs, hwritten⟩ := gives_dotStatement h
    exact ⟨_, (Passed.advance hdot nofun rfl).trans hxs, hwritten⟩
  · rename_i word hword
    obtain ⟨xs, hxs, hwritten⟩ := gives_wordStatement word h
    exact ⟨_, (Passed.advance hword nofun rfl).trans hxs, hwritten⟩
  · cases h

theorem gives_labelPart : Gives labelPart LabelWritten := by
  intro s label s' h
  unfold labelPart at h
  split at h
  · rename_i name hname hcolon
    split at h
    · cases h
    · rename_i hlabel
      cases h
      exact ⟨_, (Passed.advance hname nofun rfl).trans (.advance hcolon nofun rfl),
        .some (isLabel_of_checkLabel hlabel)⟩
  · cases h
    exact ⟨[], .refl _, .none⟩

/-! ## Whole lines -/

/-- Reads the label and the statement of a line, and the spaces after them. -/
def content (number : Nat) : Reader Line := fun s => do
  let (label, s) ← labelPart s.skipBlanks
  let s := s.skipBlanks
  if s.lexeme.endsLine then .ok (⟨number, label, none, s.location.2⟩, s)
  else
    let (st, rest) ← statementPart s
    .ok (⟨number, label, some st, s.location.2⟩, rest.skipBlanks)

theorem gives_content (number : Nat) : Gives (content number) Written := by
  intro s l s' h
  obtain ⟨⟨label, t⟩, hlabel, h⟩ := bind_eq_ok.1 h
  obtain ⟨xs, hxs, hlabel⟩ := gives_labelPart hlabel
  have hpassed := (Passed.skipBlanks s).trans (hxs.trans (.skipBlanks t))
  rw [List.nil_append, List.append_nil] at hpassed
  dsimp only at h
  split at h
  · cases h
    exact ⟨xs, hpassed, xs, [], by simp, hlabel, .none⟩
  · obtain ⟨⟨st, u⟩, hst, h⟩ := bind_eq_ok.1 h
    cases h
    obtain ⟨ys, hys, hwritten⟩ := gives_statementPart hst
    refine ⟨xs ++ ys, ?_, xs, ys, rfl, hlabel, .some hwritten⟩
    simpa using hpassed.trans (hys.trans (.skipBlanks u))

theorem atLineEnd_skipBlanks (s : TokenStream) : s.skipBlanks.atLineEnd = s.skipBlanks.lexeme.endsLine := by
  have hskip : s.skipBlanks.skipBlanks = s.skipBlanks := by
    simp only [TokenStream.skipBlanks, List.dropWhile_idempotent]
  rw [TokenStream.atLineEnd, hskip]

/-- Tokens form a line if its label and its statement reach to the end of the line. -/
theorem ofTokens_eq_ok {number : Nat} {tokens : List Token} {l : Line} (h : ofTokens number tokens = .ok l) :
    ∃ rest, content number (TokenStream.ofList tokens) = .ok (l, rest) ∧ rest.lexeme.endsLine = true := by
  obtain ⟨⟨label, s⟩, hlabel, h⟩ := bind_eq_ok.1 h
  simp only [atLineEnd_skipBlanks] at h
  split at h
  · rename_i hend
    cases h
    exact ⟨s.skipBlanks, bind_eq_ok.2 ⟨_, hlabel, if_pos hend⟩, hend⟩
  · rename_i hst
    obtain ⟨⟨st, rest⟩, hstatement, h⟩ := bind_eq_ok.1 h
    dsimp only at h
    split at h
    · rename_i hend
      cases h
      exact ⟨rest.skipBlanks, bind_eq_ok.2 ⟨_, hlabel, (if_neg hst).trans (bind_eq_ok.2 ⟨_, hstatement, rfl⟩)⟩, hend⟩
    · cases h

theorem read_eq_ok {text : List Char} {number : Nat} {l : Line} (h : read text number = .ok l) :
    ∃ tokens, Token.scan text number = (tokens, []) ∧ ofTokens number tokens = .ok l := by
  unfold read at h
  split at h
  · cases h
  · rename_i tokens hscan
    split at h
    · rename_i hline
      cases h
      exact ⟨tokens, hscan, hline⟩
    · cases h

end Line

end Mos6502
