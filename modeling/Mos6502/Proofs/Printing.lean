import Mos6502.Proofs.Encoding
import Mos6502.Proofs.Grammar
import Mos6502.Proofs.Reading
import Mos6502.Proofs.Scanning

/-!
# Printed expressions are read back

An expression is printed without parentheses. That loses nothing of a tree that
was read from a text: its sums nest to the left, a minus sign stands before a
single term, and the selection of a byte is outermost. The printed text has one
lexeme for each number, symbol and sign, and reading these gives the tree again.

Main statement: `Expr.printed_read_back`.
-/
namespace Mos6502

/-! ## Numbers and words -/

/-- The digits of a number by the values of their places. -/
theorem Hex.digits_spec (n : Nat) :
    ∃ ns : List Nat, ns ≠ [] ∧ (∀ m ∈ ns, m < 16) ∧ ns.foldl (fun v m => v * 16 + m) 0 = n ∧
      digits n = ns.map digit := by
  fun_induction digits n with
  | case1 n h => exact ⟨[n], by simp, by simpa using h, by simp, rfl⟩
  | case2 n h ih =>
    obtain ⟨ns, hne, hlt, hvalue, hdigits⟩ := ih
    refine ⟨ns ++ [n % 16], by simp, ?_, ?_, by rw [hdigits, List.map_append]; rfl⟩
    · intro m hm
      rcases List.mem_append.1 hm with hm | hm
      · exact hlt m hm
      · rw [List.mem_singleton.1 hm]
        exact Nat.mod_lt n (by omega)
    · rw [List.foldl_append, hvalue, List.foldl_cons, List.foldl_nil]
      omega

theorem digits?_hexNumber (n : Nat) : Numeral.digits? 16 (Hex.number n).toList = some n := by
  obtain ⟨ns, hne, hlt, hvalue, hdigits⟩ := Hex.digits_spec n
  rw [Hex.number, String.toList_ofList, hdigits, digits?_map_digit ns hne hlt, hvalue]

theorem spells_hexNumber (w : UInt16) : Spells ("$" ++ Hex.number w.toNat) (.hex w) := by
  refine ⟨fun {rest xs} hr h => ?_⟩
  have hw := w.toNat_lt
  simpa using Lexes.hex (digits?_hexNumber w.toNat) (by omega) hr h

/-- What is read as an identifier is a word. -/
theorem Scan.start_identifier {c : Char} {cs : List Char} {name : String}
    (h : (start c cs).found = .ok (.identifier name)) : isWord name = true := by
  by_cases hc : isWordStart c = true
  · rw [start_word hc] at h
    cases h
    simp only [isWord, String.toList_ofList, hc, Bool.true_and, List.all_eq_true]
    exact fun d hd => List.mem_takeWhile_imp hd
  · -- no other scan finds an identifier
    exfalso
    unfold start at h
    split at h
    · cases h
    · cases h
    · cases h
    · cases h
    · unfold hexadecimal at h
      dsimp only at h
      split at h
      · cases h
      · split at h
        · cases h
        · obtain ⟨n, hn⟩ := sixteenBits_ok h
          cases hn
    · unfold binary at h
      dsimp only at h
      split at h
      · cases h
      · obtain ⟨n, hn⟩ := sixteenBits_ok h
        cases hn
    · obtain ⟨bs, hbs⟩ := stringBody_ok h
      cases hbs
    · obtain ⟨b, hb⟩ := character_ok h
      cases hb
    · unfold invocation at h
      dsimp only at h
      split at h <;> cases h
    · rw [if_neg hc] at h
      split at h
      · cases h
      split at h
      · obtain ⟨n, hn⟩ := sixteenBits_ok h
        cases hn
      split at h
      · rename_i hsign
        cases h
        unfold Lexeme.ofSign? at hsign
        split at hsign <;> cases hsign
      · cases h

theorem Scans.isWord {cs : List Char} {xs : List Lexeme} (h : Scans cs xs) {name : String}
    (hname : .identifier name ∈ xs) : isWord name = true := by
  induction h with
  | nil => cases hname
  | cons scan _ ih =>
    rcases List.mem_cons.1 hname with rfl | hname
    · exact Scan.start_identifier (congrArg Scan.found scan)
    · exact ih hname

namespace Expr

/-! ## The lexemes of an expression -/

/-- The lexemes that an expression is printed as. -/
def lexemes : Expr → List Lexeme
  | number n => [.hex (UInt16.ofInt n)]
  | symbol name => [.identifier name]
  | here => [.star]
  | neg e => .minus :: e.lexemes
  | add l r => l.lexemes ++ .plus :: r.lexemes
  | sub l r => l.lexemes ++ .minus :: r.lexemes
  | low e => .less :: e.lexemes
  | high e => .greater :: e.lexemes

theorem isTerm_number (w : UInt16) : IsTerm (number w.toNat).lexemes (number w.toNat) := by
  rw [lexemes, Encoding.ofInt_word]
  exact .hex w

theorem IsTerm.lexemes {xs : List Lexeme} {e : Expr} (h : IsTerm xs e) : IsTerm e.lexemes e := by
  induction h with
  | hex n | decimal n | binary n => exact isTerm_number n
  | character b => simpa using isTerm_number b.toUInt16
  | symbol name => exact .symbol name
  | here => exact .here
  | neg _ ih => exact ih.neg

theorem IsSum.lexemes {xs : List Lexeme} {e : Expr} (h : IsSum xs e) : IsSum e.lexemes e := by
  induction h with
  | term hterm => exact .term hterm.lexemes
  | add _ hr ih => exact ih.add hr.lexemes
  | sub _ hr ih => exact ih.sub hr.lexemes

theorem Written.lexemes {xs : List Lexeme} {e : Expr} (h : Written xs e) : Written e.lexemes e := by
  cases h with
  | sum hsum => exact .sum hsum.lexemes
  | low hsum => exact .low hsum.lexemes
  | high hsum => exact .high hsum.lexemes

/-! ## Printing -/

/-- The printed text consists of the lexemes, before anything that cannot go on with it. -/
structure Prints (e : Expr) : Prop where
  append : ∀ {rest : List Char} {xs : List Lexeme}, Stops Scan.isWordChar rest → Lexes rest xs →
    Lexes (e.render.toList ++ rest) (e.lexemes ++ xs)

theorem prints_number (w : UInt16) : Prints (number w.toNat) := by
  refine ⟨fun {rest xs} hr h => ?_⟩
  simpa [render, lexemes, Encoding.ofInt_word] using (spells_hexNumber w).append hr h

theorem IsTerm.prints {xs : List Lexeme} {e : Expr} (h : IsTerm xs e)
    (hwords : ∀ name, .identifier name ∈ xs → isWord name = true) : e.Prints := by
  induction h with
  | hex n | decimal n | binary n => exact prints_number n
  | character b => simpa using prints_number b.toUInt16
  | symbol name => exact ⟨fun hr h => (spells_word (hwords name (by simp))).append hr h⟩
  | here => exact ⟨fun _ h => .sign rfl h⟩
  | neg _ ih =>
    have hterm := ih fun name hname => hwords name (by simp [hname])
    refine ⟨fun {rest zs} hr h => ?_⟩
    simpa [render, Expr.lexemes] using Lexes.sign (c := '-') rfl (hterm.append hr h)

/-- A sign and a term after what is printed already. -/
theorem Prints.sign {l r : Expr} (hl : l.Prints) (hr : r.Prints) {c : Char} {x : Lexeme}
    (hc : Lexeme.ofSign? c = some x) (hword : Scan.isWordChar c = false) {rest : List Char} {xs : List Lexeme}
    (hrest : Stops Scan.isWordChar rest) (h : Lexes rest xs) :
    Lexes (l.render.toList ++ c :: (r.render.toList ++ rest)) (l.lexemes ++ x :: (r.lexemes ++ xs)) :=
  hl.append (stops_cons hword) (.sign hc (hr.append hrest h))

theorem IsSum.prints {xs : List Lexeme} {e : Expr} (h : IsSum xs e)
    (hwords : ∀ name, .identifier name ∈ xs → isWord name = true) : e.Prints := by
  induction h with
  | term hterm => exact hterm.prints hwords
  | add _ hr ih =>
    have hleft := ih fun name hname => hwords name (by simp [hname])
    have hright := hr.prints fun name hname => hwords name (by simp [hname])
    refine ⟨fun {rest zs} hrest h => ?_⟩
    simpa [render, Expr.lexemes] using hleft.sign hright (c := '+') rfl rfl hrest h
  | sub _ hr ih =>
    have hleft := ih fun name hname => hwords name (by simp [hname])
    have hright := hr.prints fun name hname => hwords name (by simp [hname])
    refine ⟨fun {rest zs} hrest h => ?_⟩
    simpa [render, Expr.lexemes] using hleft.sign hright (c := '-') rfl rfl hrest h

theorem Written.prints {xs : List Lexeme} {e : Expr} (h : Written xs e)
    (hwords : ∀ name, .identifier name ∈ xs → isWord name = true) : e.Prints := by
  cases h with
  | sum hsum => exact hsum.prints hwords
  | low hsum =>
    have hsum := hsum.prints fun name hname => hwords name (by simp [hname])
    refine ⟨fun {rest zs} hrest h => ?_⟩
    simpa [render, Expr.lexemes] using Lexes.sign (c := '<') rfl (hsum.append hrest h)
  | high hsum =>
    have hsum := hsum.prints fun name hname => hwords name (by simp [hname])
    refine ⟨fun {rest zs} hrest h => ?_⟩
    simpa [render, Expr.lexemes] using Lexes.sign (c := '>') rfl (hsum.append hrest h)

/-! ## Reading what is written -/

/-- A lexeme that is a term by itself. -/
theorem readTerm_lexeme {x : Lexeme} {e : Expr} (hx : ofLexeme? x = some e) {ts : List Token} {ys : List Lexeme}
    (hts : ts.map (·.lexeme) = x :: ys) : ∃ rest, readTerm ts = .ok (e, rest) ∧ rest.map (·.lexeme) = ys := by
  obtain ⟨t, rest, rfl, rfl, rfl⟩ := List.map_eq_cons_iff.1 hts
  obtain ⟨hblank, hminus, -⟩ := Line.term_lexeme hx
  exact ⟨rest, by simp [readTerm, hx], rfl⟩

theorem readTerm_of_isTerm {xs ys : List Lexeme} {e : Expr} (h : IsTerm xs e) {ts : List Token}
    (hts : ts.map (·.lexeme) = xs ++ ys) : ∃ rest, readTerm ts = .ok (e, rest) ∧ rest.map (·.lexeme) = ys := by
  induction h generalizing ts with
  | hex | decimal | binary | character | symbol | here => exact readTerm_lexeme rfl hts
  | neg _ ih =>
    obtain ⟨t, ts, rfl, hminus, hts⟩ := List.map_eq_cons_iff.1 hts
    obtain ⟨rest, hread, hrest⟩ := ih hts
    exact ⟨rest, by simp [readTerm, hminus, hread, Except.map], hrest⟩

/-- A sign and a term go on with a sum. -/
theorem readSum_join {left right : Expr} {x : Lexeme} {join : Expr → Expr → Expr} (hx : join? x = some join)
    {xs ys : List Lexeme} (h : IsTerm xs right) {ts : List Token} (hts : ts.map (·.lexeme) = x :: (xs ++ ys)) :
    ∃ rest, readSum left ts = readSum (join left right) rest ∧ rest.map (·.lexeme) = ys := by
  obtain ⟨t, ts, rfl, rfl, hterm⟩ := List.map_eq_cons_iff.1 hts
  obtain ⟨rest, hread, hrest⟩ := readTerm_of_isTerm h hterm
  have hblank : t.lexeme ≠ .blank := by
    intro hblank
    rw [hblank] at hx
    cases hx
  refine ⟨rest, ?_, hrest⟩
  rw [readSum_eq, List.dropWhile_cons_of_neg (by simpa using hblank)]
  simp only [hx, hread]
  rfl

/-- After its terms a sum is read on from the expression that they form. -/
theorem readPlain_of_isSum {xs ys : List Lexeme} {e : Expr} (h : IsSum xs e) {ts : List Token}
    (hts : ts.map (·.lexeme) = xs ++ ys) : ∃ rest, readPlain ts = readSum e rest ∧ rest.map (·.lexeme) = ys := by
  induction h generalizing ys with
  | term hterm =>
    obtain ⟨rest, hread, hrest⟩ := readTerm_of_isTerm hterm hts
    exact ⟨rest, by rw [readPlain, hread]; rfl, hrest⟩
  | @add xs zs l r _ hr ih =>
    have hsplit : ts.map (·.lexeme) = xs ++ .plus :: (zs ++ ys) := by simpa using hts
    obtain ⟨rest, hplain, hrest⟩ := ih hsplit
    obtain ⟨rest', hsum, hrest'⟩ := readSum_join rfl hr hrest
    exact ⟨rest', hplain.trans hsum, hrest'⟩
  | @sub xs zs l r _ hr ih =>
    have hsplit : ts.map (·.lexeme) = xs ++ .minus :: (zs ++ ys) := by simpa using hts
    obtain ⟨rest, hplain, hrest⟩ := ih hsplit
    obtain ⟨rest', hsum, hrest'⟩ := readSum_join rfl hr hrest
    exact ⟨rest', hplain.trans hsum, hrest'⟩

/-- A sum starts with neither a space nor a selecting sign. -/
theorem IsSum.head {xs : List Lexeme} {e : Expr} (h : IsSum xs e) :
    ∃ x xs', xs = x :: xs' ∧ x ≠ .blank ∧ select? x = none := by
  induction h with
  | term hterm => cases hterm <;> exact ⟨_, _, rfl, by simp, rfl⟩
  | add _ _ ih | sub _ _ ih =>
    obtain ⟨x, xs', rfl, hx⟩ := ih
    exact ⟨x, _, rfl, hx⟩

/-- Lexemes that write an expression are read as that expression, up to where it closes. -/
theorem read_of_written {xs ys : List Lexeme} {e : Expr} (h : Written xs e) (hys : Line.Closes ys) {ts : List Token}
    (hts : ts.map (·.lexeme) = xs ++ ys) : ∃ rest, read ts = .ok (e, rest) ∧ rest.map (·.lexeme) = ys := by
  have hplain {xs : List Lexeme} {e : Expr} (h : IsSum xs e) {ts : List Token}
      (hts : ts.map (·.lexeme) = xs ++ ys) : ∃ rest, readPlain ts = .ok (e, rest) ∧ rest.map (·.lexeme) = ys := by
    obtain ⟨rest, hread, hrest⟩ := readPlain_of_isSum h hts
    exact ⟨rest, by rw [hread, Line.readSum_of_closes (hrest ▸ hys)], hrest⟩
  cases h with
  | sum hsum =>
    obtain ⟨rest, hread, hrest⟩ := hplain hsum hts
    obtain ⟨x, xs', rfl, hblank, hselect⟩ := hsum.head
    obtain ⟨t, ts, rfl, rfl, -⟩ := List.map_eq_cons_iff.1 hts
    refine ⟨rest, ?_, hrest⟩
    simp [read, hblank, hselect, hread]
  | low hsum =>
    obtain ⟨t, ts, rfl, hless, hts⟩ := List.map_eq_cons_iff.1 hts
    obtain ⟨rest, hread, hrest⟩ := hplain hsum hts
    exact ⟨rest, by simp [read, hless, select?, hread, Except.map], hrest⟩
  | high hsum =>
    obtain ⟨t, ts, rfl, hgreater, hts⟩ := List.map_eq_cons_iff.1 hts
    obtain ⟨rest, hread, hrest⟩ := hplain hsum hts
    exact ⟨rest, by simp [read, hgreater, select?, hread, Except.map], hrest⟩

/-! ## Texts -/

theorem read_eq_ok_iff {text : List Char} {firstLine : Nat} {tokens : List Token} :
    Token.read text firstLine = .ok tokens ↔ Token.scan text firstLine = (tokens, []) := by
  unfold Token.read
  split
  · rename_i found hscan
    rw [hscan, Except.ok.injEq, Prod.mk.injEq, and_iff_left rfl]
  · rename_i found errors hnil hscan
    rw [hscan, Prod.mk.injEq]
    refine ⟨?_, fun h => (hnil h.2).elim⟩
    intro h
    cases h

/-- The identifiers of a text without faults are words. -/
theorem isWord_of_read {text : List Char} {firstLine : Nat} {tokens : List Token}
    (h : Token.read text firstLine = .ok tokens) {name : String}
    (hname : .identifier name ∈ tokens.map (·.lexeme)) : isWord name = true := by
  obtain ⟨xs, hscans, htokens⟩ := Token.scans_of_scan (read_eq_ok_iff.1 h)
  rw [htokens, List.mem_append] at hname
  exact hscans.isWord (hname.resolve_right (by simp))

/-- An expression that was read from a text, from any of its tokens on, is printed as a text without faults, and
reading that text gives the same expression and leaves nothing of the text. -/
theorem printed_read_back {text : List Char} {firstLine k : Nat} {tokens rest : List Token} {e : Expr}
    (htext : Token.read text firstLine = .ok tokens) (hread : read (tokens.drop k) = .ok (e, rest)) (line : Nat) :
    ∃ printed stop, Token.read e.render.toList line = .ok printed ∧ read printed = .ok (e, [stop]) ∧
      stop.lexeme = .endOfText ∧
      ∀ symbols address, (read printed).map (fun r => r.1.eval symbols address) = .ok (e.eval symbols address) := by
  obtain ⟨xs, hpassed, hwritten⟩ := read_written hread
  have hwords : ∀ name, .identifier name ∈ xs → isWord name = true := by
    intro name hname
    obtain ⟨row, hrow, -, rfl⟩ := hpassed
    refine isWord_of_read htext ?_
    have hmem : .identifier name ∈ row.map (·.lexeme) := List.mem_of_mem_filter hname
    rw [← List.take_append_drop k tokens, hrow]
    simp only [List.map_append, List.mem_append]
    exact .inr (.inl hmem)
  have hlexes := (hwritten.prints hwords).append (stops_nil _) .nil
  rw [List.append_nil, List.append_nil] at hlexes
  obtain ⟨printed, hscan, hprinted⟩ := hlexes.scan line
  have hcloses : Line.Closes [.endOfText] := Line.closes_cons (by simp) rfl
  obtain ⟨rest', hread', hrest'⟩ := read_of_written hwritten.lexemes hcloses hprinted
  obtain ⟨stop, rfl, hstop⟩ := List.map_eq_singleton_iff.1 hrest'
  exact ⟨printed, stop, read_eq_ok_iff.2 hscan, hread', hstop, fun symbols address => by rw [hread']; rfl⟩

/-- A selected sum with two signs before a number, a character and a comment. -/
theorem printed_read_back_selected : ∃ tokens rest printed stop,
    Token.read ">table + --2 - 'a' ; far".toList 1 = .ok tokens ∧
      read (tokens.drop 0) =
        .ok (.high (.sub (.add (.symbol "table") (.neg (.neg (.number 2)))) (.number 97)), rest) ∧
      Token.read ">table+--$2-$61".toList 1 = .ok printed ∧
      read printed = .ok (.high (.sub (.add (.symbol "table") (.neg (.neg (.number 2)))) (.number 97)), [stop]) := by
  let tokens : List Token :=
    [⟨.greater, 1, 0, 1⟩, ⟨.identifier "table", 1, 1, 5⟩, ⟨.blank, 1, 6, 1⟩, ⟨.plus, 1, 7, 1⟩, ⟨.blank, 1, 8, 1⟩,
      ⟨.minus, 1, 9, 1⟩, ⟨.minus, 1, 10, 1⟩, ⟨.decimal 2, 1, 11, 1⟩, ⟨.blank, 1, 12, 1⟩, ⟨.minus, 1, 13, 1⟩,
      ⟨.blank, 1, 14, 1⟩, ⟨.character 97, 1, 15, 3⟩, ⟨.blank, 1, 18, 1⟩, ⟨.comment " far", 1, 19, 5⟩,
      ⟨.endOfText, 1, 24, 0⟩]
  have htext : Token.read ">table + --2 - 'a' ; far".toList 1 = .ok tokens := by decide +kernel
  have hread : read (tokens.drop 0) =
      .ok (.high (.sub (.add (.symbol "table") (.neg (.neg (.number 2)))) (.number 97)), tokens.drop 13) := by
    decide +kernel
  have hrender : render (.high (.sub (.add (.symbol "table") (.neg (.neg (.number 2)))) (.number 97))) =
      ">table+--$2-$61" := by decide +kernel
  obtain ⟨printed, stop, hprinted, hback, -, -⟩ := printed_read_back htext hread 1
  exact ⟨tokens, _, printed, stop, htext, hread, hrender ▸ hprinted, hback⟩

end Expr

end Mos6502
