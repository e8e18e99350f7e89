import Mos6502.Source.Label
import Mos6502.Source.Lexer
import Mos6502.Text.Hex
import Mos6502.Text.Lines

/-!
# Texts and their lexemes

`Lexes` relates a text to the lexemes it is made of. A text is put together from
its end: in front of one that lexes, a sign, spaces, a word or a number lexes as
well, as long as what follows cannot be read as a part of it.

Main statement: a text that lexes is scanned without faults into the tokens of
its lexemes (`Lexes.scan`).
-/
namespace Mos6502

/-- The text consists of the lexemes, on a single line. -/
inductive Lexes : List Char → List Lexeme → Prop
  | nil : Lexes [] []
  | cons {c : Char} {cs taken rest : List Char} {x : Lexeme} {xs : List Lexeme}
      (scan : Scan.start c cs = ⟨.ok x, taken, rest⟩) (sameLine : x ≠ .newline) (lexes : Lexes rest xs) :
      Lexes (c :: cs) (x :: xs)

/-! ## Scanning -/

theorem Scanner.next_of_start {s : Scanner} {c : Char} {cs taken rest : List Char} {x : Lexeme}
    (hs : s.rest = c :: cs) (h : Scan.start c cs = ⟨.ok x, taken, rest⟩) (hx : x ≠ .newline) :
    ∃ t s', s.next = some (.ok t, s') ∧ t.lexeme = x ∧ s'.rest = rest := by
  unfold next
  rw [hs]
  simp only [h]
  exact ⟨_, _, rfl, rfl, rfl⟩

theorem Lexes.run {cs : List Char} {xs : List Lexeme} (h : Lexes cs xs) {s : Scanner} (hs : s.rest = cs)
    (tokens : Array Token) (errors : Array LexError) :
    ∃ ts : List Token, s.run tokens errors = (tokens ++ ts, errors) ∧
      ts.map (·.lexeme) = xs ++ [.endOfText] := by
  induction h generalizing s tokens with
  | nil =>
    have hnext : s.next = none := by simp only [Scanner.next, hs]
    refine ⟨[⟨.endOfText, s.line, s.column, 0⟩], ?_, rfl⟩
    rw [Scanner.run]
    split <;> simp_all
  | cons scan sameLine _ ih =>
    obtain ⟨t, s', hnext, rfl, hrest⟩ := Scanner.next_of_start hs scan sameLine
    obtain ⟨ts, hrun, hts⟩ := ih hrest (tokens.push t)
    refine ⟨t :: ts, ?_, by simp [hts]⟩
    rw [Scanner.run]
    split <;> simp_all

/-- A text that lexes has no faults, and its tokens stand for its lexemes and the end. -/
theorem Lexes.scan {cs : List Char} {xs : List Lexeme} (h : Lexes cs xs) (firstLine : Nat) :
    ∃ ts, Token.scan cs firstLine = (ts, []) ∧ ts.map (·.lexeme) = xs ++ [.endOfText] := by
  obtain ⟨ts, hrun, hts⟩ := h.run (s := ⟨cs, firstLine, 0⟩) rfl #[] #[]
  exact ⟨ts, by simp [Token.scan, hrun], hts⟩

/-! ## Pieces of text -/

/-- The text does not go on with a character of the class. -/
def Stops (p : Char → Bool) (cs : List Char) : Prop :=
  ∀ c ∈ cs.head?, p c = false

theorem stops_nil (p : Char → Bool) : Stops p [] :=
  nofun

theorem stops_cons {p : Char → Bool} {c : Char} {cs : List Char} (h : p c = false) : Stops p (c :: cs) := by
  rintro _ ⟨⟩
  exact h

/-- A row of characters of the class is cut off where the class ends. -/
theorem cut_stop {p : Char → Bool} {body rest : List Char} (hb : ∀ c ∈ body, p c = true)
    (hr : Stops p rest) : (body ++ rest).takeWhile p = body ∧ (body ++ rest).dropWhile p = rest := by
  induction body with
  | nil =>
    cases rest with
    | nil => exact ⟨rfl, rfl⟩
    | cons c rest => simp [hr c rfl]
  | cons c body ih =>
    obtain ⟨ht, hd⟩ := ih fun d hd => hb d (by simp [hd])
    simp [hb c (by simp), ht, hd]

/-- A text is cut at the first character of its kind. -/
theorem cut_before {c : Char} {body : List Char} (h : c ∉ body) (rest : List Char) :
    (body ++ c :: rest).takeWhile (· ≠ c) = body ∧ (body ++ c :: rest).dropWhile (· ≠ c) = c :: rest := by
  refine cut_stop (fun d hd => decide_eq_true ?_) (stops_cons (by simp))
  rintro rfl
  exact h hd

namespace Lexes

theorem sign {c : Char} {rest : List Char} {x : Lexeme} {xs : List Lexeme}
    (hc : Lexeme.ofSign? c = some x) (h : Lexes rest xs) : Lexes (c :: rest) (x :: xs) := by
  unfold Lexeme.ofSign? at hc
  split at hc <;> cases hc <;> exact cons rfl nofun h

/-- Only spaces are read as a space. -/
theorem stops_space {cs : List Char} {xs : List Lexeme} (h : Lexes cs xs) (hx : xs.head? ≠ some .blank) :
    Stops Scan.isSpace cs := by
  cases h with
  | nil => exact stops_nil _
  | @cons c cs _ _ x xs scan _ _ =>
    refine stops_cons (Bool.eq_false_iff.2 fun hc => hx ?_)
    simp only [Scan.isSpace, Bool.or_eq_true, beq_iff_eq] at hc
    rcases hc with rfl | rfl <;> cases scan <;> rfl

theorem blanks {c : Char} {body cs : List Char} {xs : List Lexeme} (hc : Scan.isSpace c = true)
    (hbody : ∀ d ∈ body, Scan.isSpace d = true) (h : Lexes cs xs) (hx : xs.head? ≠ some .blank) :
    Lexes (c :: body ++ cs) (.blank :: xs) := by
  obtain ⟨ht, hd⟩ := cut_stop hbody (h.stops_space hx)
  have hscan : Scan.start c (body ++ cs) = ⟨.ok .blank, c :: body, cs⟩ := by
    simp only [Scan.isSpace, Bool.or_eq_true, beq_iff_eq] at hc
    rcases hc with rfl | rfl <;> simp [Scan.start, Scan.isSpace, Scan.spaces, ht, hd]
  exact cons hscan nofun h

theorem spaces {n : Nat} {cs : List Char} {xs : List Lexeme} (h : Lexes cs xs) (hx : xs.head? ≠ some .blank) :
    Lexes (List.replicate (n + 1) ' ' ++ cs) (.blank :: xs) := by
  refine blanks rfl (fun d hd => ?_) h hx
  rw [List.eq_of_mem_replicate hd]
  rfl

/-- A comment goes on to the end of its line. -/
theorem comment {text : List Char} (h : ∀ c ∈ text, Scan.isLineEnd c = false) :
    Lexes (';' :: text) [.comment (String.ofList text)] := by
  have hplain : ∀ c ∈ text, (!Scan.isLineEnd c) = true := fun c hc => by rw [h c hc]; rfl
  obtain ⟨ht, hd⟩ := cut_stop hplain (stops_nil (!Scan.isLineEnd ·))
  rw [List.append_nil] at ht hd
  have hscan : Scan.start ';' text = ⟨.ok (.comment (String.ofList text)), ';' :: text, []⟩ := by
    simp [Scan.start, Scan.comment, ht, hd]
  exact cons hscan nofun .nil

end Lexes

/-! ## Words -/

/-- The text, before anything that cannot go on with it, is the one lexeme. -/
structure Spells (text : String) (x : Lexeme) : Prop where
  append : ∀ {rest : List Char} {xs : List Lexeme}, Stops Scan.isWordChar rest → Lexes rest xs →
    Lexes (text.toList ++ rest) (x :: xs)

theorem Spells.lexes {text : String} {x : Lexeme} (h : Spells text x) : Lexes text.toList [x] := by
  simpa using h.append (stops_nil _) .nil

/-- The text can be an identifier. -/
def isWord (text : String) : Bool :=
  match text.toList with
  | [] => false
  | c :: cs => Scan.isWordStart c && cs.all Scan.isWordChar

theorem Scan.isWordChar_start {c : Char} (h : isWordStart c = true) : isWordChar c = true := by
  simp only [isWordStart, isWordChar, Char.isAlphanum, Bool.or_eq_true] at h ⊢
  rcases h with h | h
  · exact .inl (.inl h)
  · exact .inr h

theorem Scan.wordStart_class {c : Char} (h : isWordStart c = true) : isSpace c = false ∧ c.isDigit = false := by
  simp only [isWordStart, Bool.or_eq_true, beq_iff_eq] at h
  rcases h with h | rfl
  · have hspace : c ≠ ' ' ∧ c ≠ '\t' := by
      constructor <;> (rintro rfl; cases h)
    delta Char.isAlpha Char.isUpper Char.isLower at h
    simp only [Char.isDigit, isSpace]
    grind
  · exact ⟨rfl, rfl⟩

theorem Scan.start_word {c : Char} {cs : List Char} (h : isWordStart c = true) :
    start c cs = identifier c cs := by
  obtain ⟨hspace, hdigit⟩ := wordStart_class h
  -- the cases before the tenth are single signs, none of which starts a word
  unfold start
  split
  case h_10 => simp [hspace, hdigit, h]
  all_goals cases h

theorem spells_word {text : String} (h : isWord text = true) : Spells text (.identifier text) := by
  unfold isWord at h
  split at h
  · cases h
  · rename_i c cs htext
    refine ⟨fun {rest xs} hr hrest => ?_⟩
    simp only [Bool.and_eq_true, List.all_eq_true] at h
    obtain ⟨ht, hd⟩ := cut_stop h.2 hr
    have hscan : Scan.start c (cs ++ rest) = ⟨.ok (.identifier text), c :: cs, rest⟩ := by
      rw [Scan.start_word h.1, Scan.identifier, ht, hd, ← htext, String.ofList_toList]
    rw [htext, List.cons_append]
    exact .cons hscan nofun hrest

/-- A label can be an identifier and names no register. -/
theorem word_of_isLabel {name : String} (h : isLabel name = true) : isWord name = true ∧ isRegister name = false := by
  unfold isLabel checkLabel at h
  unfold isWord
  cases htext : name.toList with
  | nil => simp [htext] at h
  | cons c cs =>
    simp only [htext] at h
    split at h
    · rename_i hok
      split at hok
      · cases hok
      split at hok
      · cases hok
      · rename_i hstart
        split at hok
        · cases hok
        · rename_i hfind
          simp only [List.find?_eq_none, Scan.isWordStart, List.all_eq_true, Scan.isWordChar,
            Bool.and_eq_true] at hfind hstart ⊢
          grind
    · cases h

theorem checkLabel_of_isLabel {name : String} (h : isLabel name = true) : checkLabel name = .ok () := by
  unfold isLabel at h
  split at h
  · assumption
  · cases h

/-! ## Numbers -/

theorem digit?_digit : ∀ n < 16, Numeral.digit? 16 (Hex.digit n) = some n := by
  decide

/-- The characters of words include the hexadecimal digits. -/
theorem Scan.isWordChar_digit {c : Char} (h : Numeral.isDigit 16 c = true) : isWordChar c = true := by
  simp only [Numeral.isDigit, Numeral.digit?, Char.isDigit, Char.le_def] at h
  simp only [isWordChar, Char.isAlphanum, Char.isDigit]
  delta Char.isAlpha Char.isUpper Char.isLower
  grind

theorem Stops.digits {cs : List Char} (h : Stops Scan.isWordChar cs) : Stops (Numeral.isDigit 16) cs := by
  intro c hc
  refine Bool.eq_false_iff.2 fun hdigit => ?_
  cases (h c hc).symm.trans (Scan.isWordChar_digit hdigit)

theorem Lexes.hex {n : Nat} {ds rest : List Char} {xs : List Lexeme} (hds : Numeral.digits? 16 ds = some n)
    (hn : n ≤ 0xFFFF) (hr : Stops Scan.isWordChar rest) (h : Lexes rest xs) :
    Lexes ('$' :: (ds ++ rest)) (.hex (UInt16.ofNat n) :: xs) := by
  have hall : ds ≠ [] ∧ ∀ c ∈ ds, Numeral.isDigit 16 c = true := by
    simp only [Numeral.digits?] at hds
    grind
  obtain ⟨ht, hd⟩ := cut_stop hall.2 hr.digits
  -- a character of a word right after the digits would be a fault
  have hhead : rest.head?.filter Scan.isWordChar = none := by
    simpa [Option.filter_eq_none_iff, Stops] using hr
  have hscan : Scan.start '$' (ds ++ rest) = ⟨.ok (.hex (UInt16.ofNat n)), '$' :: ds, rest⟩ := by
    simp [Scan.start, Scan.hexadecimal, ht, hd, hhead, hall.1, Scan.sixteenBits, hds, Option.filter_some, hn]
  exact .cons hscan nofun h

/-- Digits written from the values of their places are read as the number. -/
theorem digits?_map_digit (ns : List Nat) (hne : ns ≠ []) (h : ∀ n ∈ ns, n < 16) :
    Numeral.digits? 16 (ns.map Hex.digit) = some (ns.foldl (fun v n => v * 16 + n) 0) := by
  have hdigit : ∀ n ∈ ns, Numeral.digit? 16 (Hex.digit n) = some n := fun n hn => digit?_digit n (h n hn)
  have hvalue : Numeral.value 16 (ns.map Hex.digit) = ns.foldl (fun v n => v * 16 + n) 0 := by
    rw [Numeral.value, List.foldl_map]
    exact List.foldl_rel rfl fun n hn v w hvw => by rw [hdigit n hn, Option.getD_some, hvw]
  have hall : (ns.map Hex.digit).all (Numeral.isDigit 16) = true := by
    simp +contextual [Numeral.isDigit, hdigit]
  simp [Numeral.digits?, hvalue, hall, hne]

theorem digits?_hexWord (w : UInt16) : Numeral.digits? 16 (Hex.word w).toList = some w.toNat := by
  have hw := w.toNat_lt
  have hds := digits?_map_digit [w.toNat / 4096, w.toNat / 256 % 16, w.toNat / 16 % 16, w.toNat % 16]
    (by simp) (by simp; omega)
  have hvalue : (((w.toNat / 4096) * 16 + w.toNat / 256 % 16) * 16 + w.toNat / 16 % 16) * 16 + w.toNat % 16 =
      w.toNat := by omega
  simp only [List.map_cons, List.map_nil, List.foldl_cons, List.foldl_nil, Nat.zero_mul, Nat.zero_add,
    hvalue] at hds
  rw [Hex.word, String.toList_ofList, hds]

theorem spells_hexWord (w : UInt16) : Spells ("$" ++ Hex.word w) (.hex w) := by
  refine ⟨fun {rest xs} hr h => ?_⟩
  have hw := w.toNat_lt
  simpa using Lexes.hex (digits?_hexWord w) (by omega) hr h

theorem spells_hexByte (b : UInt8) : Spells ("$" ++ Hex.byte b) (.hex b.toUInt16) := by
  refine ⟨fun {rest xs} hr h => ?_⟩
  have hb := b.toNat_lt
  have hds := digits?_map_digit [b.toNat / 16, b.toNat % 16] (by simp) (by simp; omega)
  have hvalue : b.toNat / 16 * 16 + b.toNat % 16 = b.toNat := by omega
  simp only [List.map_cons, List.map_nil, List.foldl_cons, List.foldl_nil, Nat.zero_mul, Nat.zero_add,
    hvalue] at hds
  simpa [Hex.byte] using Lexes.hex hds (by omega) hr h

/-! ## Texts of one line -/

/-- No line ends within the text. -/
def Plain (text : String) : Prop :=
  text.toList.all (!Scan.isLineEnd ·) = true

instance (text : String) : Decidable (Plain text) :=
  inferInstanceAs (Decidable (text.toList.all (!Scan.isLineEnd ·) = true))

theorem plain_iff {text : String} : Plain text ↔ ∀ c ∈ text.toList, Scan.isLineEnd c = false := by
  simp [Plain]

theorem plain_append {s t : String} (hs : Plain s) (ht : Plain t) : Plain (s ++ t) := by
  rw [Plain, String.toList_append, List.all_append, hs, ht]
  rfl

theorem plain_word {text : String} (h : isWord text = true) : Plain text := by
  unfold isWord at h
  split at h
  · cases h
  · rename_i c cs htext
    simp only [Bool.and_eq_true, List.all_eq_true] at h
    refine plain_iff.2 fun d hd => ?_
    refine Bool.eq_false_iff.2 fun hend => ?_
    rw [htext, List.mem_cons] at hd
    simp only [Scan.isLineEnd, Bool.or_eq_true, beq_iff_eq] at hend
    rcases hd with rfl | hd
    · rcases hend with rfl | rfl <;> cases h.1
    · rcases hend with rfl | rfl <;> cases h.2 _ hd

theorem isLineEnd_digit : ∀ n < 16, Scan.isLineEnd (Hex.digit n) = false := by
  decide

theorem plain_hexWord (w : UInt16) : Plain (Hex.word w) := by
  have hw := w.toNat_lt
  refine plain_iff.2 fun c hc => ?_
  simp only [Hex.word, String.toList_ofList, List.mem_cons, List.not_mem_nil, or_false] at hc
  rcases hc with rfl | rfl | rfl | rfl <;> exact isLineEnd_digit _ (by omega)

theorem plain_hexByte (b : UInt8) : Plain (Hex.byte b) := by
  have hb := b.toNat_lt
  refine plain_iff.2 fun c hc => ?_
  simp only [Hex.byte, String.toList_ofList, List.mem_cons, List.not_mem_nil, or_false] at hc
  rcases hc with rfl | rfl <;> exact isLineEnd_digit _ (by omega)

/-! ## Texts of many lines -/

namespace Lines

/-- The text can stand on a line of its own: a carriage return at its end would belong to the line end. -/
def IsLine (cs : List Char) : Prop :=
  '\n' ∉ cs ∧ cs.getLast? ≠ some '\r'

theorem pieces_line {line : List Char} (h : '\n' ∉ line) (rest : List Char) :
    pieces (line ++ '\n' :: rest) = line :: pieces rest := by
  induction line with
  | nil => rfl
  | cons c line ih =>
    simp only [List.mem_cons, not_or] at h
    have hrest := ih h.2
    simp only [pieces, List.cons_append, List.foldr_cons] at hrest ⊢
    rw [hrest, if_neg (Ne.symm h.1)]

theorem dropReturn_line {cs : List Char} (h : IsLine cs) : dropReturn cs = cs :=
  if_neg h.2

/-- After the last line there is one more piece, which is empty. -/
theorem pieces_lines {ls : List String} (h : ∀ l ∈ ls, IsLine l.toList) :
    pieces (String.join (ls.map (· ++ "\n"))).toList = ls.map (·.toList) ++ [[]] := by
  induction ls with
  | nil => rfl
  | cons l ls ih =>
    have hline := pieces_line (h l (by simp)).1 (String.join (ls.map (· ++ "\n"))).toList
    rw [ih fun l hl => h l (by simp [hl])] at hline
    simpa [String.join_cons] using hline

/-- A text is split into the lines that it was joined from. -/
theorem split_lines {ls : List String} (h : ∀ l ∈ ls, IsLine l.toList) :
    split (String.join (ls.map (· ++ "\n"))).toList = ls.map (·.toList) := by
  have hreturn : (ls.map (·.toList)).map dropReturn = ls.map (·.toList) := by
    rw [List.map_map]
    exact List.map_congr_left fun l hl => dropReturn_line (h l hl)
  simp only [split, pieces_lines h, List.dropLast_concat, hreturn]
  simp

end Lines

theorem Plain.isLine {text : String} (h : Plain text) : Lines.IsLine text.toList := by
  constructor
  · intro hmem
    cases plain_iff.1 h _ hmem
  · intro hlast
    cases plain_iff.1 h _ (List.mem_of_getLast? hlast)

end Mos6502
