import Mathlib.Algebra.GroupWithZero.Nat
import Mathlib.Data.List.DropRight
import Mos6502.Proofs.Scanning

/-!
# Where tokens stand

The scanner moves to the next line when it has read a line end as a lexeme, and to
the right by the bytes of any other lexeme. So the pieces of a text without faults
stand side by side, and their positions are right up to the first literal with a
line end in it: one behind a backslash in a string or a character, or a bare
carriage return as a character. Such a line end is not counted, and it does not
start a new column.

Main statement: `token_positions`.
-/
namespace Mos6502

/-! ## Places in a text -/

/-- Line ends in a text: line feeds, and carriage returns with no line feed behind them. -/
def lineEnds : List Char → Nat
  | [] => 0
  | c :: cs => (if c = '\n' ∨ (c = '\r' ∧ cs.head? ≠ some '\n') then 1 else 0) + lineEnds cs

/-- The text behind the last line end. -/
def lastLine (text : List Char) : List Char :=
  text.rtakeWhile (!Scan.isLineEnd ·)

theorem lineEnds_append {as bs : List Char} (h : as.getLast? = some '\r' → bs.head? ≠ some '\n') :
    lineEnds (as ++ bs) = lineEnds as + lineEnds bs := by
  induction as with
  | nil => simp [lineEnds]
  | cons a as ih =>
    cases as with
    | nil =>
      by_cases ha : a = '\r'
      · subst ha
        have hhead := h rfl
        simp [lineEnds, hhead]
      · simp [lineEnds, ha]
    | cons b as =>
      have hrest := ih fun hlast => h (by simpa using hlast)
      rw [List.cons_append, lineEnds, hrest, lineEnds.eq_2 a, Nat.add_assoc]
      rfl

theorem isLineEnd_iff (c : Char) : Scan.isLineEnd c = true ↔ c = '\n' ∨ c = '\r' := by
  simp [Scan.isLineEnd]

theorem lineEnds_eq_zero {cs : List Char} : lineEnds cs = 0 ↔ ∀ c ∈ cs, Scan.isLineEnd c = false := by
  induction cs with
  | nil => simp [lineEnds]
  | cons c cs ih =>
    rw [lineEnds, Nat.add_eq_zero_iff, ih, List.forall_mem_cons]
    refine and_congr_left fun hcs => ?_
    have hhead : cs.head? ≠ some '\n' := by
      intro hhead
      cases hcs _ (List.mem_of_mem_head? hhead)
    simp only [hhead, ne_eq, not_false_eq_true, and_true, ← isLineEnd_iff]
    cases Scan.isLineEnd c <;> simp

theorem byteLength_foldl (cs : List Char) (n : Nat) :
    cs.foldl (fun n c => n + c.utf8Size) n = n + byteLength cs := by
  induction cs generalizing n with
  | nil => rfl
  | cons c cs ih => rw [byteLength, List.foldl_cons, List.foldl_cons, ih, ih, Nat.zero_add, Nat.add_assoc]

@[simp]
theorem byteLength_nil : byteLength [] = 0 :=
  rfl

@[simp]
theorem byteLength_append (as bs : List Char) : byteLength (as ++ bs) = byteLength as + byteLength bs := by
  rw [byteLength, List.foldl_append, byteLength_foldl, ← byteLength]

theorem length_le_byteLength (cs : List Char) : cs.length ≤ byteLength cs := by
  induction cs with
  | nil => exact Nat.le_refl _
  | cons c cs ih =>
    have hc := c.utf8Size_pos
    rw [← List.singleton_append, byteLength_append, List.length_append]
    simp only [byteLength, List.foldl_cons, List.foldl_nil, List.length_singleton] at ih ⊢
    omega

/-- The text is empty or ends with a line end. -/
def ClosesLine (cs : List Char) : Prop :=
  ∀ c, cs.getLast? = some c → Scan.isLineEnd c = true

theorem lastLine_append {as bs : List Char} (ha : ClosesLine as) (hb : ∀ c ∈ bs, Scan.isLineEnd c = false) :
    lastLine (as ++ bs) = bs := by
  induction bs using List.reverseRecOn with
  | nil =>
    rw [List.append_nil, lastLine, List.rtakeWhile_eq_nil_iff]
    intro hne
    simp [ha _ (List.getLast?_eq_some_getLast hne)]
  | append_singleton bs c ih =>
    rw [← List.append_assoc, lastLine, List.rtakeWhile_concat_pos _ _ _ (by simp [hb c]), ← lastLine,
      ih fun d hd => hb d (by simp [hd])]

theorem eq_of_suffix {as bs : List Char} (h : as <:+ bs) (hlength : byteLength as = byteLength bs) : as = bs := by
  obtain ⟨front, rfl⟩ := h
  have hfront := length_le_byteLength front
  rw [byteLength_append] at hlength
  obtain rfl : front = [] := List.eq_nil_of_length_eq_zero (by omega)
  rfl

/-- The last line begins behind the line end if and only if none follows. -/
theorem byteLength_lastLine {as bs : List Char} (ha : ClosesLine as) :
    byteLength bs = byteLength (lastLine (as ++ bs)) ↔ ∀ c ∈ bs, Scan.isLineEnd c = false := by
  constructor
  · intro h c hc
    have hlast : lastLine (as ++ bs) <:+ as ++ bs := List.rtakeWhile_suffix _ _
    have hmem : c ∈ lastLine (as ++ bs) := by
      rcases List.suffix_or_suffix_of_suffix hlast (List.suffix_append as bs) with hsuffix | hsuffix
      · rwa [eq_of_suffix hsuffix h.symm]
      · exact hsuffix.subset hc
    simpa using List.mem_rtakeWhile_imp hmem
  · intro h
    rw [lastLine_append ha h]

/-! ## Line ends in the pieces -/

namespace Scan

/-- Each line end stands behind a backslash. -/
def EscapesEnds (cs : List Char) : Prop :=
  ∀ before c after, cs = before ++ c :: after → isLineEnd c = true → before.getLast? = some '\\'

/-- What the piece of a lexeme looks like, and what may follow it. -/
inductive Shape : Lexeme → List Char → List Char → Prop
  | feed (rest : List Char) : Shape .newline ['\n'] rest
  | returnFeed (rest : List Char) : Shape .newline ['\r', '\n'] rest
  | bareReturn {rest : List Char} : rest.head? ≠ some '\n' → Shape .newline ['\r'] rest
  | string (bytes : List UInt8) {body : List Char} (rest : List Char) : EscapesEnds body →
    Shape (.string bytes) ('"' :: (body ++ ['"'])) rest
  | escaped (b : UInt8) (c : Char) (rest : List Char) : Shape (.character b) ['\'', '\\', c, '\''] rest
  | character (b : UInt8) {c : Char} (rest : List Char) : c ≠ '\n' → Shape (.character b) ['\'', c, '\''] rest
  | plain {x : Lexeme} {taken : List Char} (rest : List Char) : x ≠ .newline →
    (∀ c ∈ taken, isLineEnd c = false) → Shape x taken rest

theorem EscapesEnds.cons {c : Char} {cs : List Char} (hc : isLineEnd c = false) (h : EscapesEnds cs) :
    EscapesEnds (c :: cs) := by
  intro before d after heq hd
  cases before with
  | nil =>
    obtain ⟨rfl, -⟩ := List.cons.inj heq
    cases hc.symm.trans hd
  | cons e before =>
    have hlast := h before d after (List.cons.inj heq).2 hd
    rw [List.getLast?_cons, hlast]
    rfl

theorem EscapesEnds.escape (c : Char) {cs : List Char} (h : EscapesEnds cs) : EscapesEnds ('\\' :: c :: cs) := by
  intro before d after heq hd
  match before with
  | [] =>
    obtain ⟨rfl, -⟩ := List.cons.inj heq
    cases hd
  | [e] =>
    obtain ⟨rfl, -⟩ := List.cons.inj heq
    rfl
  | e :: f :: before =>
    obtain ⟨-, heq⟩ := List.cons.inj heq
    have hlast := h before d after (List.cons.inj heq).2 hd
    rw [List.getLast?_cons, List.getLast?_cons, hlast]
    rfl

theorem stringBody_escapes {before : List Char} {bytes : List UInt8} {cs : List Char} {x : Lexeme}
    {taken rest : List Char} (h : stringBody before bytes cs = ⟨.ok x, taken, rest⟩) :
    ∃ body, taken = before.reverse ++ (body ++ ['"']) ∧ EscapesEnds body := by
  fun_induction stringBody before bytes cs with
  | case1 => cases h
  | case2 before bytes cs =>
    cases h
    exact ⟨[], by simp, by simp [EscapesEnds]⟩
  | case3 => cases h
  | case4 before bytes c cs b hescape ih =>
    obtain ⟨body, rfl, hbody⟩ := ih h
    exact ⟨'\\' :: c :: body, by simp, hbody.escape c⟩
  | case5 => cases h
  | case6 => cases h
  | case7 before bytes c cs _ _ _ hend b _ ih =>
    obtain ⟨body, rfl, hbody⟩ := ih h
    exact ⟨c :: body, by simp, hbody.cons (by simpa using hend)⟩
  | case8 => cases h

theorem shape_character {cs : List Char} {x : Lexeme} {taken rest : List Char}
    (h : character cs = ⟨.ok x, taken, rest⟩) : Shape x taken rest := by
  obtain ⟨b, rfl⟩ := character_ok (congrArg Scan.found h)
  unfold character at h
  split at h
  · cases h
  · cases h
  · obtain ⟨rfl, -, -⟩ := closeCharacter_ok h
    exact .escaped b _ rest
  · split at h
    · cases h
    · rename_i hplain
      obtain ⟨rfl, -, -⟩ := closeCharacter_ok h
      exact .character b rest fun hc => hplain (.inr hc)

theorem arguments_plain (before : List Char) (quote : Option Char) (cs : List Char)
    (h : ∀ c ∈ before, isLineEnd c = false) : ∀ c ∈ (arguments before quote cs).1, isLineEnd c = false := by
  fun_induction arguments before quote cs with
  | case1 => exact h
  | case2 => exact h
  | case3 => exact h
  | case4 before c cs hend _ ih => exact ih (by simpa [hend] using h)
  | case5 before c cs hend q ih => exact ih (by simpa [hend] using h)

/-- A row of characters of a class without line ends. -/
theorem takeWhile_plain {p : Char → Bool} (hfeed : p '\n' = false) (hreturn : p '\r' = false) (cs : List Char) :
    ∀ c ∈ cs.takeWhile p, isLineEnd c = false := by
  intro c hc
  have hp := List.mem_takeWhile_imp hc
  rw [Bool.eq_false_iff]
  intro hend
  rcases (isLineEnd_iff c).1 hend with rfl | rfl
  · cases hfeed.symm.trans hp
  · cases hreturn.symm.trans hp

theorem shape_return {cs : List Char} {x : Lexeme} {taken rest : List Char}
    (h : start '\r' cs = ⟨.ok x, taken, rest⟩) : Shape x taken rest := by
  cases cs with
  | nil =>
    cases h
    exact .bareReturn (by simp)
  | cons d cs =>
    by_cases hd : d = '\n'
    · subst hd
      cases h
      exact .returnFeed _
    · rw [start_return hd] at h
      cases h
      exact .bareReturn (by simpa using hd)

theorem shape_invocation {cs : List Char} {x : Lexeme} {taken rest : List Char}
    (h : invocation cs = ⟨.ok x, taken, rest⟩) : Shape x taken rest := by
  unfold invocation at h
  dsimp only at h
  split at h
  · cases h
  · cases h
    have hname := takeWhile_plain (p := isWordChar) rfl rfl cs
    have hargs := arguments_plain [] none (cs.dropWhile isWordChar) (List.forall_mem_nil _)
    refine .plain _ (by simp) ?_
    intro c hc
    simp only [List.mem_cons, List.mem_append, List.mem_reverse] at hc
    rcases hc with rfl | hc | hc
    · rfl
    · exact hname c hc
    · exact hargs c hc

theorem shape_start {c : Char} {cs : List Char} {x : Lexeme} {taken rest : List Char}
    (h : start c cs = ⟨.ok x, taken, rest⟩) : Shape x taken rest := by
  -- a row of characters behind the first one, none of them a line end
  have hplain {row : List Char} (hc : isLineEnd c = false) (hrow : ∀ d ∈ row, isLineEnd d = false)
      (htaken : taken = c :: row) : Shape x taken rest := by
    refine .plain rest ?_ ?_
    · rintro rfl
      have hend := isLineEnd_of_newline (congrArg Scan.found h)
      cases hc.symm.trans hend
    · rw [htaken]
      exact List.forall_mem_cons.2 ⟨hc, hrow⟩
  by_cases hmark : c ∈ ['\n', '\r', ';', '$', '%', '"', '\'', '@']
  · simp only [List.mem_cons, List.not_mem_nil, or_false] at hmark
    rcases hmark with rfl | rfl | rfl | rfl | rfl | rfl | rfl | rfl
    · cases h
      exact .feed _
    · exact shape_return h
    · exact hplain rfl (takeWhile_plain (p := (!isLineEnd ·)) rfl rfl cs) (congrArg Scan.taken h).symm
    · exact hplain rfl (takeWhile_plain (p := Numeral.isDigit 16) rfl rfl cs) (congrArg Scan.taken h).symm
    · exact hplain rfl (takeWhile_plain (p := Numeral.isDigit 2) rfl rfl cs) (congrArg Scan.taken h).symm
    · obtain ⟨bytes, rfl⟩ := stringBody_ok (congrArg Scan.found h)
      obtain ⟨body, rfl, hbody⟩ := stringBody_escapes h
      exact .string bytes rest hbody
    · exact shape_character h
    · exact shape_invocation h
  · have hstart := start_unmarked hmark cs
    have hc : isLineEnd c = false := by
      rw [Bool.eq_false_iff, ne_eq, isLineEnd_iff]
      rintro (rfl | rfl) <;> simp at hmark
    rw [h] at hstart
    split at hstart
    · exact hplain hc (takeWhile_plain (p := isSpace) rfl rfl cs) (congrArg Scan.taken hstart)
    split at hstart
    · exact hplain hc (takeWhile_plain (p := Numeral.isDigit 10) rfl rfl cs) (congrArg Scan.taken hstart)
    split at hstart
    · exact hplain hc (takeWhile_plain (p := isWordChar) rfl rfl cs) (congrArg Scan.taken hstart)
    refine hplain hc (List.forall_mem_nil _) ?_
    cases hsign : Lexeme.ofSign? c with
    | none =>
      rw [hsign] at hstart
      cases hstart
    | some y =>
      rw [hsign] at hstart
      simpa using congrArg Scan.taken hstart

theorem Shape.seam {x : Lexeme} {taken rest : List Char} (h : Shape x taken rest)
    (hlast : taken.getLast? = some '\r') : rest.head? ≠ some '\n' := by
  cases h with
  | bareReturn hhead => exact hhead
  | string bytes rest hbody => simp [List.getLast?_cons] at hlast
  | plain rest _ htaken => cases htaken _ (List.mem_of_getLast? hlast)
  | feed => cases hlast
  | returnFeed => cases hlast
  | escaped => cases hlast
  | character => cases hlast

/-- A piece that is read as a line end is one. -/
theorem Shape.newline {taken rest : List Char} (h : Shape .newline taken rest) :
    lineEnds taken = 1 ∧ ClosesLine taken ∧ taken ≠ [] := by
  generalize hx : Lexeme.newline = x at h
  cases h with
  | feed => exact ⟨rfl, by simp [ClosesLine, isLineEnd], by simp⟩
  | returnFeed => exact ⟨rfl, by simp [ClosesLine, isLineEnd], by simp⟩
  | bareReturn => exact ⟨rfl, by simp [ClosesLine, isLineEnd], by simp⟩
  | plain rest hne => exact absurd hx.symm hne
  | string => cases hx
  | escaped => cases hx
  | character => cases hx

end Scan

/-! ## Pieces side by side -/

/-- A lexeme with its text. -/
structure Piece where
  lexeme : Lexeme
  text : List Char

/-- The text consists of the pieces that the scans cut off. -/
inductive Consists : List Char → List Piece → Prop
  | nil : Consists [] []
  | cons {c : Char} {cs taken rest : List Char} {x : Lexeme} {pieces : List Piece} :
    Scan.start c cs = ⟨.ok x, taken, rest⟩ → Consists rest pieces → Consists (c :: cs) (⟨x, taken⟩ :: pieces)

namespace Piece

/-- The text of pieces side by side. -/
def joined (pieces : List Piece) : List Char :=
  pieces.flatMap (·.text)

/-- Line ends in the piece that are not read as such. -/
def hidden (p : Piece) : Nat :=
  if p.lexeme = .newline then 0 else lineEnds p.text

/-- The columns that the piece takes. A line end is one column wide. -/
def width (p : Piece) : Nat :=
  if p.lexeme = .newline then 1 else byteLength p.text

/-- The pieces behind the last one that was read as a line end. -/
def sinceBreak (pieces : List Piece) : List Piece :=
  pieces.rtakeWhile (·.lexeme ≠ .newline)

/-- The piece is a string or a character with a line end that does not end it: behind a backslash, or a bare carriage
return as the character. -/
def HidesLineEnd (p : Piece) : Prop :=
  (∃ bytes before c after, Scan.isLineEnd c = true ∧ p = ⟨.string bytes, before ++ '\\' :: c :: after⟩) ∨
    (∃ b c, Scan.isLineEnd c = true ∧ p = ⟨.character b, ['\'', '\\', c, '\'']⟩) ∨
    ∃ b, p = ⟨.character b, ['\'', '\r', '\'']⟩

theorem sinceBreak_subset (pieces : List Piece) : sinceBreak pieces ⊆ pieces :=
  (List.rtakeWhile_suffix _ _).subset

theorem joined_append (ps qs : List Piece) : joined (ps ++ qs) = joined ps ++ joined qs :=
  List.flatMap_append

theorem hidden_add {p : Piece} {rest : List Char} (h : Scan.Shape p.lexeme p.text rest) :
    lineEnds p.text = (if p.lexeme = .newline then 1 else 0) + p.hidden := by
  unfold hidden
  split
  · rename_i hnewline
    rw [hnewline] at h
    exact h.newline.1
  · rw [Nat.zero_add]

theorem hidden_ne_zero {p : Piece} : p.hidden ≠ 0 ↔ p.lexeme ≠ .newline ∧ ∃ c ∈ p.text, Scan.isLineEnd c = true := by
  unfold hidden
  split
  · rename_i hnewline
    simp [hnewline]
  · rename_i hnewline
    simp [hnewline, lineEnds_eq_zero]

/-- Only literals hide line ends. -/
theorem hidesLineEnd_iff {p : Piece} {rest : List Char} (h : Scan.Shape p.lexeme p.text rest) :
    p.HidesLineEnd ↔ p.hidden ≠ 0 := by
  rw [hidden_ne_zero]
  constructor
  · rintro (⟨bytes, before, c, after, hc, rfl⟩ | ⟨b, c, hc, rfl⟩ | ⟨b, rfl⟩)
    · exact ⟨by simp, c, by simp, hc⟩
    · exact ⟨by simp, c, by simp, hc⟩
    · exact ⟨by simp, '\r', by simp, rfl⟩
  · obtain ⟨x, taken⟩ := p
    rintro ⟨hx, c, hmem, hc⟩
    cases h with
    | feed => exact absurd rfl hx
    | returnFeed => exact absurd rfl hx
    | bareReturn => exact absurd rfl hx
    | @string bytes body rest hbody =>
      have hin : c ∈ body := by
        simp only [List.mem_cons, List.mem_append, List.not_mem_nil, or_false] at hmem
        rcases hmem with rfl | hmem | rfl
        · cases hc
        · exact hmem
        · cases hc
      obtain ⟨before, after, rfl⟩ := List.append_of_mem hin
      obtain ⟨front, rfl⟩ := List.getLast?_eq_some_iff.1 (hbody before c after rfl hc)
      exact .inl ⟨bytes, '"' :: front, c, after ++ ['"'], hc, by simp⟩
    | escaped b d rest =>
      simp only [List.mem_cons, List.not_mem_nil, or_false] at hmem
      rcases hmem with rfl | rfl | rfl | rfl
      · cases hc
      · cases hc
      · exact .inr (.inl ⟨b, c, hc, rfl⟩)
      · cases hc
    | @character b d rest hd =>
      simp only [List.mem_cons, List.not_mem_nil, or_false] at hmem
      rcases hmem with rfl | rfl | rfl
      · cases hc
      · obtain rfl := ((isLineEnd_iff c).1 hc).resolve_left hd
        exact .inr (.inr ⟨b, rfl⟩)
      · cases hc
    | plain rest _ htaken => cases hc.symm.trans (htaken c hmem)

end Piece

namespace Consists
open Piece
variable {text : List Char} {pieces : List Piece}

theorem joined_eq (h : Consists text pieces) : joined pieces = text := by
  induction h with
  | nil => rfl
  | @cons c cs taken rest x pieces scan _ ih =>
    obtain ⟨body, rfl, rfl, -⟩ := Scan.cuts_start c scan
    rw [joined, List.flatMap_cons, ← joined, ih, List.cons_append]

/-- A text is cut in one way. -/
theorem unique (h : Consists text pieces) {pieces' : List Piece} (h' : Consists text pieces') : pieces = pieces' := by
  induction h generalizing pieces' with
  | nil =>
    cases h'
    rfl
  | cons scan _ ih =>
    cases h' with
    | cons scan' h' =>
      obtain ⟨hfound, rfl, rfl⟩ := Scan.mk.inj (scan.symm.trans scan')
      rw [ih h', Except.ok.inj hfound]

theorem shape (h : Consists text pieces) {p : Piece} (hp : p ∈ pieces) : ∃ rest, Scan.Shape p.lexeme p.text rest := by
  induction h with
  | nil => cases hp
  | @cons c cs taken rest x pieces scan _ ih =>
    rcases List.mem_cons.1 hp with rfl | hp
    · exact ⟨rest, Scan.shape_start scan⟩
    · exact ih hp

/-- No line end reaches over from one piece to the next. -/
theorem lineEnds_joined (h : Consists text pieces) (n : Nat) :
    lineEnds (joined (pieces.take n)) = ((pieces.take n).map (lineEnds ·.text)).sum := by
  induction h generalizing n with
  | nil => simp [joined, lineEnds]
  | @cons c cs taken rest x pieces scan lexes ih =>
    cases n with
    | zero => rfl
    | succ n =>
      rw [List.take_succ_cons, List.map_cons, List.sum_cons, ← ih n, joined, List.flatMap_cons, ← joined]
      refine lineEnds_append fun hlast hhead => (Scan.shape_start scan).seam hlast ?_
      -- what follows the piece begins like the rest of the text
      have hsplit : rest = joined (pieces.take n) ++ joined (pieces.drop n) := by
        rw [← joined_append, List.take_append_drop, lexes.joined_eq]
      rw [hsplit, List.head?_append, hhead, Option.some_or]

theorem lineEnds_take (h : Consists text pieces) (n : Nat) :
    lineEnds (joined (pieces.take n)) =
      (pieces.take n).countP (·.lexeme = .newline) + ((pieces.take n).map (·.hidden)).sum := by
  rw [h.lineEnds_joined]
  have hshape : ∀ p ∈ pieces.take n, ∃ rest, Scan.Shape p.lexeme p.text rest :=
    fun p hp => h.shape (List.mem_of_mem_take hp)
  generalize pieces.take n = front at hshape
  induction front with
  | nil => rfl
  | cons p ps ih =>
    obtain ⟨⟨rest, hp⟩, hps⟩ := List.forall_mem_cons.1 hshape
    rw [List.map_cons, List.sum_cons, List.map_cons, List.sum_cons, List.countP_cons, ih hps, hidden_add hp]
    simp only [decide_eq_true_eq]
    omega

/-- In front of the pieces behind the last line end there is nothing, or a line end. -/
theorem closesLine (h : Consists text pieces) (n : Nat) :
    ClosesLine (joined ((pieces.take n).rdropWhile (·.lexeme ≠ .newline))) := by
  intro c hc
  rcases List.eq_nil_or_concat ((pieces.take n).rdropWhile (·.lexeme ≠ .newline)) with hnil | ⟨front, p, hconcat⟩
  · rw [hnil] at hc
    cases hc
  · rw [List.concat_eq_append] at hconcat
    have hp : p.lexeme = .newline := by
      have hlast := List.rdropWhile_last_not _ _ (hconcat.trans_ne (List.concat_ne_nil _ _))
      simp only [hconcat, List.getLast_append_singleton] at hlast
      simpa using hlast
    have hmem : p ∈ pieces.take n := (List.rdropWhile_prefix _ _).subset (hconcat ▸ List.mem_concat_self)
    obtain ⟨rest, hshape⟩ := h.shape (List.mem_of_mem_take hmem)
    rw [hp] at hshape
    obtain ⟨-, hends, hne⟩ := hshape.newline
    rw [hconcat, joined_append, joined, joined, List.flatMap_singleton, List.getLast?_append_of_ne_nil _ hne] at hc
    exact hends c hc

/-- The pieces behind the last line end that was read are the last line if and only if none of them hides a line
end. -/
theorem byteLength_sinceBreak (h : Consists text pieces) (n : Nat) :
    byteLength (joined (sinceBreak (pieces.take n))) = byteLength (lastLine (joined (pieces.take n))) ↔
      ∀ p ∈ sinceBreak (pieces.take n), p.hidden = 0 := by
  have hjoined : joined (pieces.take n) =
      joined ((pieces.take n).rdropWhile (·.lexeme ≠ .newline)) ++ joined (sinceBreak (pieces.take n)) := by
    rw [← joined_append, sinceBreak, List.rdropWhile_append_rtakeWhile]
  rw [hjoined, byteLength_lastLine (h.closesLine n)]
  have hbreak : ∀ p ∈ sinceBreak (pieces.take n), p.hidden = lineEnds p.text := by
    intro p hp
    have hne := List.mem_rtakeWhile_imp hp
    exact if_neg (by simpa using hne)
  simp only [joined, List.mem_flatMap, forall_exists_index, and_imp]
  constructor
  · intro hplain p hp
    rw [hbreak p hp, lineEnds_eq_zero]
    exact fun c hc => hplain c p hp hc
  · intro hhidden c p hp hc
    have hzero := hhidden p hp
    rw [hbreak p hp, lineEnds_eq_zero] at hzero
    exact hzero c hc

end Consists

/-! ## The tokens of the pieces -/

namespace Piece

/-- The line that the scanner is on behind the pieces. -/
def lineBehind (firstLine : Nat) (front : List Piece) : Nat :=
  firstLine + front.countP (·.lexeme = .newline)

/-- The column that the scanner is in behind the pieces. -/
def columnBehind (front : List Piece) : Nat :=
  byteLength (joined (sinceBreak front))

/-- The token for a piece behind others, or for the end of the text. -/
def tokenBehind (firstLine : Nat) (front : List Piece) (p : Option Piece) : Token :=
  ⟨(p.map (·.lexeme)).getD .endOfText, lineBehind firstLine front, columnBehind front, (p.map (·.width)).getD 0⟩

/-- The tokens for pieces behind others. -/
def tokens (firstLine : Nat) (front : List Piece) : List Piece → List Token
  | [] => [tokenBehind firstLine front none]
  | p :: ps => tokenBehind firstLine front (some p) :: tokens firstLine (front ++ [p]) ps

theorem length_tokens (firstLine : Nat) (front ps : List Piece) :
    (tokens firstLine front ps).length = ps.length + 1 := by
  induction ps generalizing front with
  | nil => rfl
  | cons p ps ih => rw [tokens, List.length_cons, ih, List.length_cons]

theorem tokens_getElem? {firstLine : Nat} {front ps : List Piece} {i : Nat} {t : Token}
    (h : (tokens firstLine front ps)[i]? = some t) : t = tokenBehind firstLine (front ++ ps.take i) ps[i]? := by
  induction ps generalizing front i with
  | nil =>
    cases i with
    | zero => simpa [tokens] using h.symm
    | succ i => simp [tokens] at h
  | cons p ps ih =>
    cases i with
    | zero => simpa [tokens] using h.symm
    | succ i =>
      rw [tokens, List.getElem?_cons_succ] at h
      simpa using ih h

theorem lineBehind_concat (firstLine : Nat) (front : List Piece) (p : Piece) :
    lineBehind firstLine (front ++ [p]) =
      if p.lexeme = .newline then lineBehind firstLine front + 1 else lineBehind firstLine front := by
  rw [lineBehind, List.countP_append, List.countP_singleton, ← Nat.add_assoc, ← lineBehind]
  simp only [decide_eq_true_eq]
  split <;> rfl

theorem columnBehind_concat (front : List Piece) (p : Piece) :
    columnBehind (front ++ [p]) = if p.lexeme = .newline then 0 else columnBehind front + byteLength p.text := by
  rw [columnBehind, sinceBreak, List.rtakeWhile_concat]
  split
  · rename_i hne
    rw [if_neg (by simpa using hne), joined_append, byteLength_append, ← sinceBreak, ← columnBehind]
    simp [joined]
  · rename_i hnewline
    rw [if_pos (by simpa using hnewline)]
    rfl

end Piece

namespace Scanner
open Piece

/-- A step without a fault takes a piece and moves behind it. -/
theorem next_piece {s s' : Scanner} {t : Token} (h : s.next = some (.ok t, s')) :
    ∃ (c : Char) (cs : List Char) (p : Piece), s.rest = c :: cs ∧
      Scan.start c cs = ⟨.ok p.lexeme, p.text, s'.rest⟩ ∧
      t = ⟨p.lexeme, s.line, s.column, p.width⟩ ∧
      s'.line = (if p.lexeme = .newline then s.line + 1 else s.line) ∧
      s'.column = if p.lexeme = .newline then 0 else s.column + byteLength p.text := by
  unfold next at h
  split at h
  · cases h
  · rename_i c cs hrest
    have hscan : Scan.start c cs = ⟨(Scan.start c cs).found, (Scan.start c cs).taken, (Scan.start c cs).rest⟩ := rfl
    dsimp only at h
    split at h
    · rename_i hfound
      cases h
      exact ⟨c, cs, ⟨.newline, (Scan.start c cs).taken⟩, hrest, by rw [hscan, hfound], rfl, rfl, rfl⟩
    · rename_i x hne hfound
      cases h
      refine ⟨c, cs, ⟨x, (Scan.start c cs).taken⟩, hrest, by rw [hscan, hfound], ?_, ?_, ?_⟩
      · rw [width, if_neg hne, Nat.add_sub_cancel_left]
      · exact (if_neg hne).symm
      · exact (if_neg hne).symm
    · cases h

/-- A run without faults gives the tokens of the pieces of the text. -/
theorem run_pieces {s : Scanner} {read : Array Token} {errors : Array LexError} {firstLine : Nat} {front : List Piece}
    (hline : s.line = lineBehind firstLine front) (hcolumn : s.column = columnBehind front)
    (h : (s.run read errors).2 = #[]) :
    ∃ pieces, Consists s.rest pieces ∧
      (s.run read errors).1.toList = read.toList ++ tokens firstLine front pieces := by
  fun_induction run s read errors generalizing front with
  | case1 s read errors hnext =>
    refine ⟨[], rest_eq_nil hnext ▸ .nil, ?_⟩
    simp [tokens, tokenBehind, hline, hcolumn]
  | case2 s read errors t s' hnext ih =>
    obtain ⟨c, cs, p, hrest, hscan, rfl, hline', hcolumn'⟩ := next_piece hnext
    rw [hline, ← lineBehind_concat] at hline'
    rw [hcolumn, ← columnBehind_concat] at hcolumn'
    obtain ⟨pieces, hpieces, htokens⟩ := ih hline' hcolumn' h
    refine ⟨p :: pieces, hrest ▸ .cons hscan hpieces, ?_⟩
    rw [htokens, tokens, tokenBehind, ← hline, ← hcolumn]
    simp
  | case3 s read errors e s' hnext ih => exact absurd h (run_push_ne s' read errors e)

end Scanner

theorem Token.read_pieces {text : List Char} {firstLine : Nat} {tokens : List Token}
    (h : read text firstLine = .ok tokens) :
    ∃ pieces, Consists text pieces ∧ tokens = Piece.tokens firstLine [] pieces := by
  have hscan : scan text firstLine = (tokens, []) := by
    unfold read at h
    split at h
    · rename_i heq
      rw [heq, Except.ok.inj h]
    · cases h
  simp only [scan, Prod.mk.injEq, Array.toList_eq_nil_iff] at hscan
  obtain ⟨htokens, herrors⟩ := hscan
  have hline : firstLine = Piece.lineBehind firstLine [] := rfl
  obtain ⟨pieces, hpieces, hrun⟩ := Scanner.run_pieces hline rfl herrors
  exact ⟨pieces, hpieces, by simpa [htokens] using hrun⟩

/-! ## Positions -/

open Piece

/-- What is known of the position of the token with the index `i`. -/
structure Positioned (firstLine : Nat) (pieces : List Piece) (i : Nat) (t : Token) : Prop where
  lexeme : t.lexeme = (pieces[i]?.map (·.lexeme)).getD .endOfText
  length : t.length = (pieces[i]?.map (·.width)).getD 0
  /-- All line ends in front of the token are counted but the hidden ones. -/
  line : t.line + ((pieces.take i).map (·.hidden)).sum = firstLine + lineEnds (joined (pieces.take i))
  line_exact : t.line = firstLine + lineEnds (joined (pieces.take i)) ↔ ∀ p ∈ pieces.take i, ¬ p.HidesLineEnd
  /-- The column counts from the last line end that is not hidden. -/
  column : t.column = byteLength (joined (sinceBreak (pieces.take i)))
  column_exact : t.column = byteLength (lastLine (joined (pieces.take i))) ↔
    ∀ p ∈ sinceBreak (pieces.take i), ¬ p.HidesLineEnd

/-- The token stands where its position says. -/
def Exact (firstLine : Nat) (pieces : List Piece) (i : Nat) (t : Token) : Prop :=
  t.line = firstLine + lineEnds (joined (pieces.take i)) ∧ t.column = byteLength (lastLine (joined (pieces.take i)))

/-- The second token stands right behind the first one, or at the start of the next line. -/
def Adjacent (t t' : Token) : Prop :=
  if t.lexeme = .newline then t'.line = t.line + 1 ∧ t'.column = 0
  else t'.line = t.line ∧ t'.column = t.column + t.length

theorem positioned {text : List Char} {pieces : List Piece} (h : Consists text pieces) (firstLine i : Nat) :
    Positioned firstLine pieces i (tokenBehind firstLine (pieces.take i) pieces[i]?) := by
  have hline := h.lineEnds_take i
  have hhides {ps : List Piece} (hps : ps ⊆ pieces.take i) :
      (∀ p ∈ ps, ¬ p.HidesLineEnd) ↔ ∀ p ∈ ps, p.hidden = 0 := by
    refine forall₂_congr fun p hp => ?_
    obtain ⟨rest, hshape⟩ := h.shape (List.mem_of_mem_take (hps hp))
    rw [hidesLineEnd_iff hshape, not_ne_iff]
  constructor
  case lexeme => rfl
  case length => rfl
  case column => rfl
  case line =>
    simp only [tokenBehind, lineBehind]
    omega
  case line_exact =>
    have hsum : ((pieces.take i).map (·.hidden)).sum = 0 ↔ ∀ p ∈ pieces.take i, p.hidden = 0 := by
      rw [List.sum_eq_zero_iff_forall_eq_nat, List.forall_mem_map]
    rw [hhides (List.Subset.refl _), ← hsum]
    simp only [tokenBehind, lineBehind]
    omega
  case column_exact =>
    rw [hhides (sinceBreak_subset _)]
    exact h.byteLength_sinceBreak i

theorem adjacent {pieces : List Piece} {i : Nat} {p : Piece} (hp : pieces[i]? = some p) (firstLine : Nat)
    (next : Option Piece) :
    Adjacent (tokenBehind firstLine (pieces.take i) (some p)) (tokenBehind firstLine (pieces.take (i + 1)) next) := by
  rw [List.take_add_one, hp, Option.toList_some]
  simp only [Adjacent, tokenBehind, Option.map_some, Option.getD_some, lineBehind_concat, columnBehind_concat, width]
  split
  · exact ⟨rfl, rfl⟩
  · exact ⟨rfl, rfl⟩

/-- The tokens of a text without faults cover it side by side. A token is on the right line if and only if no literal
in front of it hides a line end, and in the right column if and only if none does since the last line end that was
read. So all positions are exact if and only if no literal hides a line end. -/
theorem token_positions {text : List Char} {firstLine : Nat} {tokens : List Token}
    (h : Token.read text firstLine = .ok tokens) :
    ∃ pieces, Consists text pieces ∧ joined pieces = text ∧ tokens.length = pieces.length + 1 ∧
      (∀ i t, tokens[i]? = some t → Positioned firstLine pieces i t) ∧
      (∀ i t t', tokens[i]? = some t → tokens[i + 1]? = some t' → Adjacent t t') ∧
      ((∀ i t, tokens[i]? = some t → Exact firstLine pieces i t) ↔ ∀ p ∈ pieces, ¬ p.HidesLineEnd) := by
  obtain ⟨pieces, hpieces, rfl⟩ := Token.read_pieces h
  have hpositioned (i : Nat) (t : Token) (ht : (Piece.tokens firstLine [] pieces)[i]? = some t) :
      Positioned firstLine pieces i t := by
    rw [tokens_getElem? ht]
    exact positioned hpieces firstLine i
  refine ⟨pieces, hpieces, hpieces.joined_eq, length_tokens _ _ _, hpositioned, ?_, ?_, ?_⟩
  · intro i t t' ht ht'
    have hi : i < pieces.length := by
      have hlt := (List.getElem?_eq_some_iff.1 ht').1
      rw [length_tokens] at hlt
      omega
    rw [tokens_getElem? ht, tokens_getElem? ht', List.nil_append, List.nil_append, List.getElem?_eq_getElem hi]
    exact adjacent (List.getElem?_eq_getElem hi) _ _
  · -- the token behind a literal tells whether it hides a line end
    intro hexact p hp
    obtain ⟨i, hi⟩ := List.getElem?_of_mem hp
    have hlt : i + 1 < (Piece.tokens firstLine [] pieces).length := by
      have hlt := (List.getElem?_eq_some_iff.1 hi).1
      rw [length_tokens]
      omega
    have ht := List.getElem?_eq_getElem hlt
    refine (hpositioned _ _ ht).line_exact.1 (hexact _ _ ht).1 p ?_
    rw [List.take_add_one, hi]
    simp
  · intro hplain i t ht
    refine ⟨(hpositioned i t ht).line_exact.2 fun p hp => hplain p (List.mem_of_mem_take hp), ?_⟩
    exact (hpositioned i t ht).column_exact.2 fun p hp => hplain p (List.mem_of_mem_take (sinceBreak_subset _ hp))

/-- A string with a line feed behind a backslash, and a word on the line after it. -/
def escapedFeed : List Char :=
  ['"', '\\', '\n', '"', ' ', 'A']

/-- The word stands in the third column of the second line, and its token says the sixth one of the first line. -/
theorem token_positions_escaped :
    ∃ tokens pieces, Token.read escapedFeed 1 = .ok tokens ∧ Consists escapedFeed pieces ∧
      tokens[2]? = some ⟨.identifier "A", 1, 5, 1⟩ ∧ lineEnds (joined (pieces.take 2)) = 1 ∧
      lastLine (joined (pieces.take 2)) = ['"', ' '] ∧ ¬ ∀ i t, tokens[i]? = some t → Exact 1 pieces i t := by
  have hread : Token.read escapedFeed 1 = .ok
      [⟨.string [10], 1, 0, 4⟩, ⟨.blank, 1, 4, 1⟩, ⟨.identifier "A", 1, 5, 1⟩, ⟨.endOfText, 1, 6, 0⟩] := by
    decide +kernel
  obtain ⟨pieces, hpieces, -, -, -, -, hexact⟩ := token_positions hread
  have hcut : pieces = [⟨.string [10], ['"', '\\', '\n', '"']⟩, ⟨.blank, [' ']⟩, ⟨.identifier "A", ['A']⟩] :=
    hpieces.unique (.cons rfl (.cons rfl (.cons rfl .nil)))
  refine ⟨_, pieces, hread, hpieces, rfl, ?_, ?_, fun hall => ?_⟩
  · rw [hcut]
    decide
  · rw [hcut]
    decide
  · refine hexact.1 hall ⟨.string [10], ['"', '\\', '\n', '"']⟩ (by simp [hcut]) (.inl ?_)
    exact ⟨[10], ['"'], '\n', ['"'], rfl, rfl⟩

end Mos6502
