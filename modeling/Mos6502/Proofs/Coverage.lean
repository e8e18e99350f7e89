import Mos6502.Proofs.Grammar
import Mos6502.Proofs.Scanning

/-!
# What a line leaves unread

The label and the statement of a line reach to its first lexeme that ends a
line. Behind them stands a comment, or nothing, and beyond the comment the text
goes on only with a line end, which can be a lone carriage return inside of the
line. Whatever follows that line end is dropped.

Main statement: `line_covers_text`.
-/
namespace Mos6502

namespace Line

/-! ## Behind the statement -/

/-- The text from the first lexeme on that ends a line. -/
def remainder (text : List Char) (number : Nat) : List Char :=
  Scan.after ((Token.scan text number).1.takeWhile (!·.lexeme.endsLine)).length text

/-- The comment of the line, with its semicolon. -/
def comment (text : List Char) (number : Nat) : List Char :=
  (remainder text number).takeWhile (!Scan.isLineEnd ·)

/-- The text from the end of the line on. -/
def beyond (text : List Char) (number : Nat) : List Char :=
  (remainder text number).dropWhile (!Scan.isLineEnd ·)

theorem comment_append_beyond (text : List Char) (number : Nat) :
    comment text number ++ beyond text number = remainder text number :=
  List.takeWhile_append_dropWhile

/-- The text is at its end, or goes on with a line end or a comment. -/
def EndsLine (cs : List Char) : Prop :=
  ∀ c ∈ cs.head?, Scan.isLineEnd c = true ∨ c = ';'

theorem endsLine_of_scans {cs : List Char} {xs : List Lexeme} (h : Scans cs xs)
    (hx : ∀ x ∈ xs.head?, x.endsLine = true) : EndsLine cs := by
  cases h with
  | nil => nofun
  | cons scan _ =>
    intro c hc
    obtain rfl := Option.some.inj hc
    rcases Scan.start_endsLine (congrArg Scan.found scan) (hx _ rfl) with ⟨hend, -⟩ | ⟨hsemicolon, -⟩
    · exact .inl hend
    · exact .inr hsemicolon

/-- The tokens in front of the end of the line, when the scan ends with the end of the text. -/
theorem tokens_split {row rest : List Token} {ys : List Lexeme} (hrow : ∀ t ∈ row, t.lexeme.endsLine = false)
    (h : (row ++ rest).map (·.lexeme) = ys ++ [.endOfText]) :
    ∃ zs, ys = row.map (·.lexeme) ++ zs ∧ rest.map (·.lexeme) = zs ++ [.endOfText] := by
  rw [List.map_append, List.append_eq_append_iff] at h
  rcases h with ⟨zs, hys, hrest⟩ | ⟨zs, hmap, hlast⟩
  · exact ⟨zs, hys, hrest⟩
  · cases zs with
    | nil => exact ⟨[], by simpa using hmap.symm, by simpa using hlast.symm⟩
    | cons z zs =>
      -- the end of the text ends a line, so it is not in the row
      obtain ⟨rfl, -⟩ := List.cons.inj hlast
      have hmem : Lexeme.endOfText ∈ row.map (·.lexeme) := by simp [hmap]
      obtain ⟨t, ht, heq⟩ := List.mem_map.1 hmem
      have hend := hrow t ht
      rw [heq] at hend
      cases hend

/-- The text in front of the remainder writes the line, and the remainder starts where the line ends. -/
theorem used_written {text : List Char} {number : Nat} {l : Line} (h : read text number = .ok l) :
    (∃ used xs, text = used ++ remainder text number ∧ Lexes used xs ∧ l.Written (xs.filter (· ≠ .blank))) ∧
      EndsLine (remainder text number) := by
  obtain ⟨tokens, hscan, hline⟩ := read_eq_ok h
  obtain ⟨rest, hcontent, hend⟩ := ofTokens_eq_ok hline
  obtain ⟨xs, ⟨row, hrow, hinside, rfl⟩, hwritten⟩ := gives_content number hcontent
  obtain ⟨ys, hys, htokens⟩ := Token.scans_of_scan hscan
  change tokens = row ++ rest.rest at hrow
  subst hrow
  obtain ⟨zs, rfl, hrest⟩ := tokens_split hinside htokens
  have hhead : ∀ t ∈ rest.rest.head?, t.lexeme.endsLine = true := by
    intro t ht
    rw [TokenStream.lexeme] at hend
    split at hend
    · rename_i hnil
      rw [hnil] at ht
      cases ht
    · rename_i hcons
      rw [hcons] at ht
      exact Option.some.inj ht ▸ hend
  have hread : (row ++ rest.rest).takeWhile (!·.lexeme.endsLine) = row := by
    rw [List.takeWhile_append_of_pos (by simpa using hinside)]
    cases hr : rest.rest with
    | nil => simp
    | cons t ts => simp [hhead t (by simp [hr])]
  obtain ⟨used, htext, hused, hafter⟩ := hys.split
  rw [List.length_map] at htext hafter
  have hremainder : remainder text number = Scan.after row.length text := by rw [remainder, hscan, hread]
  rw [hremainder]
  refine ⟨⟨used, _, htext, hused.lexes ?_, hwritten⟩, endsLine_of_scans hafter ?_⟩
  · intro hmem
    obtain ⟨t, ht, heq⟩ := List.mem_map.1 hmem
    have hnot := hinside t ht
    rw [heq] at hnot
    cases hnot
  · intro x hx
    cases hr : rest.rest with
    | nil => simp [hr] at hrest
    | cons t ts =>
      cases zs with
      | nil => cases hx
      | cons z zs =>
        obtain rfl := Option.some.inj hx
        rw [hr, List.map_cons, List.cons_append] at hrest
        exact (List.cons.inj hrest).1 ▸ hhead t (by simp [hr])

/-! ## What may stand there -/

/-- The text is white space, and behind it at most one comment, which runs to the end of the text. -/
def isTrailing (cs : List Char) : Bool :=
  match cs.dropWhile isBlank with
  | [] => true
  | c :: body => c == ';' && body.all (!Scan.isLineEnd ·)

theorem isLineEnd_semicolon : Scan.isLineEnd ';' = false :=
  rfl

theorem isTrailing_comment (body : List Char) :
    isTrailing (';' :: body) = true ↔ (';' :: body).dropWhile (!Scan.isLineEnd ·) = [] := by
  have hblank : isBlank ';' = false := by decide
  simp [isTrailing, hblank, isLineEnd_semicolon, List.dropWhile_eq_nil_iff]

theorem EndsLine.isTrailing_iff {cs : List Char} (h : EndsLine cs) :
    isTrailing cs = true ↔ cs.dropWhile (!Scan.isLineEnd ·) = [] ∨
      cs.takeWhile (!Scan.isLineEnd ·) = [] ∧ isTrailing (cs.dropWhile (!Scan.isLineEnd ·)) = true := by
  cases cs with
  | nil => simp [isTrailing]
  | cons c cs =>
    rcases h c rfl with hend | rfl
    · simp [hend]
    · rw [isTrailing_comment]
      simp [isLineEnd_semicolon]

/-- A comment starts with a semicolon. -/
theorem EndsLine.comment {cs : List Char} (h : EndsLine cs) :
    cs.takeWhile (!Scan.isLineEnd ·) = [] ∨ ∃ body, cs.takeWhile (!Scan.isLineEnd ·) = ';' :: body := by
  cases cs with
  | nil => exact .inl rfl
  | cons c cs =>
    rcases h c rfl with hend | rfl
    · exact .inl (by simp [hend])
    · exact .inr ⟨_, List.takeWhile_cons_of_pos (by simp [isLineEnd_semicolon])⟩

/-- What becomes of the parts of a text from which the line is read. -/
structure Covers (text : List Char) (number : Nat) (l : Line) : Prop where
  /-- In front of the comment stand the label and the statement of the line, and nothing else. -/
  used : ∃ used xs, text = used ++ (comment text number ++ beyond text number) ∧ Lexes used xs ∧
    l.Written (xs.filter (· ≠ .blank))
  semicolon : comment text number = [] ∨ ∃ body, comment text number = ';' :: body
  oneLine : ∀ c ∈ comment text number, Scan.isLineEnd c = false
  /-- What is dropped starts with a line end. -/
  dropped : ∀ c ∈ (beyond text number).head?, Scan.isLineEnd c = true
  /-- Behind the statement stand white space and one comment only if nothing else is dropped. -/
  trailing : isTrailing (comment text number ++ beyond text number) = true ↔
    beyond text number = [] ∨ comment text number = [] ∧ isTrailing (beyond text number) = true

end Line

/-- A line that is read uses its text up to the comment at its end and drops what stands beyond a line end
behind it. So it drops nothing but white space and one comment if the text has no line ends. -/
theorem line_covers_text {text : List Char} {number : Nat} {l : Line} (h : Line.read text number = .ok l) :
    Line.Covers text number l ∧ ((∀ c ∈ text, Scan.isLineEnd c = false) →
      Line.isTrailing (Line.comment text number ++ Line.beyond text number) = true) := by
  obtain ⟨⟨used, xs, htext, hlexes, hwritten⟩, hends⟩ := Line.used_written h
  have hsplit := Line.comment_append_beyond text number
  constructor
  · constructor
    · exact ⟨used, xs, by rw [hsplit]; exact htext, hlexes, hwritten⟩
    · exact hends.comment
    · intro c hc
      simpa using List.mem_takeWhile_imp hc
    · intro c hc
      have hstop := Scan.stops_dropWhile (!Scan.isLineEnd ·) (Line.remainder text number) c hc
      simpa using hstop
    · rw [hsplit]
      exact hends.isTrailing_iff
  · intro hplain
    rw [hsplit]
    refine hends.isTrailing_iff.2 (.inl (List.dropWhile_eq_nil_iff.2 fun c hc => ?_))
    have hmem : c ∈ text := htext ▸ List.mem_append_right used hc
    simp [hplain c hmem]

/-- Behind a carriage return a whole statement is lost. -/
theorem line_covers_text_return :
    Line.read "NOP\rLDA #$01".toList 1 = .ok ⟨1, none, some (.instruction "NOP" .none none), 0⟩ ∧
      Line.beyond "NOP\rLDA #$01".toList 1 = "\rLDA #$01".toList ∧
      Line.isTrailing (Line.comment "NOP\rLDA #$01".toList 1 ++ Line.beyond "NOP\rLDA #$01".toList 1) = false := by
  have hread : Line.read "NOP\rLDA #$01".toList 1 = .ok ⟨1, none, some (.instruction "NOP" .none none), 0⟩ := by
    decide +kernel
  refine ⟨hread, by decide +kernel, ?_⟩
  rw [Bool.eq_false_iff, Ne, (line_covers_text hread).1.trailing]
  decide +kernel

end Mos6502
