import Mathlib.Data.List.DropRight
import Mathlib.Data.List.TakeWhile
import Mos6502.Proofs.Drift
import Mos6502.Proofs.Lexing
import Mos6502.Proofs.Names

/-!
# Symbol files are read as they were written

A written line holds the name, spaces, an equals sign, the value in hexadecimal
and a note. Reading finds the name again if it has no white space at its ends,
no equals sign and no line feed, and does not start like a comment. Every label
is such a name, and so is every name that was read from a file, however odd.

Main statement: `symbol_files_round_trip`.
-/
namespace Mos6502

/-! ## Trimming -/

namespace Blank

/-- The text has no white space at its ends. -/
structure Trimmed (cs : List Char) : Prop where
  first : ∀ c ∈ cs.head?, isBlank c = false
  last : ∀ c ∈ cs.getLast?, isBlank c = false

theorem trimmed_trim (cs : List Char) : Trimmed (trim cs) := by
  have hpre : trim cs <+: trimStart cs := List.rdropWhile_prefix isBlank (trimStart cs)
  constructor
  · intro c hc
    have hfirst : c ∈ (trimStart cs).head? := by
      obtain ⟨more, hmore⟩ := hpre
      rw [← hmore, List.head?_append_of_ne_nil]
      · exact hc
      · rintro hnil
        rw [hnil] at hc
        cases hc
    have hnot := List.head?_dropWhile_not isBlank cs
    rw [show (cs.dropWhile isBlank).head? = some c from hfirst] at hnot
    exact hnot
  · intro c hc
    have hne : trim cs ≠ [] := by
      rintro hnil
      rw [hnil] at hc
      cases hc
    have hnot := List.rdropWhile_last_not isBlank (trimStart cs) hne
    rw [List.getLast?_eq_some_getLast hne] at hc
    obtain rfl := Option.some.inj hc
    exact Bool.eq_false_iff.2 hnot

theorem Trimmed.dropWhile_append {cs : List Char} (h : Trimmed cs) (hne : cs ≠ []) (more : List Char) :
    (cs ++ more).dropWhile isBlank = cs ++ more := by
  cases cs with
  | nil => exact absurd rfl hne
  | cons c cs => exact List.dropWhile_cons_of_neg (by simp [h.first c rfl])

theorem Trimmed.reverse {cs : List Char} (h : Trimmed cs) : Trimmed cs.reverse :=
  ⟨fun c hc => h.last c (by simpa using hc), fun c hc => h.first c (by simpa using hc)⟩

/-- White space around a trimmed text is cut off. -/
theorem Trimmed.trim_pad {cs : List Char} (h : Trimmed cs) (front back : List Char)
    (hfront : ∀ c ∈ front, isBlank c = true) (hback : ∀ c ∈ back, isBlank c = true) :
    trim (front ++ (cs ++ back)) = cs := by
  have hback' : ∀ c ∈ back.reverse, isBlank c = true := fun c hc => hback c (List.mem_reverse.1 hc)
  rw [trim, trimStart, trimEnd, List.dropWhile_append_of_pos hfront]
  by_cases hne : cs = []
  · subst hne
    rw [List.nil_append, List.dropWhile_eq_nil_iff.2 hback]
    rfl
  · rw [h.dropWhile_append hne, List.reverse_append, List.dropWhile_append_of_pos hback']
    have hrev := h.reverse.dropWhile_append (List.reverse_ne_nil_iff.2 hne) []
    rw [List.append_nil] at hrev
    rw [hrev, List.reverse_reverse]

theorem Trimmed.trim_eq {cs : List Char} (h : Trimmed cs) : trim cs = cs := by
  have hpad := h.trim_pad [] [] (by simp) (by simp)
  rwa [List.append_nil, List.nil_append] at hpad

theorem mem_trim {cs : List Char} {c : Char} (h : c ∈ trim cs) : c ∈ cs := by
  have hpre : trim cs <+: trimStart cs := List.rdropWhile_prefix isBlank (trimStart cs)
  exact (List.dropWhile_sublist isBlank).subset (hpre.subset h)

/-- No character of a word is white space. -/
theorem isBlank_wordChar {c : Char} (h : Scan.isWordChar c = true) : isBlank c = false := by
  have hcode : 48 ≤ c.toNat ∧ c.toNat ≤ 122 := by
    simp only [Scan.isWordChar, Char.isAlphanum, Char.isDigit] at h
    delta Char.isAlpha Char.isUpper Char.isLower at h
    simp only [Bool.or_eq_true, Bool.and_eq_true, decide_eq_true_eq, beq_iff_eq, UInt32.le_iff_toNat_le,
      ge_iff_le] at h
    rcases h with h | rfl
    · have hval : c.toNat = c.val.toNat := rfl
      have hdigit : '0'.val.toNat = 48 ∧ '9'.val.toNat = 57 := ⟨rfl, rfl⟩
      have hupper : 'A'.val.toNat = 65 ∧ 'Z'.val.toNat = 90 := ⟨rfl, rfl⟩
      have hlower : 'a'.val.toNat = 97 ∧ 'z'.val.toNat = 122 := ⟨rfl, rfl⟩
      omega
    · decide
  simp only [isBlank, Bool.or_eq_false_iff, Bool.and_eq_false_iff, decide_eq_false_iff_not, beq_eq_false_iff_ne]
  omega

end Blank

/-! ## Names that can be written -/

namespace SymbolTable

/-- The name can be found again in a line of a file. -/
structure Writable (name : List Char) : Prop where
  trimmed : Blank.Trimmed name
  noEquals : '=' ∉ name
  oneLine : '\n' ∉ name
  noRemark : isRemark name = false

theorem writable_label {name : String} (h : isLabel name = true) : Writable name.toList := by
  have hword := (word_of_isLabel h).1
  unfold isWord at hword
  split at hword
  · cases hword
  · rename_i c cs htext
    simp only [Bool.and_eq_true, List.all_eq_true] at hword
    have hstart := Scan.isWordChar_start hword.1
    have hall : ∀ d ∈ c :: cs, Scan.isWordChar d = true := by
      intro d hd
      rcases List.mem_cons.1 hd with rfl | hd
      · exact hstart
      · exact hword.2 d hd
    rw [htext]
    constructor
    · constructor
      · intro d hd
        exact Blank.isBlank_wordChar (hall d (List.mem_of_head? hd))
      · intro d hd
        exact Blank.isBlank_wordChar (hall d (List.mem_of_getLast? hd))
    · intro hmem
      cases hall _ hmem
    · intro hmem
      cases hall _ hmem
    · simp only [isRemark, Bool.or_eq_false_iff, beq_eq_false_iff_ne]
      constructor
      · rintro rfl
        cases hstart
      · rintro rfl
        cases hstart

/-- The name of a line starts as the line does, since the line starts with no white space. -/
theorem head?_name {cs : List Char} (h : Blank.Trimmed cs) {c : Char} {name : List Char}
    (hname : Blank.trim (cs.takeWhile (· ≠ '=')) = c :: name) : cs.head? = some c := by
  cases cs with
  | nil => cases hname
  | cons d cs =>
    by_cases hd : d = '='
    · subst hd
      cases hname
    · rw [List.takeWhile_cons_of_pos (by simpa using hd)] at hname
      have hstart : Blank.trimStart (d :: cs.takeWhile (· ≠ '=')) = d :: cs.takeWhile (· ≠ '=') :=
        List.dropWhile_cons_of_neg (by simp [h.first d rfl])
      -- cutting off the end leaves the first character in place
      obtain ⟨more, hmore⟩ := List.rdropWhile_prefix isBlank (d :: cs.takeWhile (· ≠ '='))
      rw [Blank.trim, hstart] at hname
      rw [show List.rdropWhile isBlank (d :: cs.takeWhile (· ≠ '=')) = c :: name from hname] at hmore
      rw [List.head?_cons, (List.cons.inj hmore).1]

/-- A name that was read can be written. -/
theorem writable_parsed {cs : List Char} (hcs : Blank.Trimmed cs) (hline : '\n' ∉ cs) (hremark : isRemark cs = false)
    {name : String} {address : UInt16} (h : parseAssignment cs = .ok (name, address)) : Writable name.toList := by
  unfold parseAssignment at h
  split at h
  · cases h
  · dsimp only at h
    split at h
    · cases h
    · rename_i hne
      split at h
      · cases h
        rw [String.toList_ofList]
        constructor
        · exact Blank.trimmed_trim _
        · intro hmem
          have := List.mem_takeWhile_imp (Blank.mem_trim hmem)
          simp at this
        · intro hmem
          exact hline ((List.takeWhile_sublist _).subset (Blank.mem_trim hmem))
        · cases hname : Blank.trim (cs.takeWhile (· ≠ '=')) with
          | nil => exact absurd (List.isEmpty_iff.2 hname) hne
          | cons c name =>
            have hhead := head?_name hcs hname
            cases cs with
            | nil => cases hhead
            | cons d cs =>
              obtain rfl := Option.some.inj hhead
              exact hremark
      · cases h

/-- All names of the table can be written. -/
def AllWritable (t : SymbolTable) : Prop :=
  ∀ s ∈ t.symbols, Writable s.name.toList

theorem allWritable_readLine {t u : SymbolTable} (ht : t.AllWritable) {number : Nat} {text : List Char}
    (htext : '\n' ∉ text) (h : t.readLine number text = .ok u) : u.AllWritable := by
  unfold readLine at h
  dsimp only at h
  split at h
  · cases h
    exact ht
  · rename_i hremark
    split at h
    · cases h
    · rename_i name address hparse
      split at h
      · rename_i hdefine
        cases h
        have hname := writable_parsed (Blank.trimmed_trim text) (fun hmem => htext (Blank.mem_trim hmem))
          (Bool.eq_false_iff.2 hremark) hparse
        intro s hs
        rcases mem_define hdefine hs with rfl | hs
        · exact hname
        · exact ht s hs
      · cases h

theorem allWritable_readLines {t u : SymbolTable} (ht : t.AllWritable) {number : Nat} {lines : List (List Char)}
    (hlines : ∀ text ∈ lines, '\n' ∉ text) (h : t.readLines number lines = .ok u) : u.AllWritable := by
  induction lines generalizing t number with
  | nil =>
    cases h
    exact ht
  | cons text lines ih =>
    unfold readLines at h
    split at h
    · cases h
    · rename_i hline
      exact ih (allWritable_readLine ht (hlines text List.mem_cons_self) hline)
        (fun text hmem => hlines text (List.mem_cons_of_mem _ hmem)) h

theorem allWritable_parse {text : String} {t : SymbolTable} (h : parse text = .ok t) : t.AllWritable := by
  refine allWritable_readLines (by simp [AllWritable, empty]) (fun line hline hmem => ?_) h
  exact (Lines.mem_split hline hmem).2 rfl

theorem allWritable_assembly (registry : Macro.Registry) (limit : Nat) (source : String) :
    (Assembly.Layout.run registry limit (Assembly.parsed source)).1.symbols.AllWritable :=
  fun s hs => writable_label (Assembly.isLabel_symbols registry limit source s hs)

end SymbolTable

/-! ## One line -/

namespace Symbol

/-- The line of the symbol without its line feed. -/
def text (s : Symbol) : String :=
  Column.left 20 s.name ++ " = $" ++ Hex.word s.address ++ " (" ++ s.address.toNat.repr ++ ")"

theorem render_eq (s : Symbol) : s.render = s.text ++ "\n" := by
  simp only [render, text, String.append_assoc]
  rfl

/-- The text is the name and spaces, an equals sign, the value between spaces, and a note. -/
theorem toList_text (s : Symbol) :
    ∃ pad note : List Char, (∀ c ∈ pad, c = ' ') ∧ (∀ c ∈ note, c.isDigit = true) ∧
      s.text.toList = s.name.toList ++ pad ++
        '=' :: ([' '] ++ ('$' :: (Hex.word s.address).toList ++ [' ']) ++ '(' :: note) ++ [')'] := by
  refine ⟨List.replicate (20 - s.name.length) ' ' ++ [' '], Nat.toDigits 10 s.address.toNat, ?_, ?_, ?_⟩
  · intro c hc
    rcases List.mem_append.1 hc with hc | hc
    · exact List.eq_of_mem_replicate hc
    · exact List.mem_singleton.1 hc
  · intro c hc
    exact Nat.isDigit_of_mem_toDigits (by omega) (by omega) hc
  · simp [text, Column.left, Nat.repr_eq_ofList_toDigits]

end Symbol

namespace Numeral

theorem isDigit_of_mem {radix n : Nat} {cs : List Char} (h : digits? radix cs = some n) {c : Char} (hc : c ∈ cs) :
    isDigit radix c = true := by
  unfold digits? at h
  split at h
  · cases h
  · rename_i hall
    simp only [Bool.or_eq_true, Bool.not_eq_true', not_or, Bool.not_eq_false, List.all_eq_true] at hall
    exact hall.2 c hc

/-- Digits without a sign are read as they are. -/
theorem natural?_digits {radix max n : Nat} {cs : List Char} (h : digits? radix cs = some n) (hn : n ≤ max) :
    natural? radix max cs = some n := by
  have hsign : ∀ ds, cs ≠ '+' :: ds := by
    rintro ds rfl
    cases isDigit_of_mem h List.mem_cons_self
  unfold natural?
  split
  · exact absurd rfl (hsign _)
  · simp [h, hn]

theorem address?_hexWord (w : UInt16) : address? ('$' :: (Hex.word w).toList) = some w := by
  have hw := w.toNat_lt
  simp only [address?, natural?_digits (digits?_hexWord w) (by omega : w.toNat ≤ 0xFFFF), Option.map_some,
    UInt16.ofNat_toNat]

end Numeral

namespace SymbolTable

theorem isWordChar_hexWord {w : UInt16} {c : Char} (h : c ∈ (Hex.word w).toList) : Scan.isWordChar c = true :=
  Scan.isWordChar_digit (Numeral.isDigit_of_mem (digits?_hexWord w) h)

theorem isLine_text {s : Symbol} (h : Writable s.name.toList) : Lines.IsLine s.text.toList := by
  obtain ⟨pad, note, hpad, hnote, htext⟩ := s.toList_text
  rw [htext]
  constructor
  · intro hmem
    simp only [List.mem_append, List.mem_cons, List.not_mem_nil, or_false] at hmem
    rcases hmem with ((hmem | hmem) | hmem | (hmem | (hmem | hmem) | hmem) | hmem | hmem) | hmem
    case inl.inl.inl => exact h.oneLine hmem
    case inl.inl.inr => cases hpad _ hmem
    case inl.inr.inr.inl.inr.inl.inr => cases isWordChar_hexWord hmem
    case inl.inr.inr.inr.inr => cases hnote _ hmem
    all_goals cases hmem
  · rw [List.getLast?_concat]
    decide

theorem trimmed_value (w : UInt16) : Blank.Trimmed ('$' :: (Hex.word w).toList) := by
  constructor
  · intro c hc
    obtain rfl := Option.some.inj hc
    decide
  · intro c hc
    rcases List.mem_cons.1 (List.mem_of_getLast? hc) with rfl | hc
    · decide
    · exact Blank.isBlank_wordChar (isWordChar_hexWord hc)

/-- The first equals sign ends the name, and the first parenthesis behind it the value. -/
theorem parseAssignment_eq {left value : List Char} (hleft : '=' ∉ left) (hvalue : '(' ∉ value) (note : List Char)
    (hname : Blank.trim left ≠ []) {address : UInt16} (haddress : Numeral.address? (Blank.trim value) = some address) :
    parseAssignment (left ++ '=' :: (value ++ '(' :: note)) = .ok (String.ofList (Blank.trim left), address) := by
  obtain ⟨htake, hdrop⟩ := cut_before hleft (value ++ '(' :: note)
  unfold parseAssignment
  rw [hdrop]
  dsimp only
  rw [htake, (cut_before hvalue note).1, haddress, if_neg (by simpa using hname)]

theorem parseAssignment_text {s : Symbol} (h : Writable s.name.toList) :
    parseAssignment s.text.toList = .ok (s.name, s.address) := by
  obtain ⟨pad, note, hpad, -, htext⟩ := s.toList_text
  have hblank : ∀ c ∈ pad, isBlank c = true := by
    intro c hc
    rw [hpad c hc]
    decide
  have hleft : '=' ∉ s.name.toList ++ pad := by
    intro hmem
    rcases List.mem_append.1 hmem with hmem | hmem
    · exact h.noEquals hmem
    · cases hpad _ hmem
  have hvalue : '(' ∉ [' '] ++ ('$' :: (Hex.word s.address).toList ++ [' ']) := by
    intro hmem
    simp only [List.mem_append, List.mem_cons, List.not_mem_nil, or_false] at hmem
    rcases hmem with hmem | (hmem | hmem) | hmem
    case inr.inl.inr => cases isWordChar_hexWord hmem
    all_goals cases hmem
  have hname : Blank.trim (s.name.toList ++ pad) = s.name.toList := h.trimmed.trim_pad [] pad (by simp) hblank
  have hne : s.name.toList ≠ [] := by
    intro hnil
    cases hnil ▸ h.noRemark
  have hspace : ∀ c ∈ [' '], isBlank c = true := by
    intro c hc
    rw [List.mem_singleton.1 hc]
    rfl
  have haddress := (trimmed_value s.address).trim_pad [' '] [' '] hspace hspace
  have hread := parseAssignment_eq hleft hvalue (note ++ [')']) (hname.symm ▸ hne)
    (haddress.symm ▸ Numeral.address?_hexWord s.address)
  rw [hname, String.ofList_toList] at hread
  rw [htext, ← hread]
  simp

/-- A written line starts as its name does. -/
theorem text_cons {s : Symbol} (h : Writable s.name.toList) :
    ∃ c name rest, s.name.toList = c :: name ∧ s.text.toList = c :: rest := by
  obtain ⟨pad, note, -, -, htext⟩ := s.toList_text
  cases hname : s.name.toList with
  | nil => cases hname ▸ h.noRemark
  | cons c name => exact ⟨c, name, _, rfl, by rw [htext, hname]; rfl⟩

theorem trimmed_text {s : Symbol} (h : Writable s.name.toList) : Blank.Trimmed s.text.toList := by
  constructor
  · intro c hc
    obtain ⟨d, name, rest, hname, htext⟩ := text_cons h
    rw [htext] at hc
    exact h.trimmed.first c (hname ▸ hc)
  · intro c hc
    obtain ⟨pad, note, -, -, htext⟩ := s.toList_text
    rw [htext, List.getLast?_concat] at hc
    obtain rfl := Option.some.inj hc
    decide

theorem isRemark_text {s : Symbol} (h : Writable s.name.toList) : isRemark s.text.toList = false := by
  obtain ⟨c, name, rest, hname, htext⟩ := text_cons h
  have hremark := h.noRemark
  rw [hname] at hremark
  rw [htext]
  exact hremark

theorem readLine_text (t : SymbolTable) {s : Symbol} (h : Writable s.name.toList) (number : Nat) {u : SymbolTable}
    (hu : t.define { s with line := number } = .ok u) : t.readLine number s.text.toList = .ok u := by
  unfold readLine
  dsimp only
  rw [(trimmed_text h).trim_eq, if_neg (by simp [isRemark_text h]), parseAssignment_text h]
  dsimp only
  rw [hu]

/-! ## The whole file -/

theorem place_last {s : Symbol} {ts : List Symbol} (h : ∀ y ∈ ts, y.name < s.name) : place s ts = ts ++ [s] := by
  induction ts with
  | nil => rfl
  | cons t ts ih =>
    have hts := ih fun y hy => h y (List.mem_cons_of_mem t hy)
    rw [place, if_neg (String.lt_asymm (h t List.mem_cons_self)), hts]
    rfl

/-- A name behind all others is added at the end. -/
theorem define_last {t : SymbolTable} {s : Symbol} (h : ∀ y ∈ t.symbols, y.name < s.name) :
    ∃ u, t.define s = .ok u ∧ u.symbols = t.symbols ++ [s] := by
  unfold define
  split
  · rename_i old hold
    have hlt := h old (List.mem_of_find?_eq_some hold)
    have hname : old.name = s.name := by simpa using List.find?_some hold
    exact absurd (hname ▸ hlt) (String.lt_irrefl _)
  · exact ⟨_, rfl, place_last h⟩

/-- Reading the lines of symbols in order adds each of them behind the others. -/
theorem readLines_texts {t : SymbolTable} {ss : List Symbol} (hss : ∀ s ∈ ss, Writable s.name.toList)
    (hsorted : ((t.symbols ++ ss).map (·.name)).Pairwise (· < ·)) (number : Nat) :
    ∃ u, t.readLines number (ss.map (·.text.toList)) = .ok u ∧
      u.symbols = t.symbols ++ ss.mapIdx fun i s => { s with line := number + i } := by
  induction ss generalizing t number with
  | nil => exact ⟨t, rfl, by simp⟩
  | cons s ss ih =>
    have hlast : ∀ y ∈ t.symbols, y.name < s.name := by
      intro y hy
      rw [List.map_append, List.pairwise_append] at hsorted
      exact hsorted.2.2 _ (List.mem_map_of_mem hy) _ (by simp)
    obtain ⟨u, hu, husymbols⟩ := @define_last t { s with line := number } hlast
    have hrest : ((u.symbols ++ ss).map (·.name)).Pairwise (· < ·) := by
      simpa [husymbols] using hsorted
    obtain ⟨v, hv, hvsymbols⟩ := ih (fun s hs => hss s (List.mem_cons_of_mem _ hs)) hrest (number + 1)
    refine ⟨v, ?_, ?_⟩
    · rw [List.map_cons, readLines, readLine_text t (hss s List.mem_cons_self) number hu]
      exact hv
    · simp [hvsymbols, husymbols, List.mapIdx_cons, Nat.add_comm, Nat.add_left_comm]

/-- The names of the table with their values, in order. -/
def pairs (t : SymbolTable) : List (String × UInt16) :=
  t.symbols.map fun s => (s.name, s.address)

theorem render_eq (t : SymbolTable) : t.render = String.join ((t.symbols.map (·.text)).map (· ++ "\n")) := by
  rw [render, List.map_map]
  exact congrArg String.join (List.map_congr_left fun s _ => s.render_eq)

theorem parse_render {t : SymbolTable} (h : t.AllWritable) : ∃ u, parse t.render = .ok u ∧ u.pairs = t.pairs := by
  have hlines : ∀ l ∈ t.symbols.map (·.text), Lines.IsLine l.toList := by
    intro l hl
    obtain ⟨s, hs, rfl⟩ := List.mem_map.1 hl
    exact isLine_text (h s hs)
  have hsorted : ((empty.symbols ++ t.symbols).map (·.name)).Pairwise (· < ·) :=
    List.pairwise_map.2 t.sorted
  obtain ⟨u, hu, hsymbols⟩ := readLines_texts h hsorted 1
  refine ⟨u, ?_, ?_⟩
  · rw [parse, render_eq, Lines.split_lines hlines, List.map_map]
    exact hu
  · rw [pairs, pairs, hsymbols]
    exact List.ext_getElem (by simp [empty]) (by simp [empty])

/-- The table comes from an assembly that succeeded, or from a file that was read. -/
inductive Produced : SymbolTable → Prop
  | assembled {a : Assembler} {source : String} {out : Assembly.Output} : (a.assemble source).1 = .ok out →
    Produced out.symbols
  | read {text : String} {t : SymbolTable} : parse text = .ok t → Produced t

theorem Produced.allWritable {t : SymbolTable} (h : t.Produced) : t.AllWritable := by
  cases h with
  | assembled hout =>
    rw [Assembly.assemble_fst] at hout
    rw [(Assembly.accepted_of_ok hout).2.2.1]
    exact allWritable_assembly _ _ _
  | read hread => exact allWritable_parse hread

end SymbolTable

/-- A table that an assembly or a file gave is read from its own file with the same names and values. -/
theorem symbol_files_round_trip {t : SymbolTable} (h : t.Produced) :
    ∃ u, SymbolTable.parse t.render = .ok u ∧ u.pairs = t.pairs :=
  SymbolTable.parse_render h.allWritable

/-- Spaces, parentheses, a dollar sign and a carriage return can stand in a name. -/
theorem symbol_files_round_trip_odd :
    ∃ t u, SymbolTable.parse "odd (name)\r$x  =+7 (note = x)\n\n; remark\nzeta=$FFFF\r\n" = .ok t ∧
      t.pairs = [("odd (name)\r$x", 7), ("zeta", 0xFFFF)] ∧
      SymbolTable.parse t.render = .ok u ∧ u.pairs = t.pairs := by
  have hread : (SymbolTable.parse "odd (name)\r$x  =+7 (note = x)\n\n; remark\nzeta=$FFFF\r\n").toOption.map (·.pairs) =
      some [("odd (name)\r$x", 7), ("zeta", 0xFFFF)] := by decide +kernel
  cases ht : SymbolTable.parse "odd (name)\r$x  =+7 (note = x)\n\n; remark\nzeta=$FFFF\r\n" with
  | error e =>
    rw [ht] at hread
    cases hread
  | ok t =>
    rw [ht] at hread
    obtain ⟨u, hu, hpairs⟩ := symbol_files_round_trip (.read ht)
    exact ⟨t, u, rfl, Option.some.inj hread, hu, hpairs⟩

end Mos6502
