import Mos6502.Proofs.BuiltinMacros
import Mos6502.Proofs.Drift
import Mos6502.Proofs.ParallelEmission
import Mos6502.Proofs.Reassembly

/-!
# Blank lines and comments are inert

A line of spaces, tabs and a comment says nothing, so putting one into a source
only moves the lines behind it down by one. Whatever is keyed by the number of a
line follows: symbols, warnings and the lines of the listing. Both sources
succeed or both fail, and they give the same image.

A macro can see at which lines symbols are defined, and one that looks there can
tell the sources apart. In general the source without the new line has to be
assembled with macros that are shown the moved numbers; macros that do not look
at numbers, such as the built-in ones, need no such change.

Main statements: `assemble_seeing` and `blank_lines_inert`.
-/
namespace Mos6502

theorem insertIdx_length_append {α : Type} (xs ys : List α) (x : α) :
    (xs ++ ys).insertIdx xs.length x = xs ++ x :: ys := by
  induction xs with
  | nil => rfl
  | cons y xs ih => exact congrArg (List.cons y) ih

/-! ## Texts -/

/-- The text has spaces and tabs only, and maybe a comment. -/
inductive Line.Inert : List Char → Prop
  | blank {blanks : List Char} : (∀ c ∈ blanks, Scan.isSpace c = true) → Inert blanks
  | comment {blanks text : List Char} : (∀ c ∈ blanks, Scan.isSpace c = true) →
    (∀ c ∈ text, Scan.isLineEnd c = false) → Inert (blanks ++ ';' :: text)

theorem Line.read_blanks {blanks rest : List Char} {xs ys : List Lexeme} {x : Lexeme}
    (hblanks : ∀ c ∈ blanks, Scan.isSpace c = true) (hrest : Lexes rest xs)
    (hxs : xs ++ [Lexeme.endOfText] = x :: ys) (hx : x.endsLine = true) (n : Nat) :
    ∃ column, read (blanks ++ rest) n = .ok ⟨n, none, none, column⟩ := by
  have hblank : x ≠ .blank := by
    rintro rfl
    cases hx
  have hdrop : (xs ++ [Lexeme.endOfText]).dropWhile (· = .blank) = x :: ys := by
    rw [hxs, List.dropWhile_cons_of_neg (by simp [hblank])]
  cases blanks with
  | nil => exact read_nothing hrest hdrop hx n
  | cons c body =>
    rw [List.forall_mem_cons] at hblanks
    have hhead : xs.head? ≠ some .blank := by
      intro hhead
      obtain ⟨more, rfl⟩ := List.head?_eq_some_iff.1 hhead
      cases hxs
      exact hblank rfl
    have hmore : (.blank :: xs ++ [Lexeme.endOfText]).dropWhile (· = .blank) = x :: ys := by simpa using hdrop
    exact read_nothing (Lexes.blanks hblanks.1 hblanks.2 hrest hhead) hmore hx n

theorem Line.Inert.read {w : List Char} (h : Inert w) (n : Nat) :
    ∃ column, read w n = .ok ⟨n, none, none, column⟩ := by
  cases h with
  | blank hblanks => simpa using read_blanks (x := .endOfText) hblanks .nil rfl rfl n
  | comment hblanks htext => exact read_blanks hblanks (.comment htext) rfl rfl n

theorem Line.Inert.noLineFeed {w : List Char} (h : Inert w) : '\n' ∉ w := by
  have hspace {blanks : List Char} (hblanks : ∀ c ∈ blanks, Scan.isSpace c = true) : '\n' ∉ blanks := by
    intro hmem
    cases hblanks _ hmem
  cases h with
  | blank hblanks => exact hspace hblanks
  | comment hblanks htext =>
    intro hmem
    rcases List.mem_append.1 hmem with hmem | hmem
    · exact hspace hblanks hmem
    · rcases List.mem_cons.1 hmem with hmem | hmem
      · cases hmem
      · cases htext _ hmem

namespace Lines

theorem split_line {line : List Char} (h : '\n' ∉ line) (rest : List Char) :
    split (line ++ '\n' :: rest) = dropReturn line :: split rest := by
  have hsome : pieces rest ≠ [] := by
    unfold pieces
    cases rest with
    | nil => nofun
    | cons c rest =>
      rw [List.foldr_cons]
      split
      · nofun
      · split <;> nofun
  unfold split
  rw [pieces_line h]
  dsimp only
  rw [List.dropLast_cons_of_ne_nil hsome, List.getLast?_cons_of_ne_nil hsome]
  rfl

/-- Every list of lines is split from some text. A carriage return before each line feed keeps those at the ends
of the lines. -/
theorem exists_split {ls : List (List Char)} (h : ∀ l ∈ ls, '\n' ∉ l) : ∃ text, split text = ls := by
  induction ls with
  | nil => exact ⟨[], rfl⟩
  | cons l ls ih =>
    rw [List.forall_mem_cons] at h
    obtain ⟨text, htext⟩ := ih h.2
    refine ⟨(l ++ ['\r']) ++ '\n' :: text, ?_⟩
    rw [split_line (by simp [h.1]), htext]
    simp [dropReturn]

end Lines

/-- The second source has the lines of the first and the text in front of the line with the index `k`. -/
def InsertsLine (k : Nat) (w : List Char) (source source' : String) : Prop :=
  Lines.split source'.toList = (Lines.split source.toList).insertIdx k w

theorem exists_insertsLine {w : List Char} (h : Line.Inert w) (k : Nat) (source : String) :
    ∃ source', InsertsLine k w source source' := by
  have hlines : ∀ l ∈ (Lines.split source.toList).insertIdx k w, '\n' ∉ l := by
    intro l hl hmem
    rcases List.eq_or_mem_of_mem_insertIdx hl with rfl | hl
    · exact h.noLineFeed hmem
    · exact (Lines.mem_split hl hmem).2 rfl
  obtain ⟨text, htext⟩ := Lines.exists_split hlines
  exact ⟨String.ofList text, by rw [InsertsLine, String.toList_ofList, htext]⟩

/-! ## Other numbers -/

/-- The number of a line once another line stands in front of the line with the index `k`. -/
def skip (k n : Nat) : Nat :=
  if n ≤ k then n else n + 1

/-- The second number is what the function makes of the first. -/
def Renumbers (f : Nat → Nat) (n n' : Nat) : Prop :=
  f n = n'

def Symbol.renumber (f : Nat → Nat) (y : Symbol) : Symbol :=
  { y with line := f y.line }

def SymbolTable.renumber (f : Nat → Nat) (t : SymbolTable) : SymbolTable :=
  ⟨t.symbols.map (·.renumber f), List.pairwise_map.2 t.sorted⟩

def Assembly.Warning.renumber (f : Nat → Nat) (w : Warning) : Warning :=
  { w with line := f w.line }

def ListingLine.renumber (f : Nat → Nat) (x : ListingLine) : ListingLine :=
  { x with number := f x.number }

section Renumber
variable {f : Nat → Nat}

theorem Symbol.Matches.renumber_eq {y y' : Symbol} (h : y.Matches (Renumbers f) y') : y.renumber f = y' := by
  obtain ⟨hname, haddress, hline⟩ := h
  cases y
  cases y'
  simp_all [renumber, Renumbers]

theorem SymbolTable.Matches.renumber_eq {t t' : SymbolTable} (h : t.Matches (Renumbers f) t') : t.renumber f = t' := by
  have hsymbols := map_of_forall₂ (g := Symbol.renumber f) (fun _ _ => Symbol.Matches.renumber_eq) h
  cases t'
  simp_all [renumber]

theorem SymbolTable.matches_renumber (f : Nat → Nat) (t : SymbolTable) : t.Matches (Renumbers f) (t.renumber f) :=
  List.forall₂_map_right_iff.2 (List.forall₂_same.2 fun _ _ => ⟨rfl, rfl, rfl⟩)

theorem Assembly.Warning.Matches.renumber_eq {w w' : Warning} (h : w.Matches (Renumbers f) w') : w.renumber f = w' := by
  obtain ⟨hline, hvalue, hmnemonic⟩ := h
  cases w
  cases w'
  simp_all [renumber, Renumbers]

theorem ListingLine.Matches.renumber_eq {x x' : ListingLine} (h : x.Matches (Renumbers f) (· = ·) x') :
    x.renumber f = x' := by
  obtain ⟨hnumber, haddress, hbytes, hsource⟩ := h
  cases x
  cases x'
  simp_all [renumber, Renumbers]

end Renumber

namespace Macro

def Context.renumber (f : Nat → Nat) (c : Context) : Context :=
  { c with symbols := c.symbols.renumber f }

theorem Context.Matches.renumber_eq {f : Nat → Nat} {c c' : Context} (h : c.Matches (Renumbers f) c') :
    c.renumber f = c' := by
  have hsymbols := h.symbols.renumber_eq
  have horigin := h.origin
  have haddress := h.address
  cases c
  cases c'
  simp_all [renumber]

/-- The macros as they answer if they are shown other numbers of lines. -/
def Registry.seeing (f : Nat → Nat) (r : Registry) : Registry :=
  ⟨r.handlers.map fun p => (p.1, fun args c pass => p.2 args (c.renumber f) pass)⟩

theorem Registry.expand_seeing (f : Nat → Nat) (r : Registry) (name arguments : String) (c : Context) (pass : Pass) :
    (r.seeing f).expand name arguments c pass = r.expand name arguments (c.renumber f) pass := by
  have hfind : (r.seeing f).find? name =
      (r.find? name).map fun handler args c pass => handler args (c.renumber f) pass := by
    unfold find? seeing
    induction r.handlers with
    | nil => rfl
    | cons p ps ih =>
      rw [List.map_cons, List.lookup_cons, List.lookup_cons]
      split
      · rfl
      · exact ih
  unfold expand
  rw [hfind]
  cases r.find? name <;> rfl

/-- No answer depends on the lines at which symbols are defined. -/
def Registry.IgnoresLines (r : Registry) : Prop :=
  ∀ f name arguments c pass, r.expand name arguments (Context.renumber f c) pass = r.expand name arguments c pass

theorem Registry.alike_seeing (f : Nat → Nat) (r : Registry) : (r.seeing f).Alike (Renumbers f) r := by
  intro name arguments c c' pass h
  rw [expand_seeing, h.renumber_eq]

theorem Registry.IgnoresLines.alike {r : Registry} (h : r.IgnoresLines) (f : Nat → Nat) : r.Alike (Renumbers f) r := by
  intro name arguments c c' pass hc
  rw [← hc.renumber_eq, h]

theorem builtin_ignoresLines : Registry.builtin.IgnoresLines := by
  intro f name arguments c pass
  have haddress (argument : String) : (c.renumber f).symbols.address? argument = c.symbols.address? argument :=
    (c.symbols.matches_renumber f).address? argument
  unfold Registry.expand
  cases hfind : Registry.builtin.find? name with
  | none => rfl
  | some handler =>
    have hanswer (args : List String) : handler args (c.renumber f) pass = handler args c pass := by
      rcases Builtin.builtin_handler hfind with ⟨-, entry, -, rfl⟩ | ⟨-, hsame⟩
      · simp only [Builtin.addressTable, Builtin.address, haddress]
      · exact hsame _ _ _ _ _
    dsimp only
    rw [hanswer]

end Macro

namespace Assembly

/-! ## A line that says nothing -/

theorem Layout.length_follow (registry : Macro.Registry) (limit : Nat) (s : Layout)
    (ls : List (Except LineError Line)) : (s.follow registry limit ls).2.length = ls.length := by
  induction ls generalizing s with
  | nil => rfl
  | cons l ls ih => exact congrArg (· + 1) (ih _)

/-- The next line of a listing starts where the pass stands. -/
theorem Emission.address_head_listed {env : Setting} {s : Emission} {ls : List (SourceLine × Plan)} {x : ListingLine}
    (h : (s.listed env ls).2.head? = some x) : x.address = cursorAddress? s.cursor := by
  fun_induction listed env s ls with
  | case1 => cases h
  | case2 s text e plan rest ih =>
    rw [ih h]
    unfold report
    split <;> rfl
  | case3 s text l plan rest t shown heq =>
    obtain rfl := Option.some.inj h
    rfl

/-- A pass without errors lists every line. -/
theorem Emission.length_listed {env : Setting} (hf : env.failed = []) {s : Emission} {ls : List (SourceLine × Plan)}
    (he : (s.listed env ls).1.errors = #[]) : (s.listed env ls).2.length = ls.length := by
  fun_induction listed env s ls with
  | case1 => rfl
  | case2 s text e plan rest ih =>
    exact absurd (noErrors_before ((steps_grows env).listed _ rest) he) (report_ne hf _ _ _ _)
  | case3 s text l plan rest t shown heq ih =>
    rw [heq] at ih
    exact congrArg (· + 1) (ih he)

section Insert
variable (registry : Macro.Registry) (limit : Nat) (pre post : List Emission.SourceLine)

/-- The first pass over the lines behind a line. -/
def followedAfter : Layout × List Plan :=
  (followed registry limit pre).1.follow registry limit (post.map (·.2))

theorem followed_append : followed registry limit (pre ++ post) =
    ((followedAfter registry limit pre post).1,
      (followed registry limit pre).2 ++ (followedAfter registry limit pre post).2) := by
  rw [followed, List.map_append, Layout.follow_append]
  rfl

variable (w : List Char) (n column : Nat)

theorem followed_insert : followed registry limit (pre ++ (w, .ok ⟨n, none, none, column⟩) :: post) =
    ((followedAfter registry limit pre post).1,
      (followed registry limit pre).2 ++ .nothing :: (followedAfter registry limit pre post).2) := by
  rw [followed_append, followedAfter, List.map_cons, Layout.follow]
  simp only [Layout.sourceLine]
  have hblank : (followed registry limit pre).1.line registry limit limit ⟨n, none, none, column⟩ =
      ((followed registry limit pre).1, .nothing) := Layout.line_blank registry limit _ n column
  rw [hblank]
  rfl

theorem finished_insert : finished registry limit (pre ++ (w, .ok ⟨n, none, none, column⟩) :: post) =
    finished registry limit (pre ++ post) := by
  rw [finished, followed_insert, finished, followed_append]

theorem setting_insert : setting registry limit (pre ++ (w, .ok ⟨n, none, none, column⟩) :: post) =
    setting registry limit (pre ++ post) := by
  simp only [setting, finished_insert]

/-- The second pass up to a line. -/
def shownBefore : Emission × List ListingLine :=
  Emission.start.listed (setting registry limit (pre ++ post)) (pre.zip (followed registry limit pre).2)

/-- The second pass over the lines behind a line. -/
def shownAfter : Emission × List ListingLine :=
  (shownBefore registry limit pre post).1.listed (setting registry limit (pre ++ post))
    (post.zip (followedAfter registry limit pre post).2)

theorem length_followed : (followed registry limit pre).2.length = pre.length := by
  rw [followed, Layout.length_follow, List.length_map]

theorem shown_append : shown registry limit (pre ++ post) =
    ((shownAfter registry limit pre post).1,
      (shownBefore registry limit pre post).2 ++ (shownAfter registry limit pre post).2) := by
  rw [shown, followed_append, List.zip_append (length_followed registry limit pre).symm, Emission.listed_append]
  rfl

theorem shown_insert : shown registry limit (pre ++ (w, .ok ⟨n, none, none, column⟩) :: post) =
    ((shownAfter registry limit pre post).1,
      (shownBefore registry limit pre post).2 ++
        ⟨n, cursorAddress? (shownBefore registry limit pre post).1.cursor, [], String.ofList (Blank.trimEnd w)⟩ ::
          (shownAfter registry limit pre post).2) := by
  have hblank : (shownBefore registry limit pre post).1.line (setting registry limit (pre ++ post))
      (setting registry limit (pre ++ post)).limit .nothing ⟨n, none, none, column⟩ =
        ((shownBefore registry limit pre post).1, []) := Emission.line_blank _ _ _ _
  rw [shown, followed_insert, setting_insert, List.zip_append (length_followed registry limit pre).symm,
    List.zip_cons_cons, Emission.listed_append]
  change (((shownBefore registry limit pre post).1.listed _ _).1, (shownBefore registry limit pre post).2 ++
    ((shownBefore registry limit pre post).1.listed _ _).2) = _
  rw [Emission.listed, hblank]
  rfl

/-- The line makes no difference to whether the lines are accepted. -/
theorem clean_insert : Clean registry limit (pre ++ (w, .ok ⟨n, none, none, column⟩) :: post) ↔
    Clean registry limit (pre ++ post) := by
  constructor
  · rintro ⟨hfirst, hsecond⟩
    rw [finished_insert] at hfirst
    rw [shown_insert] at hsecond
    exact ⟨hfirst, by rw [shown_append]; exact hsecond⟩
  · rintro ⟨hfirst, hsecond⟩
    rw [shown_append] at hsecond
    exact ⟨by rw [finished_insert]; exact hfirst, by rw [shown_insert]; exact hsecond⟩

variable {registry limit pre post}

/-- Up to the line, the listing has a line for each line. -/
theorem Clean.length_shownBefore (h : Clean registry limit (pre ++ post)) :
    (shownBefore registry limit pre post).2.length = pre.length := by
  have he := h.second
  rw [shown_append] at he
  have hbefore := Emission.length_listed h.failed (Emission.noErrors_before ((Emission.steps_grows _).listed _ _) he)
  rw [List.length_zip, length_followed, Nat.min_self] at hbefore
  exact hbefore

end Insert

/-! ## Sources -/

/-- The texts as lines of a source, numbered from `n` on. -/
def readFrom (n : Nat) : List (List Char) → List Emission.SourceLine
  | [] => []
  | text :: texts => (text, Line.read text n) :: readFrom (n + 1) texts

theorem readSource_eq (source : String) : readSource source = readFrom 1 (Lines.split source.toList) := by
  have hfrom (texts : List (List Char)) (n : Nat) :
      (texts.mapIdx fun i text => (text, Line.read text (i + n))) = readFrom n texts := by
    induction texts generalizing n with
    | nil => rfl
    | cons text texts ih =>
      rw [List.mapIdx_cons, readFrom, ← ih]
      simp only [Nat.zero_add, Nat.add_right_comm, Nat.add_assoc]
  exact hfrom _ 1

theorem readFrom_append (n : Nat) (texts more : List (List Char)) :
    readFrom n (texts ++ more) = readFrom n texts ++ readFrom (n + texts.length) more := by
  induction texts generalizing n with
  | nil => rfl
  | cons text texts ih =>
    rw [List.cons_append, readFrom, ih, readFrom, List.length_cons, List.cons_append, Nat.add_right_comm, Nat.add_assoc]

theorem length_readFrom (n : Nat) (texts : List (List Char)) : (readFrom n texts).length = texts.length := by
  induction texts generalizing n with
  | nil => rfl
  | cons text texts ih => rw [readFrom, List.length_cons, ih, List.length_cons]

/-- The same texts match under numbers that go together. -/
theorem readFrom_matches {known : SymbolTable} {N : Nat → Nat → Prop} {texts : List (List Char)} {n n' : Nat}
    (h : ∀ i < texts.length, N (n + i) (n' + i)) :
    List.Forall₂ (Emission.SourceLine.Matches known N (· = ·)) (readFrom n texts) (readFrom n' texts) := by
  induction texts generalizing n n' with
  | nil => exact .nil
  | cons text texts ih =>
    refine .cons ⟨rfl, Line.read_matches known text (h 0 (Nat.zero_lt_succ _))⟩ (ih fun i hi => ?_)
    rw [Nat.add_right_comm, Nat.add_assoc, Nat.add_right_comm, Nat.add_assoc n']
    exact h (i + 1) (Nat.succ_lt_succ hi)

/-- The second output has a line more in its listing, and the numbers behind that line are higher by one. -/
structure Output.GainsLine (k : Nat) (w : List Char) (out out' : Output) : Prop where
  image : out'.image = out.image
  symbols : out'.symbols = out.symbols.renumber (skip k)
  warnings : out'.warnings = out.warnings.map (·.renumber (skip k))
  /-- The line has no bytes, and stands where the next one starts. -/
  listing : ∃ address, out'.listing.lines = (out.listing.lines.map (·.renumber (skip k))).insertIdx k
      ⟨k + 1, address, [], String.ofList (Blank.trimEnd w)⟩ ∧
    ∀ x ∈ out.listing.lines[k]?, x.address = address

theorem Clean.gainsLine {registry registry' : Macro.Registry} {limit k : Nat}
    {pre post post' : List Emission.SourceLine} (h : Clean registry limit (pre ++ post))
    (hregistry : registry.Alike (Renumbers (skip k)) registry') (hlength : pre.length = k)
    (hpre : List.Forall₂ (Emission.SourceLine.Matches .empty (Renumbers (skip k)) (· = ·)) pre pre)
    (hpost : List.Forall₂ (Emission.SourceLine.Matches .empty (Renumbers (skip k)) (· = ·)) post post')
    (w : List Char) (column : Nat) :
    Clean registry' limit (pre ++ (w, .ok ⟨k + 1, none, none, column⟩) :: post') ∧
      (written registry limit (pre ++ post)).GainsLine k w
        (written registry' limit (pre ++ (w, .ok ⟨k + 1, none, none, column⟩) :: post')) := by
  obtain ⟨hclean, hout⟩ := h.alike_from_start hregistry le_rfl (List.rel_append hpre hpost)
  have hbefore := hclean.length_shownBefore
  have hlisting := map_of_forall₂ (g := ListingLine.renumber (skip k)) (fun _ _ => ListingLine.Matches.renumber_eq)
    hout.listing
  have hwarnings := map_of_forall₂ (g := Warning.renumber (skip k)) (fun _ _ => Warning.Matches.renumber_eq)
    hout.warnings
  have hshown := shown_append registry' limit pre post'
  have hshown' := shown_insert registry' limit pre post' w (k + 1) column
  refine ⟨(clean_insert _ _ _ _ _ _ _).2 hclean, ?_, ?_, ?_, ?_⟩
  · rw [← hout.image, written, written, hshown, hshown']
  · rw [hout.symbols.renumber_eq, written, written, finished_insert]
  · rw [hwarnings, written, written, hshown, hshown']
  · have hk : (shownBefore registry' limit pre post').2.length = k := hbefore.trans hlength
    have hlines : (written registry limit (pre ++ post)).listing.lines.map (ListingLine.renumber (skip k)) =
        (shownBefore registry' limit pre post').2 ++ (shownAfter registry' limit pre post').2 := by
      rw [hlisting, written, hshown]
    refine ⟨cursorAddress? (shownBefore registry' limit pre post').1.cursor, ?_, fun x hx => ?_⟩
    · have hinsert := insertIdx_length_append (shownBefore registry' limit pre post').2
        (shownAfter registry' limit pre post').2
        ⟨k + 1, cursorAddress? (shownBefore registry' limit pre post').1.cursor, [], String.ofList (Blank.trimEnd w)⟩
      rw [hk] at hinsert
      rw [hlines, written, hshown', hinsert]
    · -- the line that follows in the listing
      have hnext := congrArg (·[k]?) hlines
      rw [List.getElem?_map, hx, List.getElem?_append_right (Nat.le_of_eq hk), hk, Nat.sub_self,
        ← List.head?_eq_getElem?, Option.map_some] at hnext
      have haddress : (x.renumber (skip k)).address = _ := Emission.address_head_listed hnext.symm
      exact haddress

/-- The assembly of a source and that of the source with one line more succeed together, with the same output but for
that line. -/
structure SameButLine (k : Nat) (w : List Char) (result result' : Except (List Error) Output) : Prop where
  success : (∃ out, result = .ok out) ↔ ∃ out', result' = .ok out'
  output : ∀ out out', result = .ok out → result' = .ok out' → out.GainsLine k w out'

theorem sameButLine {a a' : Assembler} {k : Nat} {w : List Char} {source source' : String}
    (hregistry : a.registry.Alike (Renumbers (skip k)) a'.registry) (hsettings : a'.settings = a.settings)
    (hk : k ≤ (Lines.split source.toList).length) (hw : Line.Inert w) (h : InsertsLine k w source source') :
    SameButLine k w (a.assemble source).1 (a'.assemble source').1 := by
  let pre := (Lines.split source.toList).take k
  let post := (Lines.split source.toList).drop k
  have hlength : pre.length = k := List.length_take_of_le hk
  have hlines : readSource source = readFrom 1 pre ++ readFrom (k + 1) post := by
    rw [readSource_eq, ← List.take_append_drop k (Lines.split source.toList), readFrom_append, hlength, Nat.add_comm 1]
  obtain ⟨column, hread⟩ := hw.read (k + 1)
  have hlines' : readSource source' =
      readFrom 1 pre ++ (w, .ok ⟨k + 1, none, none, column⟩) :: readFrom (k + 2) post := by
    have hinsert := insertIdx_length_append pre post w
    rw [List.take_append_drop, hlength] at hinsert
    rw [readSource_eq, h, hinsert, readFrom_append, readFrom, hlength, Nat.add_comm 1, hread]
  have hsame : ∀ i < pre.length, skip k (1 + i) = 1 + i := fun i hi => if_pos (by omega)
  have hmoved : ∀ i < post.length, skip k (k + 1 + i) = k + 2 + i := fun i _ => by
    unfold skip
    split <;> omega
  have forth : Clean a.registry a.settings.maxDepth (readSource source) →
      Clean a'.registry a'.settings.maxDepth (readSource source') ∧
        (written a.registry a.settings.maxDepth (readSource source)).GainsLine k w
          (written a'.registry a'.settings.maxDepth (readSource source')) := by
    rw [hlines, hlines', hsettings]
    intro h
    exact h.gainsLine hregistry ((length_readFrom 1 pre).trans hlength) (readFrom_matches hsame)
      (readFrom_matches hmoved) w column
  have back : Clean a'.registry a'.settings.maxDepth (readSource source') →
      Clean a.registry a.settings.maxDepth (readSource source) := by
    rw [hlines, hlines', hsettings, clean_insert]
    intro h
    exact (h.alike_from_start hregistry.flip le_rfl
      (List.rel_append (readFrom_matches hsame) (readFrom_matches hmoved))).1
  obtain ⟨hsuccess, houtput⟩ := assemble_alike forth back
  exact ⟨hsuccess, houtput⟩

end Assembly

open Assembly in
/-- Whatever the macros look at, a source with a blank line or a comment more is assembled as the source without it is
by macros that are shown the new numbers of the lines. -/
theorem assemble_seeing (a : Assembler) {source source' : String} {k : Nat}
    (hk : k ≤ (Lines.split source.toList).length) {w : List Char} (hw : Line.Inert w)
    (h : InsertsLine k w source source') :
    SameButLine k w ({ a with registry := a.registry.seeing (skip k) }.assemble source).1 (a.assemble source').1 :=
  sameButLine (a.registry.alike_seeing (skip k)) rfl hk hw h

open Assembly in
/-- Unless a macro looks at the lines at which symbols are defined, a blank line or a comment can be put anywhere into
a source. The assembly still succeeds or fails, and a success has the same image and symbols, one more line without
bytes in its listing, and the numbers of the lines behind it are higher by one. -/
theorem blank_lines_inert (a : Assembler) (hignores : a.registry.IgnoresLines) (source : String) {k : Nat}
    (hk : k ≤ (Lines.split source.toList).length) {w : List Char} (hw : Line.Inert w) :
    (∃ source', InsertsLine k w source source') ∧ ∀ source', InsertsLine k w source source' →
      SameButLine k w (a.assemble source).1 (a.assemble source').1 := by
  refine ⟨exists_insertsLine hw k source, fun source' h => ?_⟩
  exact sameButLine (hignores.alike (skip k)) rfl hk hw h

open Assembly in
/-- A comment in front of an instruction with a warning, a call of a macro and a label. -/
theorem blank_lines_inert_comment :
    let a : Assembler := { settings := {}, registry := .builtin }
    let source := "ORG $10\nLDA late\n@word_table late\nlate:"
    let source' := "ORG $10\n \t; note\nLDA late\n@word_table late\nlate:"
    InsertsLine 1 " \t; note".toList source source' ∧
      (∃ out, (a.assemble source).1 = .ok out ∧ out.warnings.map (·.line) = [2]) ∧
      SameButLine 1 " \t; note".toList (a.assemble source).1 (a.assemble source').1 := by
  intro a source source'
  have hw : Line.Inert ([' ', '\t'] ++ ';' :: " note".toList) :=
    .comment (by simp [Scan.isSpace]) (by simp [Scan.isLineEnd])
  have hok : (a.assemble source).1 = .ok (run a.settings a.registry source).output :=
    (assemble_fst source a).trans (toExcept_eq_ok (by decide +kernel))
  have hinserts : InsertsLine 1 " \t; note".toList source source' := by
    unfold InsertsLine
    decide +kernel
  obtain ⟨-, hsame⟩ := blank_lines_inert a Macro.builtin_ignoresLines source (k := 1) (by decide +kernel) hw
  exact ⟨hinserts, ⟨_, hok, by decide +kernel⟩, hsame source' hinserts⟩

/-- A macro that gives nothing as long as a symbol is defined in the first line, and fails otherwise. -/
def Macro.firstLineDefines : Handler := fun _ c _ =>
  if c.symbols.symbols.any (·.line = 1) then .ok .nothing else .error "no symbol is defined in line 1"

open Assembly in
/-- A macro that looks at the lines of symbols tells the sources apart: an empty line in front of a label makes an
assembly fail that succeeds without it. -/
theorem blank_line_noticed :
    let a : Assembler := { settings := {}, registry := ⟨[("first_line_defines", Macro.firstLineDefines)]⟩ }
    let source := "here:\n@first_line_defines"
    let source' := "\nhere:\n@first_line_defines"
    Line.Inert [] ∧ InsertsLine 0 [] source source' ∧ (∃ out, (a.assemble source).1 = .ok out) ∧
      ¬ SameButLine 0 [] (a.assemble source).1 (a.assemble source').1 := by
  intro a source source'
  have hinserts : InsertsLine 0 [] source source' := by
    unfold InsertsLine
    decide +kernel
  have hok : (a.assemble source).1 = .ok (run a.settings a.registry source).output :=
    (assemble_fst source a).trans (toExcept_eq_ok (by decide +kernel))
  refine ⟨.blank (List.forall_mem_nil _), hinserts, ⟨_, hok⟩, fun hsame => ?_⟩
  obtain ⟨out', hok'⟩ := hsame.success.1 ⟨_, hok⟩
  have hfails : (a.assemble source').1.toBool = false := by decide +kernel
  rw [hok'] at hfails
  cases hfails

end Mos6502
