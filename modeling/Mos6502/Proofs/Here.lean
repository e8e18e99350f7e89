import Mos6502.Proofs.BlankLines
import Mos6502.Proofs.Names
import Mos6502.Proofs.Nesting

/-!
# `*` and the cursor

A label on a line of its own names the place where the next byte goes, and so
does a name that is equated to `*`. One can stand for the other, except right
behind the last byte of memory: there the label is refused, and `*` is zero.

In a source that assembles no line starts further up. So `*` stands for the
cursor on every line, unless the line starts at that one place, where no byte
can be written any more.

Main statement: `here_is_cursor_below_top`.
-/
namespace Mos6502

namespace Assembly

theorem cursorAddress?_of_lt {cursor : Nat} (h : cursor < 65536) :
    cursorAddress? cursor = some (UInt16.ofNat cursor) :=
  if_pos h

theorem lt_of_cursorAddress? {cursor : Nat} {a : UInt16} (h : cursorAddress? cursor = some a) : cursor < 65536 := by
  unfold cursorAddress? at h
  split at h
  · assumption
  · cases h

/-! ## The top of memory -/

namespace Emission

variable {env : Setting}

section Moves
variable (hf : env.failed = []) {l : Line} {s : Emission}
include hf

theorem chosen_moves {c : Choice} {shape : Shape} {v : Option Int} (he : (s.chosen env l c shape v).1.errors = #[]) :
    (s.chosen env l c shape v).1.cursor = s.cursor + (s.chosen env l c shape v).2.length := by
  obtain ⟨bs, -, hchosen⟩ := chosen_silent hf he
  rw [hchosen]

theorem instruction_moves {plan : Plan} {mnemonic : String} {shape : Shape} {operand : Option Expr}
    (he : (s.instruction env l plan mnemonic shape operand).1.errors = #[]) :
    (s.instruction env l plan mnemonic shape operand).1.cursor =
      s.cursor + (s.instruction env l plan mnemonic shape operand).2.length := by
  by_cases hplan : plan = .noInstruction
  · subst hplan
    rfl
  rw [instruction_eq hplan] at he ⊢
  cases hc : choice plan mnemonic shape operand with
  | error e =>
    simp only [hc] at he
    exact absurd he (report_ne hf _ _ _ _)
  | ok c =>
    simp only [hc] at he ⊢
    cases operand with
    | none => exact chosen_moves hf he
    | some e =>
      have hreports := value_reports env l s e
      rcases hv : s.value env l e with ⟨t, _ | v⟩
      · simp only [hv, advance] at he
        exact absurd he (value_eq_none hf hv)
      · simp only [hv] at he hreports ⊢
        rw [chosen_moves hf he, hreports.cursor]

end Moves

theorem expansion_moves
    (hp : ∀ name arguments context pass text, env.registry.expand name arguments context pass ≠ .ok (.source text))
    (levels : Nat) (s : Emission) (plan : Plan) (l : Line) (name arguments : String) :
    (s.expansion env levels plan l name arguments).1.cursor =
      s.cursor + (s.expansion env levels plan l name arguments).2.length := by
  unfold expansion
  cases hx : env.registry.expand name arguments (s.context env) .second with
  | error e => exact ((Reports.refl s).report _ _ _).cursor
  | ok output =>
    cases output with
    | nothing => rfl
    | bytes bs => exact bytes_cursor _ _ _
    | source text => exact absurd hx (hp _ _ _ _ _)

section Line
variable (hf : env.failed = [])
  (hp : ∀ name arguments context pass text, env.registry.expand name arguments context pass ≠ .ok (.source text))
  {levels : Nat} {s : Emission} {plan : Plan} {l : Line} (he : (s.line env levels plan l).1.errors = #[])
include hf hp he

/-- A line that is taken without an error moves the cursor past its bytes, or to an origin. -/
theorem line_moves :
    (s.line env levels plan l).1.cursor = s.cursor + (s.line env levels plan l).2.length ∨
      ∃ origin : UInt16, (s.line env levels plan l).1.cursor = origin.toNat := by
  have hlabel := labelled_silent hf he
  rw [line_eq, hlabel] at he ⊢
  cases hst : l.statement with
  | none => exact .inl rfl
  | some st =>
    simp only [hst] at he ⊢
    cases st with
    | equate name e => exact .inl rfl
    | origin e =>
      obtain ⟨v, -, horigin⟩ := setOrigin_silent hf he
      dsimp only
      exact .inr ⟨v, by rw [horigin]⟩
    | bytes items =>
      left
      dsimp only
      rw [write, bytes_cursor, (collect_reports env _ (item_reports env l) s items).cursor]
    | words items =>
      left
      dsimp only
      rw [write, bytes_cursor, (collect_reports env _ (word_reports env l) s items).cursor]
    | instruction mnemonic shape operand => exact .inl (instruction_moves hf he)
    | invocation name arguments =>
      left
      dsimp only
      rw [(checkSize_reports env _ _ _ _ _).cursor, expansion_moves hp]

/-- No line leaves the cursor more than one place above the last byte of memory. -/
theorem line_cursor_le (hs : s.cursor ≤ 65536) : (s.line env levels plan l).1.cursor ≤ 65536 := by
  obtain ⟨hfree, -⟩ := line_writes hf hp he
  rcases line_moves hf hp he with hmoves | ⟨origin, horigin⟩
  · rcases Nat.eq_zero_or_pos (s.line env levels plan l).2.length with hnone | hsome
    · omega
    · have hbound := hfree.bound hsome
      omega
  · have hlt := origin.toNat_lt
    omega

end Line

end Emission

section Source
variable {settings : Settings} {registry : Macro.Registry} {source : String}
  (hp : ∀ name arguments context pass text, registry.expand name arguments context pass ≠ .ok (.source text))
include hp

theorem Accepted.secondCursor_le (h : Accepted settings registry source) {k : Nat}
    (hk : k ≤ (readSource source).length) : secondCursor settings registry source k ≤ 65536 := by
  induction k with
  | zero => simp [secondCursor, Emission.run, Emission.start]
  | succ k ih =>
    obtain ⟨text, l, hl⟩ := h.line_ok (show k < (readSource source).length by omega)
    have he := h.run_errors (k + 1)
    rw [run_take_succ hl] at he
    rw [secondCursor, run_take_succ hl]
    exact Emission.line_cursor_le h.failed hp he (ih (by omega))

/-- A line above the last byte of memory gives no bytes. -/
theorem Accepted.bytes_above_top (h : Accepted settings registry source) {k : Nat} {text : List Char} {l : Line}
    (hl : (readSource source)[k]? = some (text, .ok l)) {listed : ListingLine}
    (hlisted : (Emission.run (environment settings registry source) (planned settings registry source)).2.lines[k]? =
      some listed) (htop : secondCursor settings registry source k = 65536) : listed.bytes = [] := by
  have he := h.run_errors (k + 1)
  rw [run_take_succ hl] at he
  obtain ⟨hfree, -⟩ := Emission.line_writes h.failed hp he
  obtain rfl := Option.some.inj (hlisted.symm.trans (h.listing_line hl))
  by_contra hbytes
  have hbound := hfree.bound (List.length_pos_iff.2 hbytes)
  have hpos := List.length_pos_iff.2 hbytes
  rw [secondCursor] at htop
  dsimp only at hpos
  omega

end Source

/-! ## A line in place of another -/

section Replace
variable {registry : Macro.Registry} {limit : Nat} {pre : List Emission.SourceLine} {l l' : Line}
  (hlaid : (followed registry limit pre).1.line registry limit limit l' =
    (followed registry limit pre).1.line registry limit limit l) (text text' : List Char)
  (post : List Emission.SourceLine)
include hlaid

theorem followed_replace : followed registry limit (pre ++ (text', .ok l') :: post) =
    followed registry limit (pre ++ (text, .ok l) :: post) := by
  rw [followed_append, followed_append]
  simp only [followedAfter, List.map_cons, Layout.follow, Layout.sourceLine, hlaid]

theorem finished_replace : finished registry limit (pre ++ (text', .ok l') :: post) =
    finished registry limit (pre ++ (text, .ok l) :: post) := by
  rw [finished, followed_replace hlaid text text' post, finished]

theorem setting_replace : setting registry limit (pre ++ (text', .ok l') :: post) =
    setting registry limit (pre ++ (text, .ok l) :: post) := by
  rw [setting, finished_replace hlaid text text' post, setting]

theorem shownBefore_replace : shownBefore registry limit pre ((text', .ok l') :: post) =
    shownBefore registry limit pre ((text, .ok l) :: post) := by
  rw [shownBefore, setting_replace hlaid text text' post, shownBefore]

/-- Lines that do the same in both passes leave the second one in the same state. -/
theorem shown_replace (hwritten : ∀ plan,
    (shownBefore registry limit pre ((text, .ok l) :: post)).1.line
        (setting registry limit (pre ++ (text, .ok l) :: post)) limit plan l' =
      (shownBefore registry limit pre ((text, .ok l) :: post)).1.line
        (setting registry limit (pre ++ (text, .ok l) :: post)) limit plan l) :
    (shown registry limit (pre ++ (text', .ok l') :: post)).1 =
      (shown registry limit (pre ++ (text, .ok l) :: post)).1 := by
  rw [shown_append, shown_append]
  dsimp only
  rw [shownAfter, shownBefore_replace hlaid text text' post, setting_replace hlaid text text' post, shownAfter]
  simp only [followedAfter, List.map_cons, Layout.follow, Layout.sourceLine, hlaid, List.zip_cons_cons]
  simp only [Emission.listed]
  rw [show (setting registry limit (pre ++ (text, .ok l) :: post)).limit = limit from rfl, hwritten]

end Replace

/-- What the first pass makes of a line, it keeps to its end. -/
theorem line_extends_finished (registry : Macro.Registry) (limit : Nat) (pre post : List Emission.SourceLine)
    (text : List Char) (l : Line) : ((followed registry limit pre).1.line registry limit limit l).1.Extends
      (finished registry limit (pre ++ (text, .ok l) :: post)) := by
  have hrest := Layout.steps_extends.follow registry limit
    ((followed registry limit pre).1.line registry limit limit l).1 (post.map (·.2))
  rw [finished, followed_append]
  exact hrest.trans ((Layout.settle_extends _).trans (Layout.reportPending_extends _))

section Clean
variable {registry : Macro.Registry} {limit : Nat} {pre post : List Emission.SourceLine} {text : List Char} {l : Line}
  (h : Clean registry limit (pre ++ (text, .ok l) :: post))
include h

/-- The first pass has nothing to report about a line. -/
theorem Clean.laid_errors : ((followed registry limit pre).1.line registry limit limit l).1.errors = #[] :=
  (line_extends_finished registry limit pre post text l).noErrors h.first

/-- Nor has the second. -/
theorem Clean.line_errors : ((shownBefore registry limit pre ((text, .ok l) :: post)).1.line
    (setting registry limit (pre ++ (text, .ok l) :: post)) limit
    ((followed registry limit pre).1.line registry limit limit l).2 l).1.errors = #[] := by
  have he := h.second
  rw [shown_append] at he
  exact Emission.noErrors_before ((Emission.steps_grows _).listed _ (post.zip _)) he

end Clean

/-! ## A label and `*` -/

/-- The outputs are the same but for their listings. -/
structure SameCode (out out' : Output) : Prop where
  image : out'.image = out.image
  symbols : out'.symbols = out.symbols
  warnings : out'.warnings = out.warnings

/-- A label on a line of its own. -/
abbrev labelLine (name : String) (number column : Nat) : Line :=
  ⟨number, some name, none, column⟩

/-- The name equated to `*`. -/
abbrev hereLine (name : String) (number column : Nat) : Line :=
  ⟨number, none, some (.equate name .here), column⟩

section Lines
variable {name : String} {number column column' : Nat}

namespace Layout

/-- Where nothing is reported the column makes no difference. -/
theorem define_column {s : Layout} {a : UInt16} (he : (s.define name a number column).errors = #[]) (column' : Nat) :
    s.define name a number column' = s.define name a number column := by
  unfold define at he ⊢
  cases hd : s.symbols.define ⟨name, a, number⟩ with
  | ok symbols => rfl
  | error old => simp [hd, report] at he

variable (registry : Macro.Registry) (limit levels : Nat) {s : Layout}

theorem line_here (s : Layout) : s.line registry limit levels (hereLine name number column) =
    (s.define name s.address number column, .nothing) := by
  rw [line_eq]
  simp only [labelled, equate, Expr.eval, assign, valueAddress?_word]

theorem line_label_below (h : s.cursor < 65536) : s.line registry limit levels (labelLine name number column) =
    (s.define name s.address number 0, .nothing) := by
  rw [line_eq]
  simp only [labelled, label, cursorAddress?_of_lt h, address]

theorem line_label_above (h : 65536 ≤ s.cursor) : s.line registry limit levels (labelLine name number column) =
    (s.report number 0 (.labelPastEnd name), .nothing) := by
  rw [line_eq]
  simp only [labelled, label, cursorAddress?, if_neg (Nat.not_lt.2 h)]

/-- Below the top of memory both lines do the same, unless both define the name a second time. -/
theorem line_here_eq (h : s.cursor < 65536)
    (he : (s.line registry limit levels (labelLine name number column)).1.errors = #[] ∨
      (s.line registry limit levels (hereLine name number column')).1.errors = #[]) :
    s.line registry limit levels (hereLine name number column') =
      s.line registry limit levels (labelLine name number column) := by
  rw [line_label_below _ _ _ h, line_here] at he ⊢
  rcases he with he | he
  · rw [define_column he column']
  · rw [define_column he 0]

end Layout

/-- Below the top of memory the second pass passes over both lines. -/
theorem Emission.line_here_eq (env : Setting) (levels : Nat) (plan : Plan) {s : Emission} (h : s.cursor < 65536) :
    s.line env levels plan (hereLine name number column') = s.line env levels plan (labelLine name number column) := by
  rw [line_eq, line_eq]
  simp only [labelled, label, cursorAddress?_of_lt h]

variable {registry : Macro.Registry} {limit : Nat} {pre post : List Emission.SourceLine} {text : List Char}
  (text' : List Char)

theorem clean_here
    (hlaid : (followed registry limit pre).1.line registry limit limit (hereLine name number column') =
      (followed registry limit pre).1.line registry limit limit (labelLine name number column))
    (hsecond : (shownBefore registry limit pre ((text, .ok (labelLine name number column)) :: post)).1.cursor < 65536) :
    let ls := pre ++ (text, .ok (labelLine name number column)) :: post
    let ls' := pre ++ (text', .ok (hereLine name number column')) :: post
    (Clean registry limit ls ↔ Clean registry limit ls') ∧
      SameCode (written registry limit ls) (written registry limit ls') := by
  intro ls ls'
  have hfinished : finished registry limit ls' = finished registry limit ls := finished_replace hlaid text text' post
  have hshown : (shown registry limit ls').1 = (shown registry limit ls).1 :=
    shown_replace hlaid text text' post fun plan => Emission.line_here_eq _ limit plan hsecond
  refine ⟨⟨?_, ?_⟩, ?_, ?_, ?_⟩
  · rintro ⟨hfirst, hsecond⟩
    exact ⟨by rw [hfinished, hfirst], by rw [hshown, hsecond]⟩
  · rintro ⟨hfirst, hsecond⟩
    exact ⟨by rw [← hfinished, hfirst], by rw [← hshown, hsecond]⟩
  · rw [written, hshown, written]
  · rw [written, hfinished, written]
  · rw [written, hshown, written]

/-- Lines with the label are accepted below the top of memory only, and then those with `*` are accepted too. -/
theorem Clean.here (h : Clean registry limit (pre ++ (text, .ok (labelLine name number column)) :: post)) :
    (followed registry limit pre).1.cursor < 65536 ∧
      Clean registry limit (pre ++ (text', .ok (hereLine name number column')) :: post) ∧
      SameCode (written registry limit (pre ++ (text, .ok (labelLine name number column)) :: post))
        (written registry limit (pre ++ (text', .ok (hereLine name number column')) :: post)) := by
  have hlaid := h.laid_errors
  have hline := h.line_errors
  have hfirst : (followed registry limit pre).1.cursor < 65536 := by
    obtain ⟨a, ha, -⟩ := Layout.line_label rfl hlaid
    exact lt_of_cursorAddress? ha
  have hsecond :
      (shownBefore registry limit pre ((text, .ok (labelLine name number column)) :: post)).1.cursor < 65536 := by
    by_contra htop
    rw [Emission.line_eq] at hline
    simp only [Emission.labelled, Emission.label, cursorAddress?, if_neg htop] at hline
    exact absurd hline (Emission.report_ne h.failed _ _ _ _)
  obtain ⟨hclean, hsame⟩ := clean_here text' (Layout.line_here_eq registry limit limit hfirst (.inl hlaid)) hsecond
  exact ⟨hfirst, hclean.1 h, hsame⟩

variable {text'}

/-- Below the top of memory lines with the label are accepted if those with `*` are. -/
theorem Clean.label (h : Clean registry limit (pre ++ (text', .ok (hereLine name number column')) :: post))
    (hfirst : (followed registry limit pre).1.cursor < 65536)
    (hagree : (shownBefore registry limit pre ((text', .ok (hereLine name number column')) :: post)).1.cursor =
      (followed registry limit pre).1.cursor) (text : List Char) (column : Nat) :
    Clean registry limit (pre ++ (text, .ok (labelLine name number column)) :: post) := by
  have hlaid : (followed registry limit pre).1.line registry limit limit (hereLine name number column') =
      (followed registry limit pre).1.line registry limit limit (labelLine name number column) :=
    Layout.line_here_eq registry limit limit hfirst (.inr h.laid_errors)
  rw [← hagree, shownBefore_replace hlaid text text' post] at hfirst
  exact (clean_here text' hlaid hfirst).1.2 h

end Lines

/-! ## Sources -/

/-- The second source has the text in place of the line with the index `k`. -/
def ReplacesLine (k : Nat) (w : List Char) (source source' : String) : Prop :=
  Lines.split source'.toList = (Lines.split source.toList).set k w

theorem exists_replacesLine {w : List Char} (h : '\n' ∉ w) (k : Nat) (source : String) :
    ∃ source', ReplacesLine k w source source' := by
  have hlines : ∀ l ∈ (Lines.split source.toList).set k w, '\n' ∉ l := by
    intro l hl hmem
    rcases List.mem_or_eq_of_mem_set hl with hl | rfl
    · exact (Lines.mem_split hl hmem).2 rfl
    · exact h hmem
  obtain ⟨text, htext⟩ := Lines.exists_split hlines
  exact ⟨String.ofList text, by rw [ReplacesLine, String.toList_ofList, htext]⟩

theorem replacesLine_self {k : Nat} {text : List Char} {source : String}
    (h : (Lines.split source.toList)[k]? = some text) : ReplacesLine k text source source := by
  obtain ⟨hk, rfl⟩ := List.getElem?_eq_some_iff.1 h
  exact (List.set_getElem_self hk).symm

theorem ReplacesLine.read_eq {k : Nat} {w : List Char} {source source' : String}
    (h : ReplacesLine k w source source') (hk : k < (Lines.split source.toList).length) :
    readSource source' = readFrom 1 ((Lines.split source.toList).take k) ++
      (w, Line.read w (k + 1)) :: readFrom (k + 2) ((Lines.split source.toList).drop (k + 1)) := by
  rw [readSource_eq, h, List.set_eq_take_append_cons_drop, if_pos hk, readFrom_append, readFrom,
    List.length_take_of_le (Nat.le_of_lt hk), Nat.add_comm 1]

theorem split_of_readSource {source : String} {k : Nat} {text : List Char} {x : Except LineError Line}
    (h : (readSource source)[k]? = some (text, x)) :
    (Lines.split source.toList)[k]? = some text ∧ Line.read text (k + 1) = x := by
  rw [readSource, List.getElem?_mapIdx] at h
  obtain ⟨text', htext, heq⟩ := Option.map_eq_some_iff.1 h
  obtain ⟨rfl, hread⟩ := Prod.mk.inj heq
  exact ⟨htext, hread⟩

section Cursors
variable {settings : Settings} {registry : Macro.Registry} {source : String} {pre post : List Emission.SourceLine}
  (h : readSource source = pre ++ post)
include h

theorem firstCursor_eq : firstCursor settings registry source pre.length =
    (followed registry settings.maxDepth pre).1.cursor := by
  have htake : (parsed source).take pre.length = pre.map (·.2) := by
    rw [parsed, h, List.map_append, List.take_left' (List.length_map _)]
  rw [firstCursor, htake, (Layout.pass_eq_follow _ _ _).1, followed]

theorem secondCursor_eq : secondCursor settings registry source pre.length =
    (shownBefore registry settings.maxDepth pre post).1.cursor := by
  have henvironment : environment settings registry source = setting registry settings.maxDepth (pre ++ post) := by
    rw [environment, finished_readSource, h]
    rfl
  have htake : (planned settings registry source).take pre.length =
      pre.zip (followed registry settings.maxDepth pre).2 := by
    rw [planned, finished_readSource, h, followed_append]
    dsimp only
    rw [List.zip_append (length_followed registry _ pre).symm]
    refine List.take_left' ?_
    rw [List.length_zip, length_followed, Nat.min_self]
  rw [secondCursor, henvironment, htake, Emission.run_eq_listed, shownBefore]

end Cursors

/-- The name equated to `*`, as it is written. -/
def hereText (name : String) : List Char :=
  (name ++ " = *").toList

theorem hereText_noLineFeed {name : String} (h : isLabel name = true) : '\n' ∉ hereText name := by
  intro hmem
  have hplain : Plain (name ++ " = *") := plain_append (plain_word (word_of_isLabel h).1) (by decide)
  exact absurd (plain_iff.1 hplain _ hmem) (by decide)

/-- The lines of a source with a label on a line of its own, and those of the source with `*` there. -/
theorem ReplacesLine.lines {source source' name : String} {k : Nat} {text : List Char} {l : Line}
    (h : ReplacesLine k (hereText name) source source') (hl : (readSource source)[k]? = some (text, .ok l))
    (hlabel : l.label = some name) (halone : l.statement = none) :
    ∃ pre post column column', pre.length = k ∧
      readSource source = pre ++ (text, .ok (labelLine name (k + 1) column)) :: post ∧
      readSource source' = pre ++ (hereText name, .ok (hereLine name (k + 1) column')) :: post := by
  obtain ⟨htext, hread⟩ := split_of_readSource hl
  have hk := (List.getElem?_eq_some_iff.1 htext).1
  have hline : l = labelLine name (k + 1) l.column := by
    have hnumber := Line.read_number hread
    cases l
    simp_all
  obtain ⟨column', hhere⟩ := Line.reads_equate_here ((Line.read_named hread).label hlabel) (k + 1)
  refine ⟨readFrom 1 ((Lines.split source.toList).take k), readFrom (k + 2) ((Lines.split source.toList).drop (k + 1)),
    l.column, column', ?_, ?_, ?_⟩
  · rw [length_readFrom, List.length_take_of_le (Nat.le_of_lt hk)]
  · rw [(replacesLine_self htext).read_eq hk, hread, ← hline]
  · rw [h.read_eq hk, hereText, hhere]

/-- A source with a label on a line of its own, and the source with the name equated to `*` there. The line starts
at the cursor. -/
structure LabelOrHere (name : String) (number cursor : Nat) (result result' : Except (List Error) Output) : Prop where
  success : (∃ out, result = .ok out) ↔ (∃ out', result' = .ok out') ∧ cursor ≠ 65536
  output : ∀ out out', result = .ok out → result' = .ok out' → SameCode out out'
  refused : 65536 ≤ cursor → ∃ errors, result = .error errors ∧ ⟨.labelPastEnd name, number, 0, .first⟩ ∈ errors
  value : ∀ out', result' = .ok out' →
    cursor ≤ 65536 ∧ out'.symbols.address? name = some (UInt16.ofNat cursor)

section Assembler
variable {a : Assembler} {source source' name : String} {out : Output} {k : Nat} {text : List Char}

/-- The value of a name that is equated to `*`. -/
theorem here_address (h : (a.assemble source).1 = .ok out) {column : Nat}
    (hl : (readSource source)[k]? = some (text, .ok (hereLine name (k + 1) column))) :
    out.symbols.address? name = some (UInt16.ofNat (firstCursor a.settings a.registry source k)) := by
  rw [assemble_fst] at h
  obtain ⟨hacc, -, hsymbols, -⟩ := accepted_of_ok h
  obtain ⟨v, hname, hvalue⟩ := hacc.equation_holds hl (q := ⟨name, .here, _⟩) (List.mem_singleton.2 rfl)
  have hsame := UInt16.toNat_inj.1 (Int.ofNat.inj (Except.ok.inj hvalue))
  rw [hsymbols, hname]
  exact congrArg some hsame.symm

variable (hp : ∀ name arguments context pass text, a.registry.expand name arguments context pass ≠ .ok (.source text))
include hp

/-- In an accepted source both passes start every line at one place, at most one above the last byte of memory. -/
theorem cursors_of_ok (h : (a.assemble source).1 = .ok out) (hk : k ≤ (readSource source).length) :
    firstCursor a.settings a.registry source k = secondCursor a.settings a.registry source k ∧
      firstCursor a.settings a.registry source k ≤ 65536 := by
  rw [assemble_fst] at h
  obtain ⟨hacc, -⟩ := accepted_of_ok h
  have hagree := cursors_agree hacc hk
  exact ⟨hagree, hagree ▸ hacc.secondCursor_le hp hk⟩

theorem labelOrHere {l : Line} (hl : (readSource source)[k]? = some (text, .ok l)) (hlabel : l.label = some name)
    (halone : l.statement = none) (h : ReplacesLine k (hereText name) source source') :
    LabelOrHere name (k + 1) (firstCursor a.settings a.registry source k) (a.assemble source).1
      (a.assemble source').1 := by
  obtain ⟨pre, post, column, column', rfl, hlines, hlines'⟩ := h.lines hl hlabel halone
  have hl' : (readSource source')[pre.length]? =
      some (hereText name, .ok (hereLine name (pre.length + 1) column')) := by
    rw [hlines', List.getElem?_append_right (Nat.le_refl _), Nat.sub_self]
    rfl
  have hk' := Nat.le_of_lt (List.getElem?_eq_some_iff.1 hl').1
  -- the lines before are the same, so both sources come to the line at one cursor
  have hcursor : firstCursor a.settings a.registry source pre.length =
      firstCursor a.settings a.registry source' pre.length := by
    rw [firstCursor_eq hlines, firstCursor_eq hlines']
  refine ⟨⟨?_, ?_⟩, ?_, ?_, ?_⟩
  · rintro ⟨out, hout⟩
    have hclean := (assemble_eq_ok.1 hout).1
    rw [hlines] at hclean
    obtain ⟨hlt, hclean', -⟩ := hclean.here (hereText name)
    rw [← hlines'] at hclean'
    rw [firstCursor_eq hlines]
    exact ⟨⟨_, assemble_eq_ok.2 ⟨hclean', rfl⟩⟩, Nat.ne_of_lt hlt⟩
  · rintro ⟨⟨out', hout'⟩, htop⟩
    have hclean' := (assemble_eq_ok.1 hout').1
    obtain ⟨hagree, hle⟩ := cursors_of_ok hp hout' hk'
    have hlt := Nat.lt_of_le_of_ne hle (hcursor ▸ htop)
    rw [firstCursor_eq hlines'] at hagree hlt
    rw [secondCursor_eq hlines'] at hagree
    rw [hlines'] at hclean'
    have hclean := hclean'.label hlt hagree.symm text column
    rw [← hlines] at hclean
    exact ⟨_, assemble_eq_ok.2 ⟨hclean, rfl⟩⟩
  · intro out out' hout hout'
    obtain ⟨hclean, rfl⟩ := assemble_eq_ok.1 hout
    obtain ⟨-, rfl⟩ := assemble_eq_ok.1 hout'
    rw [hlines] at hclean
    rw [hlines, hlines']
    exact (hclean.here (hereText name)).2.2
  · intro htop
    rw [firstCursor_eq hlines] at htop
    have herror : ⟨.labelPastEnd name, pre.length + 1, 0, .first⟩ ∈ (run a.settings a.registry source).errors := by
      rw [run_readSource, hlines]
      refine List.mem_append_left _ ((line_extends_finished _ _ pre post text _).errors.mem ?_)
      rw [Layout.line_label_above _ _ _ htop]
      simp [Layout.report]
    exact ⟨_, assemble_eq_error (List.ne_nil_of_mem herror), (byLine_perm _).mem_iff.2 herror⟩
  · intro out' hout'
    rw [hcursor]
    exact ⟨(cursors_of_ok hp hout' hk').2, here_address hout' hl'⟩

end Assembler

end Assembly

open Assembly in
/-- A label on a line of its own and the equate of its name to `*` are the same, except right behind the last byte of
memory: there the label is refused, and the name is zero. In a source that assembles every line means what `*` for its
cursor makes of it, unless it starts at that place, where `*` is zero and the line gives no bytes. -/
theorem here_is_cursor_below_top (source : String) :
    (∀ (k : Nat) (text : List Char) (l : Line) (name : String), (readSource source)[k]? = some (text, .ok l) →
      l.label = some name → l.statement = none →
      (∃ source', ReplacesLine k (hereText name) source source') ∧
      ∀ source', ReplacesLine k (hereText name) source source' →
        LabelOrHere name (k + 1) (firstCursor {} .builtin source k) (assemble source) (assemble source')) ∧
    ∀ out, assemble source = .ok out → ∀ k < (readSource source).length, ∃ text l listed here,
      (readSource source)[k]? = some (text, .ok l) ∧ out.listing.lines[k]? = some listed ∧
      firstCursor {} .builtin source k = secondCursor {} .builtin source k ∧
      l.Means out.symbols here listed.bytes ∧
      (here.toNat = secondCursor {} .builtin source k ∧ listed.address = some here ∨
        secondCursor {} .builtin source k = 65536 ∧ here = 0 ∧ listed.bytes = []) := by
  have hassemble (source : String) : assemble source =
      (Assembler.assemble { settings := {}, registry := .builtin } source).1 := by
    rw [assemble_fst, assemble]
  constructor
  · intro k text l name hl hlabel halone
    obtain ⟨-, hread⟩ := split_of_readSource hl
    have hname := (Line.read_named hread).label hlabel
    refine ⟨exists_replacesLine (hereText_noLineFeed hname) k source, fun source' h => ?_⟩
    rw [hassemble, hassemble]
    exact labelOrHere (a := { settings := {}, registry := .builtin }) Macro.expand_builtin hl hlabel halone h
  · intro out hout k hk
    obtain ⟨hacc, -, hsymbols, hlisting⟩ := accepted_of_ok hout
    obtain ⟨text, l, hl⟩ := hacc.line_ok hk
    obtain ⟨listed, hlisted, -, haddress, hmeans⟩ := hacc.line_means hl
    rw [hassemble] at hout
    obtain ⟨hagree, hle⟩ := cursors_of_ok (a := { settings := {}, registry := .builtin })
      Macro.expand_builtin hout (Nat.le_of_lt hk)
    dsimp only at hagree hle
    rw [hagree] at hle
    rw [hsymbols, hlisting]
    refine ⟨text, l, listed, _, hl, hlisted, hagree, hmeans, ?_⟩
    rcases Nat.lt_or_eq_of_le hle with hlt | htop
    · exact .inl ⟨Image.toNat_ofNat hlt, by rw [haddress, cursorAddress?_of_lt hlt]⟩
    · exact .inr ⟨htop, by rw [htop]; rfl, hacc.bytes_above_top Macro.expand_builtin hl hlisted htop⟩

open Assembly in
/-- The last byte of memory with a name in front of it and a name behind it. -/
theorem here_is_cursor_below_top_wrapped :
    let source := "ORG $FFFF\nlast:\nNOP\nend:"
    let source' := "ORG $FFFF\nlast:\nNOP\nend = *"
    let source'' := "ORG $FFFF\nlast = *\nNOP\nend = *"
    (∃ errors, assemble source = .error errors ∧ ⟨.labelPastEnd "end", 4, 0, .first⟩ ∈ errors) ∧
      (∃ out, assemble source' = .ok out ∧ out.symbols.address? "end" = some 0) ∧
      LabelOrHere "last" 2 0xFFFF (assemble source') (assemble source'') := by
  intro source source' source''
  have hcursor : firstCursor {} .builtin source 3 = 65536 := by decide +kernel
  have hcursor' : firstCursor {} .builtin source' 1 = 0xFFFF := by decide +kernel
  have hok : assemble source' = .ok (run {} .builtin source').output := toExcept_eq_ok (by decide +kernel)
  have hreplaces : ReplacesLine 3 (hereText "end") source source' := by
    unfold ReplacesLine
    decide +kernel
  have hreplaces' : ReplacesLine 1 (hereText "last") source' source'' := by
    unfold ReplacesLine
    decide +kernel
  have hline : (readSource source)[3]? = some ("end:".toList, .ok (labelLine "end" 4 4)) := by decide +kernel
  have hline' : (readSource source')[1]? = some ("last:".toList, .ok (labelLine "last" 2 5)) := by decide +kernel
  have hend := ((here_is_cursor_below_top source).1 3 _ _ "end" hline rfl rfl).2 _ hreplaces
  have hlast := ((here_is_cursor_below_top source').1 1 _ _ "last" hline' rfl rfl).2 _ hreplaces'
  rw [hcursor] at hend
  rw [hcursor'] at hlast
  exact ⟨hend.refused (Nat.le_refl _), ⟨_, hok, (hend.value _ hok).2⟩, hlast⟩

end Mos6502
