import Mos6502.Proofs.Passes

/-!
# Labels in expansions

A macro may answer with other source text in the second pass than in the first.
The labels of the first text stay in the table, and the second pass looks at a
label only for its range. So a label is where the table has it if the lines up
to it are the same in both passes, and it may be anywhere if not.

Main statement: `visited_labels_agree`.
-/
namespace Mos6502.Assembly

/-! ## The lines of an expansion -/

namespace Layout
variable (registry : Macro.Registry) (limit levels : Nat) (l : Line) (name : String)

/-- What the first pass does with one line of the text that a line expands to. -/
def textLine (s : Layout) (text : List Char) : Layout × Plan :=
  match Line.read text l.number with
  | .ok inner => s.line registry limit levels inner
  | .error e => (s.report l.number l.column (.unreadableExpansion name e.cause), .nothing)

/-- The layout after some lines of an expansion, and their plans, last first. -/
def lines (s : Layout) (texts : List (List Char)) : Layout × List Plan :=
  texts.foldl (fun r text =>
    ((r.1.textLine registry limit levels l name text).1, (r.1.textLine registry limit levels l name text).2 :: r.2))
    (s, [])

theorem lines_concat (s : Layout) (texts : List (List Char)) (text : List Char) :
    s.lines registry limit levels l name (texts ++ [text]) =
      (((s.lines registry limit levels l name texts).1.textLine registry limit levels l name text).1,
        ((s.lines registry limit levels l name texts).1.textLine registry limit levels l name text).2 ::
          (s.lines registry limit levels l name texts).2) := by
  rw [lines, List.foldl_append]
  rfl

theorem expansion_source {s : Layout} {arguments text : String}
    (h : registry.expand name arguments s.context .first = .ok (.source text)) :
    expansion registry limit (levels + 1) s l name arguments =
      s.lines registry limit levels l name (Lines.split text.toList) := by
  simp only [expansion, h, lines]
  congr 1
  funext r text
  unfold textLine
  cases Line.read text l.number <;> rfl

theorem Steps.lines {R : Layout → Layout → Prop} (h : Steps R) (s : Layout) (texts more : List (List Char)) :
    R (s.lines registry limit levels l name texts).1 (s.lines registry limit levels l name (texts ++ more)).1 := by
  induction more using List.reverseRecOn with
  | nil => rw [List.append_nil]; exact h.refl _
  | append_singleton more text ih =>
    rw [← List.append_assoc, lines_concat]
    refine h.trans ih ?_
    unfold textLine
    split
    · exact h.line _ _ _ _ _
    · exact h.report _ _ _ _

end Layout

namespace Emission
variable {env : Setting} {α : Type} {f : Emission → Plan → Line → Emission × List α}

theorem splice_take_succ {texts : List (List Char)} {i : Nat} {text : List Char} (h : texts[i]? = some text)
    (plan : Plan) (l : Line) (name : String) (s : Emission) :
    (s.splice env f plan l name 0 (texts.take (i + 1))).1 =
      ((s.splice env f plan l name 0 (texts.take i)).1.textLine env f plan l name i text).1 := by
  have hlength : (texts.take i).length = i := List.length_take_of_le (Nat.le_of_lt (List.getElem?_eq_some_iff.1 h).1)
  rw [take_succ_of_getElem? h, splice_append, hlength, Nat.zero_add]
  rfl

theorem Steps.splice_take {R : Emission → Emission → Prop} (h : Steps env R) (hf : ∀ s plan l, R s (f s plan l).1)
    (plan : Plan) (l : Line) (name : String) (s : Emission) (texts : List (List Char)) (i : Nat) :
    R (s.splice env f plan l name 0 (texts.take i)).1 (s.splice env f plan l name 0 texts).1 := by
  have happend := splice_append env f plan l name s 0 (texts.take i) (texts.drop i)
  rw [List.take_append_drop] at happend
  rw [happend]
  exact h.splice hf plan l name _ _ _

end Emission

/-! ## Places in both passes -/

/-- The state in which the first pass comes to a line of an expansion, if its text is the same up to that line. -/
def Layout.inside (registry : Macro.Registry) (limit levels : Nat) (s : Layout) (l : Line)
    (name arguments text : String) (i : Nat) : Option Layout :=
  match registry.expand name arguments (s.labelled l).context .first with
  | .ok (.source text') =>
    if (Lines.split text'.toList).take (i + 1) = (Lines.split text.toList).take (i + 1) then
      some ((s.labelled l).lines registry limit levels l name ((Lines.split text.toList).take i)).1
    else none
  | _ => none

section Source
variable (settings : Settings) (registry : Macro.Registry) (source : String)

/-- The second pass comes to a line, at top level or in an expansion, with a plan and with so many levels left.
If the first pass came to that line in the same way, this is the state in which it did. -/
inductive Visited : Option Layout → Emission → Nat → Plan → Line → Prop
  | source {k : Nat} {text : List Char} {l : Line} :
    (readSource source)[k]? = some (text, .ok l) →
    Visited (some (Layout.pass registry settings.maxDepth ((parsed source).take k)).1)
      (Emission.run (environment settings registry source) ((planned settings registry source).take k)).1
      settings.maxDepth
      ((Layout.pass registry settings.maxDepth ((parsed source).take k)).1.line registry settings.maxDepth
        settings.maxDepth l).2 l
  | expansion {first : Option Layout} {t : Emission} {levels : Nat} {plan : Plan} {l : Line}
      {name arguments text : String} {i : Nat} {line : List Char} {inner : Line} :
    Visited first t (levels + 1) plan l →
    l.statement = some (.invocation name arguments) →
    registry.expand name arguments ((t.labelled (environment settings registry source) l).context
      (environment settings registry source)) .second = .ok (.source text) →
    (Lines.split text.toList)[i]? = some line → Line.read line l.number = .ok inner →
    Visited (first.bind fun s => s.inside registry settings.maxDepth levels l name arguments text i)
      ((t.labelled (environment settings registry source) l).splice (environment settings registry source)
        (Emission.line (environment settings registry source) levels) plan l name 0
        ((Lines.split text.toList).take i)).1
      levels (plan.line i) inner

variable {settings registry source}

/-- The second pass reports nothing at any line. -/
theorem Visited.silent (h : Accepted settings registry source) {first : Option Layout} {t : Emission} {levels : Nat}
    {plan : Plan} {l : Line} (hv : Visited settings registry source first t levels plan l) :
    (t.line (environment settings registry source) levels plan l).1.errors = #[] := by
  induction hv with
  | @source k text l hl =>
    have he := h.run_errors (k + 1)
    rw [run_take_succ hl] at he
    exact he
  | @expansion first t levels plan l name arguments text i line inner hv hst hexpand hline hread ih =>
    simp only [Emission.line_eq, hst] at ih
    have hall := (Emission.checkSize_reports _ _ _ _ _ _).noErrors ih
    rw [Emission.expansion_source _ hexpand] at hall
    have hgrows := Emission.steps_grows (environment settings registry source)
    have hupto := Emission.noErrors_before (hgrows.splice_take (hgrows.line levels) plan l name _ _ (i + 1)) hall
    rw [Emission.splice_take_succ hline] at hupto
    simpa only [Emission.textLine, hread] using hupto

/-- What the first pass leaves behind at a line: no error, symbols of the table, and the plan. -/
structure LaidOut (registry : Macro.Registry) (limit : Nat) (symbols : SymbolTable) (s : Layout) (levels : Nat)
    (plan : Plan) (l : Line) : Prop where
  errors : (s.line registry limit levels l).1.errors = #[]
  symbols : (s.line registry limit levels l).1.symbols.Extends symbols
  plan : (s.line registry limit levels l).2 = plan

section LaidOut
variable {limit levels : Nat} {symbols : SymbolTable} {s : Layout} {plan : Plan} {l : Line}
  (h : LaidOut registry limit symbols s (levels + 1) plan l) {name arguments text : String}
  (hst : l.statement = some (.invocation name arguments))
  (hexpand : registry.expand name arguments (s.labelled l).context .first = .ok (.source text))
  {i : Nat} {line : List Char} (hline : (Lines.split text.toList)[i]? = some line)
include h hst hexpand hline

/-- After each line of the expansion there is no error, and the symbols are those of the table. -/
theorem LaidOut.upto :
    let before := ((s.labelled l).lines registry limit levels l name ((Lines.split text.toList).take i)).1
    let next := before.textLine registry limit levels l name line
    next.1.errors = #[] ∧ next.1.symbols.Extends symbols := by
  intro before next
  have hnext : ((s.labelled l).lines registry limit levels l name ((Lines.split text.toList).take (i + 1))).1 =
      next.1 := by
    rw [take_succ_of_getElem? hline, Layout.lines_concat]
  have hx := Layout.steps_extends.lines registry limit levels l name (s.labelled l)
    ((Lines.split text.toList).take (i + 1)) ((Lines.split text.toList).drop (i + 1))
  have hend : (s.line registry limit (levels + 1) l).1 =
      ((s.labelled l).lines registry limit levels l name (Lines.split text.toList)).1 := by
    simp only [Layout.line_eq, hst]
    rw [Layout.expansion_source _ _ _ _ _ hexpand]
  rw [List.take_append_drop, hnext, ← hend] at hx
  exact ⟨hx.noErrors h.errors, hx.symbols.trans h.symbols⟩

theorem LaidOut.readable : ∃ inner, Line.read line l.number = .ok inner := by
  obtain ⟨he, -⟩ := h.upto hst hexpand hline
  cases hread : Line.read line l.number with
  | ok inner => exact ⟨inner, rfl⟩
  | error e => simp [Layout.textLine, hread, Layout.report] at he

/-- The lines of an expansion are laid out as the line is. -/
theorem LaidOut.inner {inner : Line} (hread : Line.read line l.number = .ok inner) :
    LaidOut registry limit symbols
      ((s.labelled l).lines registry limit levels l name ((Lines.split text.toList).take i)).1 levels (plan.line i)
      inner := by
  obtain ⟨he, hx⟩ := h.upto hst hexpand hline
  let all := (s.labelled l).lines registry limit levels l name (Lines.split text.toList)
  have hplan : plan = .expansion (distance (s.labelled l).cursor all.1.cursor) all.2.reverse := by
    rw [← h.plan]
    simp only [Layout.line_eq, hst]
    rw [Layout.expansion_source _ _ _ _ _ hexpand]
  have hplans := getElem?_gather rfl (Layout.lines_concat registry limit levels l name (s.labelled l)) hline
  simp only [Layout.textLine, hread] at he hx hplans
  refine ⟨he, hx, ?_⟩
  rw [hplan]
  simp only [all, Plan.line, hplans, Option.getD_some]

end LaidOut

theorem Layout.inside_eq_some {limit levels : Nat} {s s' : Layout} {l : Line} {name arguments text : String} {i : Nat}
    (h : s.inside registry limit levels l name arguments text i = some s') :
    ∃ text', registry.expand name arguments (s.labelled l).context .first = .ok (.source text') ∧
      (Lines.split text'.toList).take (i + 1) = (Lines.split text.toList).take (i + 1) ∧
      s' = ((s.labelled l).lines registry limit levels l name ((Lines.split text.toList).take i)).1 := by
  unfold inside at h
  split at h
  · rename_i text' hexpand
    split at h
    · rename_i hsame
      exact ⟨text', hexpand, hsame, (Option.some.inj h).symm⟩
    · cases h
  · cases h

theorem take_eq_of_le {α : Type} {xs ys : List α} {m n : Nat} (h : xs.take n = ys.take n) (hm : m ≤ n) :
    xs.take m = ys.take m := by
  rw [← Nat.min_eq_left hm, ← List.take_take, h, List.take_take]

theorem getElem?_of_take_eq {α : Type} {xs ys : List α} {i n : Nat} (h : xs.take n = ys.take n) (hi : i < n) :
    xs[i]? = ys[i]? := by
  rw [← List.getElem?_take_of_lt hi, h, List.getElem?_take_of_lt hi]

/-- Where both passes come to a line in the same way, the first lays it out without an error. -/
theorem Visited.laidOut (h : Accepted settings registry source) {first : Option Layout} {t : Emission} {levels : Nat}
    {plan : Plan} {l : Line} (hv : Visited settings registry source first t levels plan l) :
    ∀ s ∈ first, LaidOut registry settings.maxDepth
      (Layout.run registry settings.maxDepth (parsed source)).1.symbols s levels plan l := by
  induction hv with
  | @source k text l hl =>
    intro s hs
    obtain rfl := Option.some.inj hs
    have he := h.pass_errors (k + 1)
    have hx := (pass_extends_run settings registry source (k + 1)).symbols
    rw [pass_take_succ hl] at he hx
    exact ⟨he, hx, rfl⟩
  | @expansion first t levels plan l name arguments text i line inner hv hst hexpand hline hread ih =>
    intro s' hs'
    obtain ⟨s, hs, hinside⟩ := Option.bind_eq_some_iff.1 hs'
    obtain ⟨text', hexpand', hsame, rfl⟩ := Layout.inside_eq_some hinside
    rw [← take_eq_of_le hsame (Nat.le_succ i)]
    rw [← getElem?_of_take_eq hsame (Nat.lt_succ_self i)] at hline
    exact (ih s hs).inner hst hexpand' hline hread

/-- In an expansion that is the same up to a line, both passes come to that line at the same place. -/
theorem Visited.cursor_inside (h : Accepted settings registry source) {s : Layout} {t : Emission} {levels : Nat}
    {plan : Plan} {l : Line}
    (hv : Visited settings registry source (some s) t (levels + 1) plan l) (hc : s.cursor = t.cursor)
    {name arguments text text' : String} (hst : l.statement = some (.invocation name arguments))
    (hfirst : registry.expand name arguments (s.labelled l).context .first = .ok (.source text'))
    (hsecond : registry.expand name arguments ((t.labelled (environment settings registry source) l).context
      (environment settings registry source)) .second = .ok (.source text))
    {i : Nat} (hi : i ≤ (Lines.split text.toList).length)
    (hsame : (Lines.split text'.toList).take i = (Lines.split text.toList).take i) :
    ((s.labelled l).lines registry settings.maxDepth levels l name ((Lines.split text.toList).take i)).1.cursor =
      ((t.labelled (environment settings registry source) l).splice (environment settings registry source)
        (Emission.line (environment settings registry source) levels) plan l name 0
        ((Lines.split text.toList).take i)).1.cursor := by
  induction i with
  | zero => exact (Layout.labelled_cursor s l).trans (hc.trans (Emission.labelled_cursor _ t l).symm)
  | succ i ih =>
    have ih := ih (by omega) (take_eq_of_le hsame (Nat.le_succ i))
    obtain ⟨line, hline⟩ : ∃ line, (Lines.split text.toList)[i]? = some line := ⟨_, List.getElem?_eq_getElem hi⟩
    have hline' := (getElem?_of_take_eq hsame (Nat.lt_succ_self i)).trans hline
    obtain ⟨inner, hread⟩ := (hv.laidOut h s rfl).readable hst hfirst hline'
    -- the line before is visited too, so the passes agree after it
    have hvisited := hv.expansion hst hsecond hline hread
    have hinside : s.inside registry settings.maxDepth levels l name arguments text i =
        some ((s.labelled l).lines registry settings.maxDepth levels l name ((Lines.split text.toList).take i)).1 := by
      simp only [Layout.inside, hfirst, if_pos hsame]
    rw [Option.bind_some, hinside] at hvisited
    have hlaid := hvisited.laidOut h _ rfl
    have hsilent := hvisited.silent h
    rw [Emission.splice_take_succ hline, take_succ_of_getElem? hline, Layout.lines_concat]
    simp only [Layout.textLine, Emission.textLine, hread]
    rw [← hlaid.plan] at hsilent ⊢
    exact line_cursor h.failed ih hlaid.symbols hlaid.errors hsilent

/-- Where both passes come to a line in the same way, they are at the same place. -/
theorem Visited.cursor (h : Accepted settings registry source) {first : Option Layout} {t : Emission} {levels : Nat}
    {plan : Plan} {l : Line}
    (hv : Visited settings registry source first t levels plan l) : ∀ s ∈ first, s.cursor = t.cursor := by
  induction hv with
  | @source k text l hl =>
    intro s hs
    obtain rfl := Option.some.inj hs
    have hk : k < (readSource source).length := (List.getElem?_eq_some_iff.1 hl).1
    exact cursors_agree h (Nat.le_of_lt hk)
  | @expansion first t levels plan l name arguments text i line inner hv hst hexpand hline hread ih =>
    intro s' hs'
    obtain ⟨s, hs, hinside⟩ := Option.bind_eq_some_iff.1 hs'
    obtain rfl := hs
    obtain ⟨text', hexpand', hsame, rfl⟩ := Layout.inside_eq_some hinside
    have hi := (List.getElem?_eq_some_iff.1 hline).1
    exact hv.cursor_inside h (ih s rfl) hst hexpand' hexpand (by omega) (take_eq_of_le hsame (Nat.le_succ i))

/-- A label at which nothing is reported has an address. -/
theorem Emission.line_label {env : Setting} (hf : env.failed = []) {levels : Nat} {t : Emission} {plan : Plan}
    {l : Line} {name : String} (hlabel : l.label = some name) (he : (t.line env levels plan l).1.errors = #[]) :
    ∃ a, cursorAddress? t.cursor = some a := by
  have he := noErrors_before ((steps_grows env).statement levels t plan l) he
  simp only [labelled, hlabel, label] at he
  cases ha : cursorAddress? t.cursor with
  | some a => exact ⟨a, rfl⟩
  | none =>
    simp only [ha] at he
    exact absurd he (report_ne hf _ _ _ _)

end Source

/-- In an assembly that succeeds, every label to which the second pass comes, at top level or in an expansion,
has an address there. If the lines up to it were the same in the first pass, in each expansion around it, then
this is its address in the symbol table. -/
theorem visited_labels_agree (a : Assembler) (source : String) (out : Output) (h : (a.assemble source).1 = .ok out)
    (first : Option Layout) (t : Emission) (levels : Nat) (plan : Plan) (l : Line) (name : String)
    (hv : Visited a.settings a.registry source first t levels plan l) (hlabel : l.label = some name) :
    ∃ address, cursorAddress? t.cursor = some address ∧
      (first.isSome → out.symbols.address? name = some address) := by
  rw [assemble_fst] at h
  obtain ⟨hacc, -, hsymbols, -⟩ := accepted_of_ok h
  obtain ⟨address, haddress⟩ := Emission.line_label hacc.failed hlabel (hv.silent hacc)
  refine ⟨address, haddress, fun hsome => ?_⟩
  obtain ⟨s, rfl⟩ := Option.isSome_iff_exists.1 hsome
  have hlaid := hv.laidOut hacc s rfl
  obtain ⟨address', haddress', hname⟩ := Layout.line_label hlabel hlaid.errors
  rw [hv.cursor hacc s rfl, haddress] at haddress'
  obtain rfl := Option.some.inj haddress'
  rw [hsymbols]
  exact hlaid.symbols name address hname

/-- A macro with a label in its text. -/
def place : Macro.Handler := fun _ _ _ =>
  .ok (.source "NOP\nhere: NOP")

/-- A macro whose label stands elsewhere in the second pass. -/
def shift : Macro.Handler := fun _ _ pass =>
  .ok (.source (if pass = .first then "there: NOP\nNOP" else "NOP\nthere: NOP"))

def placing : Assembler :=
  { settings := {}, registry := (Macro.Registry.empty.register "place" place).register "shift" shift }

/-- The label of the first macro is where the table has it, and that of the second is not. -/
theorem visited_labels_agree_shifted :
    let source := "ORG $0200\n@place\n@shift"
    ∃ out, (placing.assemble source).1 = .ok out ∧
      (∃ first t levels plan l address, Visited placing.settings placing.registry source first t levels plan l ∧
        l.label = some "here" ∧ first.isSome ∧ cursorAddress? t.cursor = some address ∧
        out.symbols.address? "here" = some address) ∧
      ∃ first t levels plan l, Visited placing.settings placing.registry source first t levels plan l ∧
        l.label = some "there" ∧ first.isNone ∧ cursorAddress? t.cursor = some 0x0203 ∧
        out.symbols.address? "there" = some 0x0202 := by
  intro source
  have hok : (placing.assemble source).1 = .ok (run placing.settings placing.registry source).output :=
    (assemble_fst source placing).trans (toExcept_eq_ok (by decide +kernel))
  have hplace : (readSource source)[1]? =
      some ("@place".toList, .ok ⟨2, none, some (.invocation "place" ""), 0⟩) := by decide +kernel
  have hshift : (readSource source)[2]? =
      some ("@shift".toList, .ok ⟨3, none, some (.invocation "shift" ""), 0⟩) := by decide +kernel
  have hfirst (context : Macro.Context) : placing.registry.expand "place" "" context .second =
      .ok (.source "NOP\nhere: NOP") := rfl
  have hsecond (context : Macro.Context) : placing.registry.expand "shift" "" context .second =
      .ok (.source "NOP\nthere: NOP") := rfl
  have hhere : Visited placing.settings placing.registry source _ _ _ _ _ := .expansion (.source hplace) rfl
    (hfirst _) (show (Lines.split "NOP\nhere: NOP".toList)[1]? = some "here: NOP".toList by decide +kernel)
    (show Line.read "here: NOP".toList 2 = .ok ⟨2, some "here", some (.instruction "NOP" .none none), 6⟩ by
      decide +kernel)
  have hthere : Visited placing.settings placing.registry source _ _ _ _ _ := .expansion (.source hshift) rfl
    (hsecond _) (show (Lines.split "NOP\nthere: NOP".toList)[1]? = some "there: NOP".toList by decide +kernel)
    (show Line.read "there: NOP".toList 3 = .ok ⟨3, some "there", some (.instruction "NOP" .none none), 7⟩ by
      decide +kernel)
  obtain ⟨address, hcursor, haddress⟩ := visited_labels_agree placing source _ hok _ _ _ _ _ "here" hhere rfl
  refine ⟨_, hok, ⟨_, _, _, _, _, address, hhere, rfl, ?_, hcursor, haddress ?_⟩,
    ⟨_, _, _, _, _, hthere, rfl, ?_, ?_, ?_⟩⟩
  all_goals decide +kernel

end Mos6502.Assembly
