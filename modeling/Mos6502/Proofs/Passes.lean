import Mos6502.Assembly.Assembler
import Mos6502.Proofs.Emission
import Mos6502.Proofs.Encoding

/-!
# The two passes agree on addresses

The first pass works with the symbols known so far and the second with all of
them, and yet every line starts at the same address in both, as long as no
error is reported. One line at a time: a value that the first pass needed for
the cursor is the same in the second, an instruction keeps the size chosen for
it, data has a size of its own, and macros are checked for their size.

Main statement: `passes_agree`.
-/
namespace Mos6502.Assembly

/-! ## Values that are addresses -/

theorem valueAddress?_word (w : UInt16) : valueAddress? w.toNat = some w := by
  have := w.toNat_lt
  rw [valueAddress?, if_pos (by omega), Encoding.ofInt_word]

theorem valueAddress?_eq_some {v : Int} {a : UInt16} : valueAddress? v = some a ↔ v = a.toNat := by
  constructor
  · intro h
    unfold valueAddress? at h
    split at h
    · obtain rfl := Option.some.inj h
      simp [UInt16.ofInt]
      omega
    · cases h
  · rintro rfl
    exact valueAddress?_word a

/-! ## One line -/

theorem Layout.define_cursor (s : Layout) (name : String) (address : UInt16) (line column : Nat) :
    (s.define name address line column).cursor = s.cursor := by
  unfold define
  split <;> rfl

theorem Layout.label_cursor (s : Layout) (name : String) (line : Nat) : (s.label name line).cursor = s.cursor := by
  unfold label
  split
  · exact define_cursor _ _ _ _ _
  · rfl

theorem Layout.equate_cursor (s : Layout) (name : String) (value : Expr) (line : Line) :
    (s.equate name value line).cursor = s.cursor := by
  unfold equate
  split
  · unfold assign
    split
    · exact define_cursor _ _ _ _ _
    · rfl
  · rfl

namespace Emission

variable {env : Setting}

theorem length_datum (l : Line) {size : Nat} {encode : Int → Except EncodeError (List UInt8)}
    (h : ∀ v bs, encode v = .ok bs → bs.length = size) (s : Emission) (e : Expr) :
    (s.datum env l size encode e).2.length = size := by
  unfold datum
  dsimp only
  split
  · exact h _ _ ‹_›
  · exact List.length_replicate

theorem length_item (l : Line) (s : Emission) (i : DataItem) : (s.item env l i).2.length = Layout.itemSize i := by
  cases i with
  | value e => exact length_datum l (fun _ _ h => Encoding.length_byte h) s e
  | text bs => rfl

theorem length_word (l : Line) (s : Emission) (e : Expr) : (s.word env l e).2.length = 2 :=
  length_datum l (fun _ _ h => Encoding.length_word h) s e

theorem length_collect {α : Type} {f : Emission → α → Emission × List UInt8} (size : List α → Nat)
    (hnil : size [] = 0) (hcons : ∀ s i items, size (i :: items) = (f s i).2.length + size items)
    (s : Emission) (items : List α) : (s.collect f items).2.length = size items := by
  induction items generalizing s with
  | nil => exact hnil.symm
  | cons i items ih => rw [collect_cons, List.length_append, ih, hcons s]

theorem length_items (l : Line) (s : Emission) (items : List DataItem) :
    (s.collect (item env l) items).2.length = Layout.dataSize items :=
  length_collect Layout.dataSize rfl (fun s i items => by rw [length_item, Layout.dataSize]) s items

theorem length_words (l : Line) (s : Emission) (items : List Expr) :
    (s.collect (word env l) items).2.length = 2 * items.length :=
  length_collect (2 * ·.length) rfl
    (fun s e items => by rw [length_word, List.length_cons, Nat.mul_add, Nat.add_comm]) s items

/-- A chosen instruction moves the cursor by its size, also where it cannot be encoded. -/
theorem chosen_cursor (l : Line) (s : Emission) (c : Choice) (shape : Shape) (v : Option Int) :
    (s.chosen env l c shape v).1.cursor = s.cursor + c.opcode.size := by
  unfold chosen
  split
  · rw [advance, ((Reports.refl s).report _ _ _).cursor]
  · rename_i bs h
    rw [write, bytes_cursor, Opcode.length_encode h]

/-- A planned instruction is written as it was chosen. -/
theorem instruction_planned {l : Line} {s : Emission} {c : Choice} {mnemonic : String} {shape : Shape}
    (h : c.fits mnemonic shape = true) {operand : Option Expr} :
    s.instruction env l (.instruction c) mnemonic shape operand =
      match operand with
      | none => s.chosen env l c shape none
      | some e =>
        match s.value env l e with
        | (s, none) => (s.advance c.opcode.size, [])
        | (s, some v) => s.chosen env l c shape (some v) := by
  have hc : choice (.instruction c) mnemonic shape operand = .ok c := if_pos h
  cases operand with
  | none => simp only [instruction, hc]
  | some e => rcases hv : s.value env l e with ⟨t, _ | v⟩ <;> simp only [instruction, hc, hv]

/-- An instruction that was planned moves the cursor by the planned size. -/
theorem instruction_cursor (l : Line) (s : Emission) {c : Choice} {mnemonic : String} {shape : Shape}
    (h : c.fits mnemonic shape = true) (operand : Option Expr) :
    (s.instruction env l (.instruction c) mnemonic shape operand).1.cursor = s.cursor + c.opcode.size := by
  rw [instruction_planned h]
  cases operand with
  | none => exact chosen_cursor _ _ _ _ _
  | some e =>
    have hv := (value_reports env l s e).cursor
    dsimp only
    split
    · rename_i heq
      rw [heq] at hv
      rw [advance, ← hv]
    · rename_i heq
      rw [heq] at hv
      rw [chosen_cursor, ← hv]

/-- An expansion that passes the check moved the cursor as far as planned. -/
theorem checkSize_eq (hf : env.failed = []) {l : Line} {size : Int} {begin : Nat} {lines : List Plan} {name : String}
    {s : Emission} (he : (s.checkSize env l (.expansion size lines) name begin).errors = #[]) :
    distance begin s.cursor = size := by
  simp only [checkSize] at he
  split at he
  · assumption
  · exact absurd he (report_ne hf _ _ _ _)

end Emission

theorem Choice.fits_self (c : Choice) : c.fits c.mnemonic c.shape = true := by
  simp [fits, Text.sameLetters]

theorem Layout.labelled_cursor (s : Layout) (l : Line) : (s.labelled l).cursor = s.cursor := by
  unfold labelled
  split
  · exact label_cursor _ _ _
  · rfl

theorem Emission.labelled_cursor (env : Setting) (s : Emission) (l : Line) :
    (s.labelled env l).cursor = s.cursor :=
  (labelled_reports env s l).cursor

/-- An origin with a value in the first pass gives both passes the same cursor. -/
theorem setOrigin_cursor {env : Emission.Setting} {s : Layout} {t : Emission} {l : Line} {e : Expr}
    (hc : s.cursor = t.cursor) (hs : s.symbols.Extends env.symbols) {v : Int}
    (hv : e.eval s.symbols s.address = .ok v) :
    (s.setOrigin e l).cursor = (t.setOrigin env l e).cursor := by
  have ha : s.address = t.address := by rw [Layout.address, Emission.address, hc]
  have hv' : e.eval env.symbols t.address = .ok v := ha ▸ Expr.eval_extends hs hv
  simp only [Layout.setOrigin, hv, Emission.setOrigin, Emission.value, hv']
  cases valueAddress? v with
  | some a => rfl
  | none => exact hc.trans ((Emission.Reports.refl t).report _ _ _).cursor.symm

/-- A line that sets no origin and calls no macro leaves both cursors at the same place, whatever is wrong
with it. -/
theorem line_cursor_steady {env : Emission.Setting} {registry : Macro.Registry} {limit levels levels' : Nat}
    {s : Layout} {t : Emission} {l : Line} (hc : s.cursor = t.cursor)
    (horigin : ∀ e, l.statement ≠ some (.origin e))
    (hcall : ∀ name arguments, l.statement ≠ some (.invocation name arguments)) :
    (s.line registry limit levels l).1.cursor =
      (t.line env levels' (s.line registry limit levels l).2 l).1.cursor := by
  have hcl : (s.labelled l).cursor = (t.labelled env l).cursor := by
    rw [Layout.labelled_cursor, Emission.labelled_cursor, hc]
  cases hst : l.statement with
  | none =>
    simp only [Layout.line_eq, Emission.line_eq, hst]
    exact hcl
  | some st =>
    cases st with
    | origin e => exact absurd hst (horigin e)
    | invocation name arguments => exact absurd hst (hcall name arguments)
    | equate name e =>
      simp only [Layout.line_eq, Emission.line_eq, hst]
      rw [Layout.equate_cursor, hcl]
    | bytes items =>
      simp only [Layout.line_eq, Emission.line_eq, hst]
      rw [Emission.write, Emission.bytes_cursor, Layout.advance,
        (Emission.collect_reports env _ (Emission.item_reports env l) _ _).cursor,
        Emission.length_items, hcl]
    | words items =>
      simp only [Layout.line_eq, Emission.line_eq, hst]
      rw [Emission.write, Emission.bytes_cursor, Layout.advance,
        (Emission.collect_reports env _ (Emission.word_reports env l) _ _).cursor,
        Emission.length_words, hcl]
    | instruction mnemonic shape operand =>
      simp only [Layout.line_eq, Emission.line_eq, hst]
      cases hsel : Opcode.select mnemonic shape ((s.labelled l).operandValue operand).1 with
      | error e =>
        -- an instruction that the first pass refused is left out by both
        simp only [Layout.instruction, hsel, Emission.instruction, Layout.report, hcl]
      | ok o =>
        -- the plan has the row that was chosen here, and the second pass does not choose again
        simp only [Layout.instruction, hsel]
        rw [Emission.instruction_cursor l _ (Choice.fits_self ⟨o, _, mnemonic, shape⟩), Layout.advance, hcl]

theorem cursor_eq_of_distance {begin begin' cursor cursor' : Nat} (hbegin : begin = begin')
    (h : distance begin cursor = distance begin' cursor') : cursor = cursor' := by
  unfold distance at h
  omega

/-- A line that both passes take without an error leaves their cursors at the same place. -/
theorem line_cursor {env : Emission.Setting} (hf : env.failed = []) {registry : Macro.Registry}
    {limit levels levels' : Nat} {s : Layout} {t : Emission} {l : Line} (hc : s.cursor = t.cursor)
    (hs : (s.line registry limit levels l).1.symbols.Extends env.symbols)
    (he : (s.line registry limit levels l).1.errors = #[])
    (he' : (t.line env levels' (s.line registry limit levels l).2 l).1.errors = #[]) :
    (s.line registry limit levels l).1.cursor =
      (t.line env levels' (s.line registry limit levels l).2 l).1.cursor := by
  have hcl : (s.labelled l).cursor = (t.labelled env l).cursor := by
    rw [Layout.labelled_cursor, Emission.labelled_cursor, hc]
  by_cases horigin : ∃ e, l.statement = some (.origin e)
  · obtain ⟨e, hst⟩ := horigin
    -- an origin is not put off, so the symbols in it were known
    simp only [Layout.line_eq, Emission.line_eq, hst] at hs he ⊢
    cases hv : e.eval (s.labelled l).symbols (s.labelled l).address with
    | error u => simp [Layout.setOrigin, hv, Layout.report] at he
    | ok v => exact setOrigin_cursor hcl ((Layout.steps_extends.setOrigin _ e l).symbols.trans hs) hv
  by_cases hcall : ∃ name arguments, l.statement = some (.invocation name arguments)
  · obtain ⟨name, arguments, hst⟩ := hcall
    simp only [Layout.line_eq, Emission.line_eq, hst] at he' ⊢
    -- both expansions begin at one place and go equally far
    have hsize := Emission.checkSize_eq hf he'
    rw [(Emission.checkSize_reports env _ _ _ _ _).cursor]
    exact cursor_eq_of_distance hcl hsize.symm
  · exact line_cursor_steady hc (fun e hst => horigin ⟨e, hst⟩)
      fun name arguments hst => hcall ⟨name, arguments, hst⟩

/-! ## Whole sources -/

section Source
variable (settings : Settings) (registry : Macro.Registry) (source : String)

/-- What was read from the lines of the source. -/
def parsed : List (Except LineError Line) :=
  (readSource source).map (·.2)

/-- What the second pass over the source starts from. -/
def environment : Emission.Setting :=
  let layout := (Layout.run registry settings.maxDepth (parsed source)).1
  ⟨registry, settings.maxDepth, layout.symbols, (layout.errors.toList.map (·.line)).eraseReps⟩

/-- The lines of the source with their plans. -/
def planned : List (Emission.SourceLine × Plan) :=
  (readSource source).zip (Layout.run registry settings.maxDepth (parsed source)).2

/-- Both passes over the source, in the words above. -/
theorem run_eq :
    run settings registry source =
      let emitted := Emission.run (environment settings registry source) (planned settings registry source)
      { output := ⟨emitted.1.image, (Layout.run registry settings.maxDepth (parsed source)).1.symbols, emitted.2,
          emitted.1.warnings.toList⟩
        errors := (Layout.run registry settings.maxDepth (parsed source)).1.errors.toList ++
          emitted.1.errors.toList } := by
  simp only [run, environment, planned, parsed]

theorem assemble_fst (a : Assembler) : (a.assemble source).1 = (run a.settings a.registry source).toExcept := by
  simp only [Assembler.assemble]

/-- Neither pass over the source reports an error. -/
structure Accepted : Prop where
  first : (Layout.run registry settings.maxDepth (parsed source)).1.errors = #[]
  second : (Emission.run (environment settings registry source) (planned settings registry source)).1.errors = #[]

variable {settings registry source}

/-- An output comes from two passes without errors. -/
theorem accepted_of_ok {out : Output} (h : (run settings registry source).toExcept = .ok out) :
    Accepted settings registry source ∧ out.image =
      (Emission.run (environment settings registry source) (planned settings registry source)).1.image ∧
    out.symbols = (Layout.run registry settings.maxDepth (parsed source)).1.symbols ∧ out.listing =
      (Emission.run (environment settings registry source) (planned settings registry source)).2 := by
  rw [run_eq, Result.toExcept] at h
  dsimp only at h
  split at h
  · rename_i he
    obtain rfl := Except.ok.inj h
    obtain ⟨h₁, h₂⟩ := List.append_eq_nil_iff.1 (List.isEmpty_iff.1 he)
    rw [Array.toList_eq_nil_iff] at h₁ h₂
    exact ⟨⟨h₁, h₂⟩, rfl, rfl, rfl⟩
  · cases h

variable (settings registry source) in
theorem pass_extends_run (k : Nat) :
    (Layout.pass registry settings.maxDepth ((parsed source).take k)).1.Extends
      (Layout.run registry settings.maxDepth (parsed source)).1 := by
  have hp := Layout.pass_extends registry settings.maxDepth ((parsed source).take k) ((parsed source).drop k)
  rw [List.take_append_drop] at hp
  rw [Layout.run_fst]
  exact hp.trans ((Layout.settle_extends _).trans (Layout.reportPending_extends _))

theorem parsed_getElem? {k : Nat} {text : List Char} {l : Except LineError Line}
    (hl : (readSource source)[k]? = some (text, l)) : (parsed source)[k]? = some l := by
  rw [parsed, List.getElem?_map, hl, Option.map_some]

theorem take_succ_of_getElem? {α : Type} {xs : List α} {k : Nat} {x : α} (h : xs[k]? = some x) :
    xs.take (k + 1) = xs.take k ++ [x] := by
  rw [List.take_add_one, h, Option.toList_some]

/-- The first pass after one more line. -/
theorem pass_take_succ {k : Nat} {text : List Char} {l : Except LineError Line}
    (hl : (readSource source)[k]? = some (text, l)) :
    (Layout.pass registry settings.maxDepth ((parsed source).take (k + 1))).1 =
      ((Layout.pass registry settings.maxDepth ((parsed source).take k)).1.sourceLine registry
        settings.maxDepth l).1 := by
  rw [take_succ_of_getElem? (parsed_getElem? hl), Layout.pass_concat]

theorem planned_getElem? {k : Nat} {text : List Char} {l : Except LineError Line}
    (hl : (readSource source)[k]? = some (text, l)) :
    (planned settings registry source)[k]? = some ((text, l),
      ((Layout.pass registry settings.maxDepth ((parsed source).take k)).1.sourceLine registry
        settings.maxDepth l).2) := by
  have hp := Layout.getElem?_plans registry settings.maxDepth (parsed_getElem? hl)
  rw [planned, Layout.run_snd]
  exact List.getElem?_zip_eq_some.2 ⟨hl, hp⟩

/-- The second pass after one more line, and that line in the listing. -/
theorem run_take_succ {k : Nat} {text : List Char} {l : Line}
    (hl : (readSource source)[k]? = some (text, .ok l)) :
    let env := environment settings registry source
    let before := Emission.run env ((planned settings registry source).take k)
    let plan := ((Layout.pass registry settings.maxDepth ((parsed source).take k)).1.line registry settings.maxDepth
      settings.maxDepth l).2
    Emission.run env ((planned settings registry source).take (k + 1)) =
      ((before.1.line env env.limit plan l).1,
        ⟨before.2.lines ++ [⟨l.number, cursorAddress? before.1.cursor, (before.1.line env env.limit plan l).2,
          String.ofList (Blank.trimEnd text)⟩]⟩) := by
  rw [take_succ_of_getElem? (planned_getElem? hl)]
  exact Emission.run_concat _ _ _ _ _

namespace Accepted
variable (h : Accepted settings registry source)
include h

theorem failed : (environment settings registry source).failed = [] := by
  simp only [environment, h.first]
  rfl

theorem pass_errors (k : Nat) : (Layout.pass registry settings.maxDepth ((parsed source).take k)).1.errors = #[] :=
  (pass_extends_run settings registry source k).noErrors h.first

theorem run_errors (k : Nat) :
    (Emission.run (environment settings registry source)
      ((planned settings registry source).take k)).1.errors = #[] := by
  have hr := (Emission.steps_grows (environment settings registry source)).run
    ((planned settings registry source).take k) ((planned settings registry source).drop k)
  rw [List.take_append_drop] at hr
  exact Emission.noErrors_before hr h.second

/-- Every line can be read. -/
theorem line_ok {k : Nat} (hk : k < (readSource source).length) :
    ∃ text l, (readSource source)[k]? = some (text, .ok l) := by
  obtain ⟨⟨text, l⟩, hl⟩ : ∃ x, (readSource source)[k]? = some x := ⟨_, List.getElem?_eq_getElem hk⟩
  cases l with
  | ok l => exact ⟨text, l, hl⟩
  | error e =>
    -- the first pass reports what it cannot read
    have he := h.pass_errors (k + 1)
    rw [pass_take_succ hl] at he
    simp [Layout.sourceLine, Layout.report] at he

end Accepted

/-! ## Cursors -/

variable (settings registry source)

/-- The cursor with which the first pass starts the line after the first `k`. -/
def firstCursor (k : Nat) : Nat :=
  (Layout.pass registry settings.maxDepth ((parsed source).take k)).1.cursor

/-- The cursor with which the second pass starts the line after the first `k`. -/
def secondCursor (k : Nat) : Nat :=
  (Emission.run (environment settings registry source) ((planned settings registry source).take k)).1.cursor

variable {settings registry source}

theorem getElem?_parsed {k : Nat} {x : Except LineError Line} (h : (parsed source)[k]? = some x) :
    ∃ text, (readSource source)[k]? = some (text, x) := by
  rw [parsed, List.getElem?_map] at h
  obtain ⟨⟨text, y⟩, hl, rfl⟩ := Option.map_eq_some_iff.1 h
  exact ⟨text, hl⟩

/-- Both passes start every line at the same place. -/
theorem cursors_agree (h : Accepted settings registry source) {k : Nat} (hk : k ≤ (readSource source).length) :
    firstCursor settings registry source k = secondCursor settings registry source k := by
  induction k with
  | zero => simp [firstCursor, secondCursor, Layout.pass, Emission.run, Layout.start, Emission.start]
  | succ k ih =>
    obtain ⟨text, l, hl⟩ := h.line_ok (show k < (readSource source).length by omega)
    have hc := ih (by omega)
    have he := h.pass_errors (k + 1)
    have he' := h.run_errors (k + 1)
    have hx := (pass_extends_run settings registry source (k + 1)).symbols
    simp only [firstCursor, secondCursor, pass_take_succ hl, run_take_succ hl] at *
    exact line_cursor h.failed hc hx he he'

/-! ## Labels and the listing -/

/-- A label gets the address of the cursor. -/
theorem Layout.line_label {limit levels : Nat} {s : Layout} {l : Line} {name : String} (hl : l.label = some name)
    (he : (s.line registry limit levels l).1.errors = #[]) :
    ∃ a, cursorAddress? s.cursor = some a ∧ (s.line registry limit levels l).1.symbols.address? name = some a := by
  have hx := labelled_extends registry limit levels s l
  have hn := hx.noErrors he
  have hs : s.labelled l = s.label name l.number := by simp [labelled, hl]
  rw [hs] at hx hn
  cases ha : cursorAddress? s.cursor with
  | none => simp [label, ha, report] at hn
  | some a =>
    simp only [label, ha, define] at hx hn
    cases hd : s.symbols.define ⟨name, a, l.number⟩ with
    | error old => simp [hd, report] at hn
    | ok symbols =>
      simp only [hd] at hx
      refine ⟨a, rfl, hx.symbols name a ?_⟩
      rw [SymbolTable.address?_define hd, if_pos rfl]

/-- In the finished table a label has the address at which the first pass started its line. -/
theorem Accepted.label_address (h : Accepted settings registry source) {k : Nat} {text : List Char} {l : Line}
    {name : String} (hl : (readSource source)[k]? = some (text, .ok l)) (hlabel : l.label = some name) :
    ∃ a, cursorAddress? (firstCursor settings registry source k) = some a ∧
      (Layout.run registry settings.maxDepth (parsed source)).1.symbols.address? name = some a := by
  have he := h.pass_errors (k + 1)
  have hx := (pass_extends_run settings registry source (k + 1)).symbols
  rw [pass_take_succ hl] at he hx
  obtain ⟨a, hcursor, haddress⟩ := Layout.line_label hlabel he
  exact ⟨a, hcursor, hx name a haddress⟩

theorem Emission.run_lines_prefix (env : Setting) (lines more : List (SourceLine × Plan)) :
    (run env lines).2.lines <+: (run env (lines ++ more)).2.lines := by
  induction more using List.reverseRecOn with
  | nil => simp
  | append_singleton more l ih =>
    obtain ⟨⟨text, l⟩, plan⟩ := l
    rw [← List.append_assoc]
    cases l with
    | ok l => rw [run_concat]; exact ih.trans (List.prefix_append _ _)
    | error e => rw [run_concat_error]; exact ih

theorem Accepted.length_listing (h : Accepted settings registry source) {k : Nat}
    (hk : k ≤ (readSource source).length) :
    (Emission.run (environment settings registry source)
      ((planned settings registry source).take k)).2.lines.length = k := by
  induction k with
  | zero => rfl
  | succ k ih =>
    obtain ⟨text, l, hl⟩ := h.line_ok (show k < (readSource source).length by omega)
    rw [run_take_succ hl, List.length_append, ih (by omega), List.length_singleton]

/-- The listing shows each line at the cursor of the second pass, with the bytes it gave there. -/
theorem Accepted.listing_line (h : Accepted settings registry source) {k : Nat} {text : List Char} {l : Line}
    (hl : (readSource source)[k]? = some (text, .ok l)) :
    let env := environment settings registry source
    let before := Emission.run env ((planned settings registry source).take k)
    let plan := ((Layout.pass registry settings.maxDepth ((parsed source).take k)).1.line registry settings.maxDepth
      settings.maxDepth l).2
    (Emission.run env (planned settings registry source)).2.lines[k]? =
      some ⟨l.number, cursorAddress? before.1.cursor, (before.1.line env env.limit plan l).2,
        String.ofList (Blank.trimEnd text)⟩ := by
  intro env before plan
  have hk : k < (readSource source).length := (List.getElem?_eq_some_iff.1 hl).1
  -- the lines before have one entry each, so the entry of this one is the `k`-th
  have hlen := h.length_listing (Nat.le_of_lt hk)
  obtain ⟨rest, hr⟩ := Emission.run_lines_prefix (environment settings registry source)
    ((planned settings registry source).take (k + 1)) ((planned settings registry source).drop (k + 1))
  rw [List.take_append_drop, run_take_succ hl, List.append_assoc] at hr
  rw [← hr, List.getElem?_append_right (by omega), hlen, Nat.sub_self]
  rfl

theorem Accepted.listing_getElem? (h : Accepted settings registry source) {k : Nat} {text : List Char} {l : Line}
    (hl : (readSource source)[k]? = some (text, .ok l)) :
    ∃ bs, (Emission.run (environment settings registry source) (planned settings registry source)).2.lines[k]? =
      some ⟨l.number, cursorAddress? (secondCursor settings registry source k), bs,
        String.ofList (Blank.trimEnd text)⟩ :=
  ⟨_, h.listing_line hl⟩

end Source

/-- Both passes start every line of an accepted source at the same address, so a label has in the symbol
table the address that the listing shows for its line. -/
theorem passes_agree (a : Assembler) (source : String) (out : Output) (h : (a.assemble source).1 = .ok out) :
    (∀ k < (readSource source).length,
      firstCursor a.settings a.registry source k = secondCursor a.settings a.registry source k) ∧
    ∀ (k : Nat) (text : List Char) (l : Line) (name : String),
      (readSource source)[k]? = some (text, .ok l) → l.label = some name →
      ∃ address listed, out.symbols.address? name = some address ∧ out.listing.lines[k]? = some listed ∧
        listed.number = l.number ∧ listed.address = some address := by
  rw [assemble_fst] at h
  obtain ⟨hacc, -, hsymbols, hlisting⟩ := accepted_of_ok h
  constructor
  · intro k hk
    exact cursors_agree hacc (Nat.le_of_lt hk)
  · intro k text l name hl hlabel
    have hk : k < (readSource source).length := (List.getElem?_eq_some_iff.1 hl).1
    obtain ⟨address, hcursor, haddress⟩ := hacc.label_address hl hlabel
    obtain ⟨bs, hlisted⟩ := hacc.listing_getElem? hl
    rw [← cursors_agree hacc (Nat.le_of_lt hk), hcursor] at hlisted
    rw [hsymbols, hlisting]
    exact ⟨address, _, haddress, hlisted, rfl, rfl⟩

theorem toExcept_eq_ok {r : Result} (h : r.errors.isEmpty = true) : r.toExcept = .ok r.output :=
  if_pos h

/-- A macro whose two bytes are spelled in another way in each pass. -/
def pad : Macro.Handler := fun _ _ pass =>
  .ok (.source (if pass = .first then "NOP\nNOP" else "DB 1,2"))

def padded : Assembler :=
  { settings := {}, registry := Macro.Registry.empty.register "pad" pad }

/-- A label and a forward reference on either side of the macro. -/
theorem passes_agree_padded :
    let source := "ORG $0010\nJMP next\n@pad\nnext: NOP"
    ∃ out, (padded.assemble source).1 = .ok out ∧
      firstCursor padded.settings padded.registry source 3 = secondCursor padded.settings padded.registry source 3 ∧
      out.symbols.address? "next" = some 0x15 := by
  intro source
  have hok : (padded.assemble source).1 = .ok (run padded.settings padded.registry source).output :=
    (assemble_fst source padded).trans (toExcept_eq_ok (by decide +kernel))
  exact ⟨_, hok, (passes_agree padded source _ hok).1 3 (by decide +kernel), by decide +kernel⟩

end Mos6502.Assembly
