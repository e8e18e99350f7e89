import Mos6502.Proofs.Equates
import Mos6502.Proofs.SourceMap

/-!
# What the bytes of a line mean

Under a symbol table and at an address a statement stands for bytes. The second
pass writes the bytes that a line stands for under the finished table, although
the instructions were chosen under a smaller one: where it cannot, it reports an
error.

Main statement: `bytes_mean_statements`.
-/
namespace Mos6502

/-! ## Meaning -/

namespace Expr

/-- The symbols in the expression. -/
def mentions : Expr → List String
  | number _ | here => []
  | symbol name => [name]
  | neg e | low e | high e => e.mentions
  | add l r | sub l r => l.mentions ++ r.mentions

/-- Every symbol in the expression has a value. -/
def Known (t : SymbolTable) (e : Expr) : Prop :=
  ∀ name ∈ e.mentions, (t.address? name).isSome

instance (t : SymbolTable) (e : Expr) : Decidable (e.Known t) :=
  inferInstanceAs (Decidable (∀ name ∈ e.mentions, _))

/-- An expression has a value if and only if its symbols have. -/
theorem eval_ok_iff {t : SymbolTable} {a : UInt16} {e : Expr} : (∃ v, e.eval t a = .ok v) ↔ e.Known t := by
  unfold Known
  induction e with
  | number n | here => simp [eval, mentions]
  | symbol name => cases h : t.address? name <;> simp [eval, mentions, h]
  | neg e ih | low e ih | high e ih =>
    rw [mentions, ← ih]
    constructor
    · rintro ⟨v, hv⟩
      obtain ⟨w, hw, -⟩ := bind_eq_ok.1 hv
      exact ⟨w, hw⟩
    · rintro ⟨w, hw⟩
      exact ⟨_, bind_eq_ok.2 ⟨w, hw, rfl⟩⟩
  | add l r ihl ihr | sub l r ihl ihr =>
    simp only [mentions, List.forall_mem_append, ← ihl, ← ihr]
    constructor
    · rintro ⟨v, hv⟩
      obtain ⟨w, hw, hv⟩ := bind_eq_ok.1 hv
      obtain ⟨x, hx, -⟩ := bind_eq_ok.1 hv
      exact ⟨⟨w, hw⟩, ⟨x, hx⟩⟩
    · rintro ⟨⟨w, hw⟩, ⟨x, hx⟩⟩
      exact ⟨_, bind_eq_ok.2 ⟨w, hw, bind_eq_ok.2 ⟨x, hx, rfl⟩⟩⟩

end Expr

/-- An item of data is its text, or the byte of its value. -/
inductive DataItem.Means (t : SymbolTable) (a : UInt16) : DataItem → List UInt8 → Prop
  | text (bs : List UInt8) : Means t a (.text bs) bs
  | value {e : Expr} {v : Int} {b : UInt8} :
    e.eval t a = .ok v → Encoding.byte v = .ok b → Means t a (.value e) [b]

namespace Statement

/-- The expressions in the statement. -/
def expressions : Statement → List Expr
  | instruction _ _ operand => operand.toList
  | origin e | equate _ e => [e]
  | bytes items => items.filterMap fun
    | .value e => some e
    | .text _ => none
  | words items => items
  | invocation _ _ => []

/-- The statement stands for the bytes at the address, with the values that the table gives the symbols. -/
inductive Means (t : SymbolTable) (a : UInt16) : Statement → List UInt8 → Prop
  | bytes {items : List DataItem} {parts : List (List UInt8)} :
    List.Forall₂ (DataItem.Means t a) items parts → Means t a (.bytes items) parts.flatten
  /-- Each word with its low byte first. -/
  | words {items : List Expr} {parts : List (List UInt8)} :
    List.Forall₂ (fun e bs => ∃ v, e.eval t a = .ok v ∧ Encoding.word v = .ok bs) items parts →
    Means t a (.words items) parts.flatten
  /-- A row of the table that some value, or none, selects for what is written. -/
  | instruction {mnemonic : String} {shape : Shape} {operand : Option Expr} {w : Option UInt16} {o : Opcode}
      {v : Option Int} {bs : List UInt8} :
    Opcode.select mnemonic shape w = .ok o → Option.Rel (fun e v => e.eval t a = .ok v) operand v →
    o.encode v a = .ok bs → Means t a (.instruction mnemonic shape operand) bs
  | origin {e : Expr} {v : UInt16} : e.eval t a = .ok v.toNat → Means t a (.origin e) []
  | equate {name : String} {e : Expr} {v : UInt16} :
    t.address? name = some v → e.eval t a = .ok v.toNat → Means t a (.equate name e) []
  /-- The bytes of a macro are its own affair. -/
  | invocation (name arguments : String) (bs : List UInt8) : Means t a (.invocation name arguments) bs

theorem exists_of_forall₂ {α β : Type} {R : α → β → Prop} {xs : List α} {ys : List β} (h : List.Forall₂ R xs ys)
    {x : α} (hx : x ∈ xs) : ∃ y, R x y := by
  induction h with
  | nil => cases hx
  | cons hr _ ih =>
    cases hx with
    | head => exact ⟨_, hr⟩
    | tail _ hx => exact ih hx

/-- What a statement stands for depends on symbols with values only. -/
theorem Means.known {t : SymbolTable} {a : UInt16} {st : Statement} {bs : List UInt8} (h : st.Means t a bs) {e : Expr}
    (he : e ∈ st.expressions) : e.Known t := by
  refine Expr.eval_ok_iff.1 (?_ : ∃ v, e.eval t a = .ok v)
  cases h with
  | bytes hparts =>
    obtain ⟨i, hi, hvalue⟩ := List.mem_filterMap.1 he
    obtain ⟨bs, hbs⟩ := exists_of_forall₂ hparts hi
    cases hbs with
    | text => cases hvalue
    | value hv =>
      cases hvalue
      exact ⟨_, hv⟩
  | words hparts =>
    obtain ⟨bs, v, hv, -⟩ := exists_of_forall₂ hparts he
    exact ⟨v, hv⟩
  | instruction hselect hoperand hencode =>
    cases hoperand with
    | none => simp [expressions] at he
    | some hv =>
      obtain rfl := List.mem_singleton.1 he
      exact ⟨_, hv⟩
  | origin hv | equate _ hv =>
    obtain rfl := List.mem_singleton.1 he
    exact ⟨_, hv⟩
  | invocation => simp [expressions] at he

end Statement

namespace Line

/-- The expressions in the line. -/
def expressions (l : Line) : List Expr :=
  match l.statement with
  | none => []
  | some st => st.expressions

/-- The line stands for the bytes of its statement, and for none if it has no statement. -/
def Means (t : SymbolTable) (a : UInt16) (l : Line) (bs : List UInt8) : Prop :=
  match l.statement with
  | none => bs = []
  | some st => st.Means t a bs

theorem Means.known {t : SymbolTable} {a : UInt16} {l : Line} {bs : List UInt8} (h : l.Means t a bs) {e : Expr}
    (he : e ∈ l.expressions) : e.Known t := by
  cases hst : l.statement with
  | none => simp [expressions, hst] at he
  | some st =>
    simp only [Means, hst] at h
    simp only [expressions, hst] at he
    exact h.known he

end Line

/-! ## Steps of the second pass that report nothing -/

namespace Assembly.Emission

variable {env : Setting}

theorem Reports.eq_of_noErrors (hf : env.failed = []) {s t : Emission} (h : Reports env s t) (he : t.errors = #[]) :
    t = s := by
  cases h with
  | refl => rfl
  | report line column cause h => exact absurd he (report_ne hf _ _ _ _)

section Silent
variable (hf : env.failed = []) {l : Line} {s : Emission}
include hf

theorem value_silent {e : Expr} (he : (s.value env l e).1.errors = #[]) :
    ∃ v, e.eval env.symbols s.address = .ok v ∧ s.value env l e = (s, some v) := by
  cases hv : e.eval env.symbols s.address with
  | ok v => exact ⟨v, rfl, by simp only [value, hv]⟩
  | error u =>
    simp only [value, hv] at he
    exact absurd he (report_ne hf _ _ _ _)

theorem datum_silent {size : Nat} {encode : Int → Except EncodeError (List UInt8)} {e : Expr}
    (he : (s.datum env l size encode e).1.errors = #[]) :
    ∃ v bs, e.eval env.symbols s.address = .ok v ∧ encode v = .ok bs ∧ s.datum env l size encode e = (s, bs) := by
  have hvalue : (s.value env l e).1.errors = #[] := by
    unfold datum at he
    dsimp only at he
    split at he
    · exact he
    · exact absurd he (report_ne hf _ _ _ _)
  obtain ⟨v, hv, heq⟩ := value_silent hf hvalue
  simp only [datum, heq, Option.getD_some] at he ⊢
  cases hb : encode v with
  | ok bs => exact ⟨v, bs, hv, hb, rfl⟩
  | error err =>
    simp only [hb] at he
    exact absurd he (report_ne hf _ _ _ _)

theorem item_silent {i : DataItem} (he : (s.item env l i).1.errors = #[]) :
    ∃ bs, i.Means env.symbols s.address bs ∧ s.item env l i = (s, bs) := by
  cases i with
  | text bs => exact ⟨bs, .text bs, rfl⟩
  | value e =>
    obtain ⟨v, bs, hv, hb, heq⟩ := datum_silent hf he
    obtain ⟨b, hbyte, rfl⟩ := map_eq_ok.1 hb
    exact ⟨[b], .value hv hbyte, heq⟩

theorem word_silent {e : Expr} (he : (s.word env l e).1.errors = #[]) :
    ∃ bs, (∃ v, e.eval env.symbols s.address = .ok v ∧ Encoding.word v = .ok bs) ∧ s.word env l e = (s, bs) := by
  obtain ⟨v, bs, hv, hb, heq⟩ := datum_silent hf he
  exact ⟨bs, ⟨v, hv, hb⟩, heq⟩

omit hf in
theorem collect_silent {α : Type} {P : α → List UInt8 → Prop} {f : Emission → α → Emission × List UInt8}
    (hr : ∀ s i, Reports env s (f s i).1)
    (hstep : ∀ i, (f s i).1.errors = #[] → ∃ bs, P i bs ∧ f s i = (s, bs)) {items : List α}
    (he : (s.collect f items).1.errors = #[]) :
    ∃ parts, List.Forall₂ P items parts ∧ s.collect f items = (s, parts.flatten) := by
  induction items with
  | nil => exact ⟨[], .nil, rfl⟩
  | cons i items ih =>
    rw [collect_cons] at he ⊢
    obtain ⟨bs, hbs, heq⟩ := hstep i ((collect_reports env f hr _ items).noErrors he)
    rw [heq] at he ⊢
    obtain ⟨parts, hparts, hrest⟩ := ih he
    exact ⟨bs :: parts, .cons hbs hparts, by rw [hrest, List.flatten_cons]⟩

theorem write_silent {bs : List UInt8} (he : (s.write env l bs).1.errors = #[]) :
    s.write env l bs = ({ s with image := s.image.puts s.cursor bs, cursor := s.cursor + bs.length }, bs) := by
  rw [write, bytes_of_free (free_of_bytes hf he)]

/-- A list of data whose items are what they stand for is written as they follow each other. -/
theorem data_silent {α : Type} {P : α → List UInt8 → Prop} {f : Emission → α → Emission × List UInt8}
    (hr : ∀ s i, Reports env s (f s i).1)
    (hstep : ∀ i, (f s i).1.errors = #[] → ∃ bs, P i bs ∧ f s i = (s, bs)) {items : List α}
    (he : ((s.collect f items).1.write env l (s.collect f items).2).1.errors = #[]) :
    ∃ parts, List.Forall₂ P items parts ∧ (s.collect f items).1.write env l (s.collect f items).2 =
      ({ s with
          image := s.image.puts s.cursor parts.flatten
          cursor := s.cursor + parts.flatten.length }, parts.flatten) := by
  have hbefore := noErrors_before ((steps_grows env).bytes l _ _) he
  obtain ⟨parts, hparts, heq⟩ := collect_silent hr hstep hbefore
  rw [heq] at he ⊢
  exact ⟨parts, hparts, write_silent hf he⟩

theorem chosen_silent {c : Choice} {shape : Shape} {v : Option Int}
    (he : (s.chosen env l c shape v).1.errors = #[]) :
    ∃ bs, c.opcode.encode v s.address = .ok bs ∧ s.chosen env l c shape v =
      ({ s with
          warnings := s.warnings ++ (warning? c shape l v).toArray
          image := s.image.puts s.cursor bs
          cursor := s.cursor + bs.length }, bs) := by
  cases hb : c.opcode.encode v s.address with
  | ok bs =>
    simp only [chosen, hb] at he ⊢
    exact ⟨bs, rfl, write_silent hf he⟩
  | error e =>
    simp only [chosen, hb] at he
    exact absurd he (report_ne hf _ _ _ _)

theorem instruction_silent {c : Choice} {mnemonic : String} {shape : Shape} (hc : c.fits mnemonic shape = true)
    {operand : Option Expr} (he : (s.instruction env l (.instruction c) mnemonic shape operand).1.errors = #[]) :
    ∃ v, Option.Rel (fun e v => e.eval env.symbols s.address = .ok v) operand v ∧
      s.instruction env l (.instruction c) mnemonic shape operand = s.chosen env l c shape v := by
  rw [instruction_planned hc] at he ⊢
  cases operand with
  | none => exact ⟨none, .none, rfl⟩
  | some e =>
    have hvalue : (s.value env l e).1.errors = #[] := by
      dsimp only at he
      split at he
      · rename_i heq
        rw [heq]
        exact he
      · rename_i heq
        rw [heq]
        exact noErrors_before ((steps_grows env).chosen _ _ _ _ _) he
    obtain ⟨v, hv, heq⟩ := value_silent hf hvalue
    exact ⟨some v, .some hv, by simp only [heq]⟩

theorem setOrigin_silent {e : Expr} (he : (s.setOrigin env l e).errors = #[]) :
    ∃ v : UInt16, e.eval env.symbols s.address = .ok v.toNat ∧
      s.setOrigin env l e = { s with cursor := v.toNat, origin := v } := by
  have hvalue : (s.value env l e).1.errors = #[] := by
    unfold setOrigin at he
    split at he
    · rename_i heq
      rw [heq]
      exact he
    · rename_i heq
      rw [heq]
      split at he
      · exact he
      · exact absurd he (report_ne hf _ _ _ _)
  obtain ⟨v, hv, heq⟩ := value_silent hf hvalue
  simp only [setOrigin, heq] at he ⊢
  cases ha : valueAddress? v with
  | some a => exact ⟨a, valueAddress?_eq_some.1 ha ▸ hv, rfl⟩
  | none =>
    simp only [ha] at he
    exact absurd he (report_ne hf _ _ _ _)

theorem labelled_silent {levels : Nat} {plan : Plan} (he : (s.line env levels plan l).1.errors = #[]) :
    s.labelled env l = s := by
  have hrest := (steps_grows env).statement levels s plan l
  exact (labelled_reports env s l).eq_of_noErrors hf (noErrors_before hrest he)

end Silent

end Assembly.Emission

/-! ## Lines -/

namespace Assembly

section Line
variable {env : Emission.Setting} (hf : env.failed = []) {registry : Macro.Registry} {limit levels levels' : Nat}
  {s : Layout} {t : Emission} {l : Line} (he : (s.line registry limit levels l).1.errors = #[])
  (he' : (t.line env levels' (s.line registry limit levels l).2 l).1.errors = #[])
include hf he he'

/-- An instruction gives the bytes of the row that the first pass selected, with the operand's value of the
second. -/
theorem line_instruction {mnemonic : String} {shape : Shape} {operand : Option Expr}
    (hst : l.statement = some (.instruction mnemonic shape operand)) :
    ∃ o v, Opcode.select mnemonic shape ((s.labelled l).operandValue operand).1 = .ok o ∧
      Option.Rel (fun e v => e.eval env.symbols t.address = .ok v) operand v ∧
      o.encode v t.address = .ok (t.line env levels' (s.line registry limit levels l).2 l).2 ∧
      (t.line env levels' (s.line registry limit levels l).2 l).1.warnings = t.warnings ++ (Emission.warning?
        ⟨o, ((s.labelled l).operandValue operand).2, mnemonic, shape⟩ shape l v).toArray := by
  have hlabel := Emission.labelled_silent hf he'
  simp only [Layout.line_eq, Emission.line_eq, hst, hlabel] at he he' ⊢
  cases hsel : Opcode.select mnemonic shape ((s.labelled l).operandValue operand).1 with
  | error e => simp [Layout.instruction, hsel, Layout.report] at he
  | ok o =>
    simp only [Layout.instruction, hsel] at he' ⊢
    obtain ⟨v, hv, heq⟩ := Emission.instruction_silent hf (Choice.fits_self ⟨o, _, mnemonic, shape⟩) he'
    rw [heq] at he' ⊢
    obtain ⟨bs, hbs, heq⟩ := Emission.chosen_silent hf he'
    rw [heq]
    exact ⟨o, v, rfl, hv, hbs, rfl⟩

/-- A line that both passes take without an error gives the bytes that its statement stands for. -/
theorem statement_means {st : Statement} (hst : l.statement = some st) (hequate : ∀ name e, st ≠ .equate name e) :
    st.Means env.symbols t.address (t.line env levels' (s.line registry limit levels l).2 l).2 := by
  have hlabel := Emission.labelled_silent hf he'
  cases st with
  | equate name e => exact absurd rfl (hequate name e)
  | invocation name arguments => exact .invocation _ _ _
  | instruction mnemonic shape operand =>
    obtain ⟨o, v, hselect, hv, hbs, -⟩ := line_instruction hf he he' hst
    exact .instruction hselect hv hbs
  | origin e =>
    simp only [Emission.line_eq, hst, hlabel] at he' ⊢
    obtain ⟨v, hv, -⟩ := Emission.setOrigin_silent hf he'
    exact .origin hv
  | bytes items =>
    simp only [Emission.line_eq, hst, hlabel] at he' ⊢
    obtain ⟨parts, hparts, heq⟩ := Emission.data_silent hf (Emission.item_reports env l)
      (fun i => Emission.item_silent hf) he'
    rw [heq]
    exact .bytes hparts
  | words items =>
    simp only [Emission.line_eq, hst, hlabel] at he' ⊢
    obtain ⟨parts, hparts, heq⟩ := Emission.data_silent hf (Emission.word_reports env l)
      (fun e => Emission.word_silent hf) he'
    rw [heq]
    exact .words hparts

end Line

/-! ## Macros without source text -/

section Source
variable {settings : Settings} {registry : Macro.Registry} {source : String}

/-- Macros that answer with bytes move the cursor past them. -/
theorem Layout.expansion_cursor
    (hp : ∀ name arguments context pass text, registry.expand name arguments context pass ≠ .ok (.source text))
    (limit levels : Nat) (s : Layout) (l : Line) (name arguments : String) :
    (expansion registry limit levels s l name arguments).1.cursor =
      s.cursor + Macro.answerSize (registry.expand name arguments s.context .first) := by
  unfold expansion
  cases heq : registry.expand name arguments s.context .first with
  | error e => rfl
  | ok output =>
    cases output with
    | bytes bs => rfl
    | nothing => rfl
    | source text => exact absurd heq (hp _ _ _ _ _)

theorem Emission.expansion_cursor {env : Setting}
    (hp : ∀ name arguments context pass text, env.registry.expand name arguments context pass ≠ .ok (.source text))
    (levels : Nat) (s : Emission) (plan : Plan) (l : Line) (name arguments : String) :
    (s.expansion env levels plan l name arguments).1.cursor =
      s.cursor + Macro.answerSize (env.registry.expand name arguments (s.context env) .second) := by
  unfold expansion
  cases heq : env.registry.expand name arguments (s.context env) .second with
  | error e => exact ((Reports.refl s).report _ _ _).cursor
  | ok output =>
    cases output with
    | bytes bs => exact bytes_cursor _ _ _
    | nothing => rfl
    | source text => exact absurd heq (hp _ _ _ _ _)

/-- In an accepted source every line gives the bytes that it stands for under the finished table. -/
theorem Accepted.line_means (h : Accepted settings registry source) {k : Nat} {text : List Char} {l : Line}
    (hl : (readSource source)[k]? = some (text, .ok l)) :
    ∃ listed, (Emission.run (environment settings registry source) (planned settings registry source)).2.lines[k]? =
        some listed ∧ listed.number = l.number ∧
      listed.address = cursorAddress? (secondCursor settings registry source k) ∧
      l.Means (Layout.run registry settings.maxDepth (parsed source)).1.symbols
        (UInt16.ofNat (secondCursor settings registry source k)) listed.bytes := by
  have hk : k < (readSource source).length := (List.getElem?_eq_some_iff.1 hl).1
  refine ⟨_, h.listing_line hl, rfl, rfl, ?_⟩
  have he := h.pass_errors (k + 1)
  have he' := h.run_errors (k + 1)
  rw [pass_take_succ hl] at he
  rw [run_take_succ hl] at he'
  cases hst : l.statement with
  | none => simp only [Line.Means, Emission.line_eq, hst]
  | some st =>
    simp only [Line.Means, hst]
    by_cases hequate : ∃ name e, st = .equate name e
    · -- an equate gives no bytes, and its equation holds
      obtain ⟨name, e, rfl⟩ := hequate
      rw [← cursors_agree h (Nat.le_of_lt hk)]
      obtain ⟨v, hname, hv⟩ := h.equation_holds hl (q := ⟨name, e, UInt16.ofNat _⟩) (by
        rw [Equation.ofLine, hst]
        exact List.mem_append_right _ List.mem_cons_self)
      simp only [Emission.line_eq, hst]
      exact .equate hname hv
    · exact statement_means h.failed he he' hst fun name e hne => hequate ⟨name, e, hne⟩

end Source

/-- In a source that assembles, every line is read, both passes start it at one place, and the listing shows
there the bytes that the line stands for under the finished symbol table. Every symbol in it has a value. -/
theorem bytes_mean_statements (source : String) (out : Output) (h : assemble source = .ok out) (k : Nat)
    (hk : k < (readSource source).length) :
    ∃ text l listed, (readSource source)[k]? = some (text, .ok l) ∧ out.listing.lines[k]? = some listed ∧
      listed.number = l.number ∧
      firstCursor {} .builtin source k = secondCursor {} .builtin source k ∧
      listed.address = cursorAddress? (secondCursor {} .builtin source k) ∧
      l.Means out.symbols (UInt16.ofNat (secondCursor {} .builtin source k)) listed.bytes ∧
      ∀ e ∈ l.expressions, e.Known out.symbols := by
  rw [assemble] at h
  obtain ⟨hacc, -, hsymbols, hlisting⟩ := accepted_of_ok h
  obtain ⟨text, l, hl⟩ := hacc.line_ok hk
  obtain ⟨listed, hlisted, hnumber, haddress, hmeans⟩ := hacc.line_means hl
  rw [hsymbols, hlisting]
  have hcursor := cursors_agree hacc (Nat.le_of_lt hk)
  exact ⟨text, l, listed, hl, hlisted, hnumber, hcursor, haddress, hmeans, fun e he => hmeans.known he⟩

/-- A word that needs an equate of a later line, under the table in which the equate is settled. -/
theorem bytes_mean_statements_late :
    let source := "ORG $10\nDW late,*\nLDX late\nlate = later+1\nlater = $0304"
    ∃ out, assemble source = .ok out ∧ ∃ text l listed, (readSource source)[1]? = some (text, .ok l) ∧
      out.listing.lines[1]? = some listed ∧ listed.bytes = [0x05, 0x03, 0x10, 0x00] ∧
      l.Means out.symbols 0x10 listed.bytes := by
  intro source
  have hok : assemble source = .ok (run {} .builtin source).output := toExcept_eq_ok (by decide +kernel)
  obtain ⟨text, l, listed, hl, hlisted, -, -, -, hmeans, -⟩ :=
    bytes_mean_statements source _ hok 1 (by decide +kernel)
  have hbytes : (run {} .builtin source).output.listing.lines[1]?.map (·.bytes) = some [0x05, 0x03, 0x10, 0x00] := by
    decide +kernel
  have hcursor : secondCursor {} .builtin source 1 = 0x10 := by decide +kernel
  rw [hlisted] at hbytes
  rw [hcursor] at hmeans
  exact ⟨_, hok, text, l, listed, hl, hlisted, Option.some.inj hbytes, hmeans⟩

end Assembly

end Mos6502
