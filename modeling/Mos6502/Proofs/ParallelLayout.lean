import Mathlib.Data.List.Forall2
import Mos6502.Proofs.Equates
import Mos6502.Proofs.Expansion

/-!
# Two first passes side by side

Two sources are assembled alike if their lines match: the same labels, and
statements whose expressions have the same values as soon as some symbols are
known. The lines may have other numbers, the macros have to answer alike, and
they may nest deeper in the second assembly. As long as the first pass over one
source reports no error, it does the same over the other and reports none either.

Main statements: `Layout.follow_matches` for a stretch of lines and
`Layout.Matches.finish` for what the pass does at its end.
-/
namespace Mos6502

/-- Two folds over lists that go together keep a relation, as long as the first one stays good. -/
theorem foldl_pair {α β γ δ : Type} (good : α → Prop) (R : α → β → Prop) {L : γ → δ → Prop} {f : α → γ → α}
    {g : β → δ → β} (before : ∀ {a x}, good (f a x) → good a)
    (step : ∀ {a b x y}, R a b → L x y → good (f a x) → R (f a x) (g b y)) {xs : List γ} {ys : List δ}
    (h : List.Forall₂ L xs ys) {a : α} {b : β} (hab : R a b) (hgood : good (xs.foldl f a)) :
    R (xs.foldl f a) (ys.foldl g b) := by
  have hback (xs : List γ) (a : α) (hgood : good (xs.foldl f a)) : good a := by
    induction xs generalizing a with
    | nil => exact hgood
    | cons x xs ih => exact before (ih _ hgood)
  induction h generalizing a b with
  | nil => exact hab
  | cons hxy _ ih => exact ih (step hab hxy (hback _ _ hgood)) hgood

theorem map_of_forall₂ {α β : Type} {R : α → β → Prop} {g : α → β} (hR : ∀ x y, R x y → g x = y) {xs : List α}
    {ys : List β} (h : List.Forall₂ R xs ys) : xs.map g = ys := by
  rw [← List.forall₂_eq_eq_eq, List.forall₂_map_left_iff]
  exact h.imp hR

theorem eq_of_forall₂ {α : Type} {R : α → α → Prop} (hR : ∀ x y, R x y → x = y) {xs ys : List α}
    (h : List.Forall₂ R xs ys) : xs = ys := by
  simpa using map_of_forall₂ (g := id) hR h

/-! ## Symbols -/

/-- The same symbol, defined at a line that goes with the line of the first. -/
structure Symbol.Matches (N : Nat → Nat → Prop) (y y' : Symbol) : Prop where
  name : y'.name = y.name
  address : y'.address = y.address
  line : N y.line y'.line

theorem Symbol.Matches.eq {y y' : Symbol} (h : y.Matches (· = ·) y') : y = y' := by
  obtain ⟨hname, haddress, hline⟩ := h
  cases y
  cases y'
  simp_all

namespace SymbolTable

def Matches (N : Nat → Nat → Prop) (t t' : SymbolTable) : Prop :=
  List.Forall₂ (Symbol.Matches N) t.symbols t'.symbols

theorem matches_self (t : SymbolTable) : t.Matches (· = ·) t :=
  List.forall₂_same.2 fun _ _ => ⟨rfl, rfl, rfl⟩

variable {N : Nat → Nat → Prop} {t t' : SymbolTable}

theorem Matches.eq (h : t.Matches (· = ·) t') : t = t' := by
  have hsymbols := eq_of_forall₂ (fun _ _ => Symbol.Matches.eq) h
  cases t
  cases t'
  simp_all

theorem Matches.find? (h : t.Matches N t') (name : String) :
    Option.Rel (Symbol.Matches N) (t.find? name) (t'.find? name) := by
  unfold SymbolTable.find?
  unfold Matches at h
  generalize t.symbols = ys at h
  generalize t'.symbols = ys' at h
  induction h with
  | nil => exact .none
  | @cons y y' ys ys' hy _ ih =>
    rw [List.find?_cons, List.find?_cons, hy.name]
    cases y.name == name with
    | true => exact .some hy
    | false => exact ih

theorem Matches.address? (h : t.Matches N t') (name : String) : t'.address? name = t.address? name := by
  have hfind := h.find? name
  unfold SymbolTable.address?
  generalize t.find? name = y at hfind
  generalize t'.find? name = y' at hfind
  cases hfind with
  | none => rfl
  | some hy => exact congrArg some hy.address

theorem place_matches {y y' : Symbol} (hy : y.Matches N y') {ys ys' : List Symbol}
    (h : List.Forall₂ (Symbol.Matches N) ys ys') :
    List.Forall₂ (Symbol.Matches N) (place y ys) (place y' ys') := by
  induction h with
  | nil => exact .cons hy .nil
  | cons hz hzs ih =>
    unfold place
    rw [hy.name, hz.name]
    split
    · exact .cons hy (.cons hz hzs)
    · exact .cons hz ih

theorem Matches.flip (h : t.Matches N t') : t'.Matches (flip N) t :=
  List.Forall₂.flip (h.imp fun _ _ hy => ⟨hy.name.symm, hy.address.symm, hy.line⟩)

/-- What one table takes up, the other takes up too. -/
theorem Matches.define (h : t.Matches N t') {y y' : Symbol} (hy : y.Matches N y') {u : SymbolTable}
    (hu : t.define y = .ok u) : ∃ u', t'.define y' = .ok u' ∧ u.Matches N u' := by
  have hfind := h.find? y.name
  rw [← hy.name] at hfind
  unfold SymbolTable.define at hu
  split at hu
  · rename_i old hold
    rw [← hy.name] at hold
    rw [hold] at hfind
    split at hu
    · rename_i haddress
      obtain rfl := Except.ok.inj hu
      refine ⟨t', ?_, h⟩
      unfold SymbolTable.define
      split
      · rename_i old' hold'
        rw [hold'] at hfind
        cases hfind with
        | some hmatch => exact if_pos (by rw [hmatch.address, haddress, hy.address])
      · rename_i hnone
        rw [hnone] at hfind
        cases hfind
    · cases hu
  · rename_i hnone
    rw [← hy.name] at hnone
    rw [hnone] at hfind
    obtain rfl := Except.ok.inj hu
    unfold SymbolTable.define
    split
    · rename_i old' hold'
      rw [hold'] at hfind
      cases hfind
    · exact ⟨_, rfl, place_matches hy h⟩

end SymbolTable

/-! ## Expressions and lines -/

theorem Expr.eval_congr {t t' : SymbolTable} (h : ∀ name, t'.address? name = t.address? name) (a : UInt16) (e : Expr) :
    e.eval t' a = e.eval t a := by
  induction e with
  | number n => rfl
  | here => rfl
  | symbol name => simp only [eval, h]
  | neg e ih | low e ih | high e ih => simp only [eval, ih]
  | add l r ihl ihr | sub l r ihl ihr => simp only [eval, ihl, ihr]

/-- The expressions look alike and have the same value wherever the known symbols have theirs. -/
structure Expr.Agrees (known : SymbolTable) (e e' : Expr) : Prop where
  isByteSelect : e'.isByteSelect = e.isByteSelect
  eval (t : SymbolTable) (a : UInt16) : known.Extends t → e'.eval t a = e.eval t a

theorem Expr.Agrees.refl {known : SymbolTable} (e : Expr) : e.Agrees known e :=
  ⟨rfl, fun _ _ _ => rfl⟩

theorem Expr.Agrees.symm {known : SymbolTable} {e e' : Expr} (h : e.Agrees known e') : e'.Agrees known e :=
  ⟨h.isByteSelect.symm, fun t a ht => (h.eval t a ht).symm⟩

section Related
variable (R : Expr → Expr → Prop) (N : Nat → Nat → Prop)

inductive DataItem.Related : DataItem → DataItem → Prop
  | value {e e' : Expr} : R e e' → Related (.value e) (.value e')
  | text (bytes : List UInt8) : Related (.text bytes) (.text bytes)

/-- The statements are alike but for their expressions, which are related one by one. Arguments of macros are
no expressions. -/
inductive Statement.Related : Statement → Statement → Prop
  | instruction (mnemonic : String) (shape : Shape) {operand operand' : Option Expr} :
    Option.Rel R operand operand' →
    Related (.instruction mnemonic shape operand) (.instruction mnemonic shape operand')
  | origin {e e' : Expr} : R e e' → Related (.origin e) (.origin e')
  | bytes {items items' : List DataItem} :
    List.Forall₂ (DataItem.Related R) items items' → Related (.bytes items) (.bytes items')
  | words {items items' : List Expr} : List.Forall₂ R items items' → Related (.words items) (.words items')
  | equate (name : String) {e e' : Expr} : R e e' → Related (.equate name e) (.equate name e')
  | invocation (name arguments : String) : Related (.invocation name arguments) (.invocation name arguments)

/-- The lines are alike but for their expressions, and their numbers go together. -/
structure Line.Related (l l' : Line) : Prop where
  number : N l.number l'.number
  label : l'.label = l.label
  statement : Option.Rel (Statement.Related R) l.statement l'.statement

/-- Both lines can be read and are related, or neither can be read. -/
inductive Line.ReadsRelated : Except LineError Line → Except LineError Line → Prop
  | ok {l l' : Line} : l.Related R N l' → ReadsRelated (.ok l) (.ok l')
  | error (e e' : LineError) : ReadsRelated (.error e) (.error e')

end Related

abbrev Line.Matches (known : SymbolTable) (N : Nat → Nat → Prop) : Line → Line → Prop :=
  Related (Expr.Agrees known) N

abbrev Line.ReadsMatch (known : SymbolTable) (N : Nat → Nat → Prop) :
    Except LineError Line → Except LineError Line → Prop :=
  ReadsRelated (Expr.Agrees known) N

section Related
variable {R : Expr → Expr → Prop} {N : Nat → Nat → Prop}

theorem Statement.Related.refl (hR : ∀ e, R e e) (st : Statement) : st.Related R st := by
  cases st with
  | instruction mnemonic shape operand =>
    refine .instruction mnemonic shape ?_
    cases operand with
    | none => exact .none
    | some e => exact .some (hR e)
  | origin e => exact .origin (hR e)
  | bytes items =>
    refine .bytes (List.forall₂_same.2 fun i _ => ?_)
    cases i with
    | value e => exact .value (hR e)
    | text bs => exact .text bs
  | words items => exact .words (List.forall₂_same.2 fun e _ => hR e)
  | equate name e => exact .equate name (hR e)
  | invocation name arguments => exact .invocation name arguments

theorem Line.related_self (hR : ∀ e, R e e) {l : Line} {n : Nat} (h : N l.number n) (column : Nat) :
    l.Related R N ⟨n, l.label, l.statement, column⟩ := by
  refine ⟨h, rfl, ?_⟩
  cases l.statement with
  | none => exact .none
  | some st => exact .some (.refl hR st)

theorem Line.readsRelated_self (hR : ∀ e, R e e) (x : Except LineError Line) : ReadsRelated R (· = ·) x x := by
  cases x with
  | ok l => exact .ok (related_self hR rfl l.column)
  | error e => exact .error e e

variable {R' : Expr → Expr → Prop} (hR : ∀ e e', R e e' → R' e' e)
include hR

theorem DataItem.Related.swap {i i' : DataItem} (h : i.Related R i') : i'.Related R' i := by
  cases h with
  | value he => exact .value (hR _ _ he)
  | text bs => exact .text bs

theorem Statement.Related.swap {st st' : Statement} (h : st.Related R st') : st'.Related R' st := by
  cases h with
  | instruction mnemonic shape he =>
    refine .instruction mnemonic shape ?_
    cases he with
    | none => exact .none
    | some he => exact .some (hR _ _ he)
  | origin he => exact .origin (hR _ _ he)
  | bytes hi => exact .bytes (hi.imp fun _ _ => DataItem.Related.swap hR).flip
  | words he => exact .words (he.imp hR).flip
  | equate name he => exact .equate name (hR _ _ he)
  | invocation name arguments => exact .invocation name arguments

theorem Line.ReadsRelated.swap {N' : Nat → Nat → Prop} (hN : ∀ n n', N n n' → N' n' n)
    {x x' : Except LineError Line} (h : ReadsRelated R N x x') : ReadsRelated R' N' x' x := by
  cases h with
  | error e e' => exact .error e' e
  | @ok l l' hl =>
    refine .ok ⟨hN _ _ hl.number, hl.label.symm, ?_⟩
    have hstatement := hl.statement
    generalize l.statement = st at hstatement
    generalize l'.statement = st' at hstatement
    cases hstatement with
    | none => exact .none
    | some hst => exact .some (hst.swap hR)

end Related

/-- A text is read alike for numbers that go together. -/
theorem Line.read_matches (known : SymbolTable) {N : Nat → Nat → Prop} (text : List Char) {n n' : Nat} (h : N n n') :
    ReadsMatch known N (Line.read text n) (Line.read text n') := by
  have hn := Line.read_down text 0 n
  have hn' := Line.read_down text 0 n'
  rw [Nat.zero_add] at hn hn'
  cases hread : Line.read text 0 with
  | error e =>
    rw [hn, hn', hread]
    exact .error _ _
  | ok l =>
    have hzero := Line.read_number hread
    rw [hn, hn', hread]
    refine .ok (Line.related_self .refl ?_ _)
    simpa [Line.down, hzero] using h

/-! ## Macros -/

namespace Macro

variable {N : Nat → Nat → Prop}

/-- What a handler sees is the same but for the lines at which symbols are defined. -/
structure Context.Matches (N : Nat → Nat → Prop) (c c' : Context) : Prop where
  origin : c'.origin = c.origin
  address : c'.address = c.address
  symbols : c.symbols.Matches N c'.symbols

/-- The macros of the second registry answer in a context as those of the first do in the one it goes with. -/
def Registry.Alike (N : Nat → Nat → Prop) (r r' : Registry) : Prop :=
  ∀ name arguments c c' pass, c.Matches N c' → r'.expand name arguments c' pass = r.expand name arguments c pass

theorem Context.Matches.eq {c c' : Context} (h : c.Matches (· = ·) c') : c = c' := by
  obtain ⟨horigin, haddress, hsymbols⟩ := h
  have hsame := hsymbols.eq
  cases c
  cases c'
  simp_all

theorem Context.Matches.flip {c c' : Context} (h : c.Matches N c') : c'.Matches (flip N) c :=
  ⟨h.origin.symm, h.address.symm, h.symbols.flip⟩

theorem Registry.Alike.flip {r r' : Registry} (h : r.Alike N r') : r'.Alike (flip N) r :=
  fun name arguments c c' pass hc => (h name arguments c' c pass hc.flip).symm

theorem Registry.alike_self (r : Registry) : r.Alike (· = ·) r := by
  intro name arguments c c' pass h
  rw [h.eq]

end Macro

/-! ## The first pass -/

namespace Assembly

variable {known : SymbolTable} {N : Nat → Nat → Prop}

/-- The same equate waits, with an expression that agrees. -/
structure Pending.Matches (known : SymbolTable) (N : Nat → Nat → Prop) (p p' : Pending) : Prop where
  name : p'.name = p.name
  value : p.value.Agrees known p'.value
  line : N p.line p'.line
  address : p'.address = p.address

namespace Layout

/-- The second state goes with the first, which has the known symbols, and has no errors. -/
structure Matches (known : SymbolTable) (N : Nat → Nat → Prop) (s s' : Layout) : Prop where
  cursor : s'.cursor = s.cursor
  origin : s'.origin = s.origin
  symbols : s.symbols.Matches N s'.symbols
  knows : known.Extends s.symbols
  pending : List.Forall₂ (Pending.Matches known N) s.pending.toList s'.pending.toList
  silent : s'.errors = #[]

theorem matches_self {s : Layout} (he : s.errors = #[]) : s.Matches s.symbols (· = ·) s := by
  refine ⟨rfl, rfl, s.symbols.matches_self, .refl _, ?_, he⟩
  exact List.forall₂_same.2 fun _ _ => ⟨rfl, .refl _, rfl, rfl⟩

section Matches
variable {s s' : Layout} (h : s.Matches known N s')
include h

theorem Matches.eval {e e' : Expr} (he : e.Agrees known e') (a : UInt16) :
    e'.eval s'.symbols a = e.eval s.symbols a :=
  (Expr.eval_congr h.symbols.address? a e').trans (he.eval s.symbols a h.knows)

theorem Matches.sameAddress : s'.address = s.address := by
  rw [address, address, h.cursor]

theorem Matches.context : s.context.Matches N s'.context :=
  ⟨h.origin, h.sameAddress, h.symbols⟩

theorem Matches.advance (size : Nat) : (s.advance size).Matches known N (s'.advance size) :=
  { h with cursor := congrArg (· + size) h.cursor }

variable {line line' column : Nat} (column' : Nat) (hline : N line line')
include hline

theorem Matches.define {name : String} {a : UInt16} (he : (s.define name a line column).errors = #[]) :
    (s.define name a line column).Matches known N (s'.define name a line' column') := by
  cases hd : s.symbols.define ⟨name, a, line⟩ with
  | error old => simp [Layout.define, hd, report] at he
  | ok symbols =>
    have hsymbol : Symbol.Matches N ⟨name, a, line⟩ ⟨name, a, line'⟩ := ⟨rfl, rfl, hline⟩
    obtain ⟨symbols', hd', hsymbols⟩ := h.symbols.define hsymbol hd
    simp only [Layout.define, hd, hd']
    exact { h with symbols := hsymbols, knows := h.knows.trans (SymbolTable.define_extends hd) }

theorem Matches.assign {name : String} {v : Int} (he : (s.assign name v line column).errors = #[]) :
    (s.assign name v line column).Matches known N (s'.assign name v line' column') := by
  unfold Layout.assign at he ⊢
  split
  · rename_i a ha
    simp only [ha] at he
    exact h.define column' hline he
  · rename_i ha
    simp [ha, report] at he

end Matches

section Line
variable {s s' : Layout} (h : s.Matches known N s') {l l' : Line}
include h

theorem Matches.setOrigin {e e' : Expr} (hagrees : e.Agrees known e') (he : (s.setOrigin e l).errors = #[]) :
    (s.setOrigin e l).Matches known N (s'.setOrigin e' l') := by
  unfold Layout.setOrigin at he ⊢
  rw [h.sameAddress, h.eval hagrees]
  split
  · rename_i hv
    simp [hv, report] at he
  · rename_i v hv
    split
    · exact { h with cursor := rfl, origin := rfl }
    · rename_i ha
      simp [hv, ha, report] at he

theorem Matches.operandValue {operand operand' : Option Expr}
    (hagrees : Option.Rel (Expr.Agrees known) operand operand') :
    s'.operandValue operand' = s.operandValue operand := by
  cases hagrees with
  | none => rfl
  | some he => simp only [Layout.operandValue, h.sameAddress, h.eval he, he.isByteSelect]

theorem Matches.instruction {mnemonic : String} {shape : Shape} {operand operand' : Option Expr}
    (hagrees : Option.Rel (Expr.Agrees known) operand operand')
    (he : (s.instruction mnemonic shape operand l).1.errors = #[]) :
    (s.instruction mnemonic shape operand l).1.Matches known N (s'.instruction mnemonic shape operand' l').1 ∧
      (s'.instruction mnemonic shape operand' l').2 = (s.instruction mnemonic shape operand l).2 := by
  unfold Layout.instruction at he ⊢
  rw [h.operandValue hagrees]
  dsimp only at he ⊢
  split
  · exact ⟨h.advance _, rfl⟩
  · rename_i hselect
    simp [hselect, report] at he

variable (hl : l.Matches known N l')
include hl

theorem Matches.labelled (he : (s.labelled l).errors = #[]) : (s.labelled l).Matches known N (s'.labelled l') := by
  unfold Layout.labelled at he ⊢
  rw [hl.label]
  split
  · rename_i name hname
    simp only [hname] at he
    unfold Layout.label at he ⊢
    rw [h.cursor]
    split
    · rename_i a ha
      simp only [ha] at he
      exact h.define 0 hl.number he
    · rename_i ha
      simp [ha, report] at he
  · exact h

theorem Matches.equate {name : String} {e e' : Expr} (hagrees : e.Agrees known e')
    (he : (s.equate name e l).errors = #[]) : (s.equate name e l).Matches known N (s'.equate name e' l') := by
  unfold Layout.equate at he ⊢
  rw [h.sameAddress, h.eval hagrees]
  split
  · rename_i v hv
    simp only [hv] at he
    exact h.assign _ hl.number he
  · refine { h with pending := ?_ }
    simp only [Array.toList_push]
    exact List.rel_append h.pending (.cons ⟨rfl, hagrees, hl.number, rfl⟩ .nil)

end Line

theorem dataSize_agrees {items items' : List DataItem}
    (h : List.Forall₂ (DataItem.Related (Expr.Agrees known)) items items') :
    dataSize items' = dataSize items := by
  induction h with
  | nil => rfl
  | cons hi _ ih =>
    rw [dataSize, dataSize, ih]
    cases hi <;> rfl

theorem Steps.follow {R : Layout → Layout → Prop} (h : Steps R) (registry : Macro.Registry) (limit : Nat) (s : Layout)
    (ls : List (Except LineError Line)) : R s (s.follow registry limit ls).1 := by
  induction ls generalizing s with
  | nil => exact h.refl s
  | cons l ls ih => exact h.trans (h.sourceLine registry limit s l) (ih _)

section Registry
variable {registry registry' : Macro.Registry} (hregistry : registry.Alike N registry') (limit limit' : Nat)
include hregistry

/-- An expansion, if its lines one level deeper do the same. -/
theorem Matches.expansion {levels levels' : Nat} (hlevels : levels ≤ levels')
    (ih : ∀ m < levels, ∀ m' ≥ m, ∀ {s s' l l'}, s.Matches known N s' → l.Matches known N l' →
      (line registry limit m s l).1.errors = #[] →
      (line registry limit m s l).1.Matches known N (line registry' limit' m' s' l').1 ∧
        (line registry' limit' m' s' l').2 = (line registry limit m s l).2)
    {s s' : Layout} (h : s.Matches known N s') {l l' : Line} (hl : N l.number l'.number) (name arguments : String)
    (he : (expansion registry limit levels s l name arguments).1.errors = #[]) :
    (expansion registry limit levels s l name arguments).1.Matches known N
        (expansion registry' limit' levels' s' l' name arguments).1 ∧
      (expansion registry' limit' levels' s' l' name arguments).2 =
        (expansion registry limit levels s l name arguments).2 := by
  have hexpand := hregistry name arguments s.context s'.context .first h.context
  cases hx : registry.expand name arguments s.context .first with
  | error e => simp [Layout.expansion, hx, report] at he
  | ok r =>
    rw [hx] at hexpand
    cases r with
    | nothing =>
      simp only [Layout.expansion, hx, hexpand]
      exact ⟨h, trivial⟩
    | bytes bs =>
      simp only [Layout.expansion, hx, hexpand]
      exact ⟨h.advance _, trivial⟩
    | source text =>
      cases levels with
      | zero => simp [Layout.expansion, hx, report] at he
      | succ levels =>
        obtain ⟨levels', rfl⟩ : ∃ m, levels' = m + 1 := ⟨levels' - 1, by omega⟩
        rw [expansion_source _ _ _ _ _ hx] at he ⊢
        rw [expansion_source _ _ _ _ _ hexpand]
        unfold Layout.lines at he ⊢
        refine foldl_pair (fun r : Layout × List Plan => r.1.errors = #[])
          (fun r r' : Layout × List Plan => r.1.Matches known N r'.1 ∧ r'.2 = r.2) (fun {r text} he => ?_)
          (fun {r r' text text'} hr htext he => ?_) (List.forall₂_eq_eq_eq ▸ rfl) ⟨h, rfl⟩ he
        · have hx : r.1.Extends (r.1.textLine registry limit levels l name text).1 := by
            unfold textLine
            split
            · exact line_extends _ _ _ _ _
            · exact report_extends _ _ _ _
          exact hx.noErrors he
        · obtain ⟨hstate, hplans⟩ := hr
          obtain rfl := htext
          have hread := Line.read_matches known text hl
          unfold textLine at he ⊢
          generalize Line.read text l.number = x at hread he
          generalize Line.read text l'.number = x' at hread
          cases hread with
          | ok hinner =>
            obtain ⟨hnext, hplan⟩ := ih levels (Nat.lt_succ_self _) levels' (by omega) hstate hinner he
            exact ⟨hnext, by rw [hplan, hplans]⟩
          | error e e' => simp [report] at he

/-- A line that the first assembly takes without an error does the same in the second, and has the same plan. -/
theorem line_matches {levels levels' : Nat} (hlevels : levels ≤ levels') {s s' : Layout} (h : s.Matches known N s')
    {l l' : Line} (hl : l.Matches known N l') (he : (line registry limit levels s l).1.errors = #[]) :
    (line registry limit levels s l).1.Matches known N (line registry' limit' levels' s' l').1 ∧
      (line registry' limit' levels' s' l').2 = (line registry limit levels s l).2 := by
  -- the lines of an expansion are laid out one level deeper
  induction levels using Nat.strongRecOn generalizing levels' s s' l l' with
  | ind levels ih =>
    have hlabel := h.labelled hl ((labelled_extends registry limit levels s l).noErrors he)
    have hstatement := hl.statement
    rw [line_eq] at he ⊢
    rw [line_eq]
    generalize s.labelled l = s at hlabel he
    generalize s'.labelled l' = s' at hlabel
    dsimp only at he ⊢
    generalize hst : l.statement = st at hstatement he
    generalize hst' : l'.statement = st' at hstatement
    cases hstatement with
    | none => exact ⟨hlabel, rfl⟩
    | some hagrees =>
      cases hagrees with
      | instruction mnemonic shape hoperand => exact hlabel.instruction hoperand he
      | origin hexpr => exact ⟨hlabel.setOrigin hexpr he, rfl⟩
      | bytes hitems =>
        dsimp only
        rw [dataSize_agrees hitems]
        exact ⟨hlabel.advance _, rfl⟩
      | words hitems =>
        dsimp only
        rw [hitems.length_eq]
        exact ⟨hlabel.advance _, rfl⟩
      | equate name hexpr => exact ⟨hlabel.equate hl hexpr he, rfl⟩
      | invocation name arguments =>
        have hexpansion := Matches.expansion hregistry limit limit' hlevels
          (fun m hm m' hm' {s s' l l'} hs hl he => ih m hm hm' hs hl he) hlabel hl.number name arguments he
        obtain ⟨hstate, hplans⟩ := hexpansion
        exact ⟨hstate, by dsimp only; rw [hstate.cursor, hlabel.cursor, hplans]⟩

/-- What holds of one line holds of a stretch of lines. -/
theorem follow_matches (hlimit : limit ≤ limit') {ls ls' : List (Except LineError Line)}
    (hls : List.Forall₂ (Line.ReadsMatch known N) ls ls') {s s' : Layout} (h : s.Matches known N s')
    (he : (s.follow registry limit ls).1.errors = #[]) :
    (s.follow registry limit ls).1.Matches known N (s'.follow registry' limit' ls').1 ∧
      (s'.follow registry' limit' ls').2 = (s.follow registry limit ls).2 := by
  induction hls generalizing s s' with
  | nil => exact ⟨h, rfl⟩
  | @cons x x' ls ls' hx _ ih =>
    have hfirst : (s.sourceLine registry limit x).1.errors = #[] :=
      (steps_extends.follow registry limit _ ls).noErrors he
    cases hx with
    | error e e' => simp [sourceLine, report] at hfirst
    | ok hl =>
      obtain ⟨hstate, hplan⟩ := line_matches hregistry limit limit' hlimit h hl hfirst
      obtain ⟨hrest, hplans⟩ := ih hstate he
      exact ⟨hrest, congrArg₂ List.cons hplan hplans⟩

end Registry

/-! ## Waiting equates -/

theorem Matches.attempts {ps ps' : List Pending} (hps : List.Forall₂ (Pending.Matches known N) ps ps') {s s' : Layout}
    (h : s.Matches known N s') (he : (ps.foldl attempt s).errors = #[]) :
    (ps.foldl attempt s).Matches known N (ps'.foldl attempt s') := by
  refine foldl_pair (·.errors = #[]) (Matches known N) (fun {s p} he => ?_) (fun {s s' p p'} h hp he => ?_) hps h he
  · exact (tried_attempt s p).grows.noErrors he
  · unfold attempt at he ⊢
    rw [hp.name, hp.address, h.eval hp.value]
    split
    · rename_i v hv
      simp only [hv] at he
      exact h.assign _ hp.line he
    · refine { h with pending := ?_ }
      simp only [Array.toList_push]
      exact List.rel_append h.pending (.cons hp .nil)

theorem Matches.retry {s s' : Layout} (h : s.Matches known N s') (he : s.retry.errors = #[]) :
    s.retry.Matches known N s'.retry := by
  rw [retry_eq] at he ⊢
  rw [retry_eq]
  exact Matches.attempts h.pending { h with pending := .nil } he

theorem Matches.size {s s' : Layout} (h : s.Matches known N s') : s'.pending.size = s.pending.size := by
  simpa using h.pending.length_eq.symm

theorem settle_eq (s : Layout) :
    s.settle = if s.retry.pending.size < s.pending.size then s.retry.settle else s.retry := by
  rw [settle]

theorem Matches.settle {s s' : Layout} (h : s.Matches known N s') (he : s.settle.errors = #[]) :
    s.settle.Matches known N s'.settle := by
  revert s'
  fun_induction Layout.settle s with
  | case1 s next hlt ih =>
    intro s' h
    have hnext := h.retry ((settle_extends next).noErrors he)
    rw [settle_eq s', if_pos (by rw [hnext.size, h.size]; exact hlt)]
    exact ih he hnext
  | case2 s next hlt =>
    intro s' h
    have hnext := h.retry he
    rw [settle_eq s', if_neg (by rw [hnext.size, h.size]; exact hlt)]
    exact hnext

theorem Matches.reportPending {s s' : Layout} (h : s.Matches known N s') (he : s.reportPending.errors = #[]) :
    s.reportPending.Matches known N s'.reportPending := by
  rw [reportPending_eq] at he ⊢
  rw [reportPending_eq]
  refine foldl_pair (·.errors = #[]) (Matches known N) (fun {s p} he => ?_) (fun {s s' p p'} h hp he => ?_)
    h.pending h he
  · exact (reportStuck_extends s p).noErrors he
  · unfold reportStuck at he ⊢
    rw [hp.address, h.eval hp.value]
    split
    · exact h
    · rename_i hv
      simp [hv, report] at he

/-- What the first pass does at its end. -/
theorem Matches.finish {s s' : Layout} (h : s.Matches known N s') (he : s.settle.reportPending.errors = #[]) :
    s.settle.reportPending.Matches known N s'.settle.reportPending :=
  (h.settle ((reportPending_extends _).noErrors he)).reportPending he

end Layout

end Assembly

end Mos6502
