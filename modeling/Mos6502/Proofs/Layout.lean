import Mos6502.Assembly.Layout
import Mos6502.Proofs.Numbering

/-!
# The first pass only adds

A name keeps the value it was given, and an error that was reported stays. So
what the first pass knew of the symbols at a line still holds of the finished
table, and a pass that ends without errors had none at any line.

Main statement: laying out a line extends the state (`Layout.line_extends`).
-/
namespace Mos6502

/-! ## Symbols -/

namespace SymbolTable

/-- Every name of the first table has the same value in the second. -/
def Extends (t u : SymbolTable) : Prop :=
  ∀ name a, t.address? name = some a → u.address? name = some a

theorem Extends.refl (t : SymbolTable) : t.Extends t :=
  fun _ _ h => h

theorem Extends.trans {t u v : SymbolTable} (h : t.Extends u) (k : u.Extends v) : t.Extends v :=
  fun name a ha => k name a (h name a ha)

theorem find?_place {s : Symbol} {ts : List Symbol} (hs : ∀ t ∈ ts, t.name ≠ s.name) (name : String) :
    (place s ts).find? (·.name == name) =
      if name = s.name then some s else ts.find? (·.name == name) := by
  induction ts with
  | nil => grind [place]
  | cons t ts ih =>
    have ht := hs t (by simp)
    have ih := ih fun u hu => hs u (by simp [hu])
    grind [place]

/-- A name gets the value it is defined with, and every other name keeps its own. -/
theorem address?_define {t u : SymbolTable} {s : Symbol} (h : t.define s = .ok u) (name : String) :
    u.address? name = if name = s.name then some s.address else t.address? name := by
  unfold define at h
  split at h
  · rename_i old hold
    -- a name that is defined again must have the same value, and then the table stays as it is
    split at h
    · rename_i ha
      cases h
      split
      · rename_i hn
        rw [hn, address?, hold, Option.map_some, ha]
      · rfl
    · cases h
  · rename_i hnone
    cases h
    have hs : ∀ v ∈ t.symbols, v.name ≠ s.name := by
      intro v hv hn
      have := List.find?_eq_none.1 hnone v hv
      simp [hn] at this
    simp only [address?, find?, find?_place hs name]
    split <;> rfl

theorem define_extends {t u : SymbolTable} {s : Symbol} (h : t.define s = .ok u) : t.Extends u := by
  intro name a ha
  rw [address?_define h]
  split
  · rename_i hn
    subst hn
    unfold define at h
    split at h
    · rename_i old hold
      rw [address?, hold] at ha
      split at h <;> simp_all
    · rename_i hnone
      rw [address?, hnone] at ha
      cases ha
  · exact ha

/-- A name without a value can be defined. -/
theorem define_of_none {t : SymbolTable} {s : Symbol} (h : t.address? s.name = none) :
    ∃ u, t.define s = .ok u := by
  unfold define
  split
  · rename_i old hold
    rw [address?, hold] at h
    cases h
  · exact ⟨_, rfl⟩

/-- A name that has its value in a greater table can be defined with it below that table. -/
theorem define_below {t u : SymbolTable} (hx : t.Extends u) {s : Symbol} (hs : u.address? s.name = some s.address) :
    ∃ t', t.define s = .ok t' ∧ t'.Extends u := by
  obtain ⟨t', ht'⟩ : ∃ t', t.define s = .ok t' := by
    cases ha : t.address? s.name with
    | none => exact define_of_none ha
    | some a =>
      have hsame : a = s.address := Option.some.inj ((hx _ _ ha).symm.trans hs)
      obtain ⟨old, hold, hvalue⟩ := Option.map_eq_some_iff.1 ha
      refine ⟨t, ?_⟩
      unfold define
      split
      · rename_i old' hold'
        obtain rfl := Option.some.inj (hold.symm.trans hold')
        exact if_pos (hvalue.trans hsame)
      · rename_i hnone
        cases hold.symm.trans hnone
  refine ⟨t', ht', fun name a ha => ?_⟩
  rw [address?_define ht'] at ha
  split at ha
  · rename_i hname
    rw [hname, hs]
    exact ha
  · exact hx _ _ ha

end SymbolTable

theorem Expr.eval_extends {t u : SymbolTable} (h : t.Extends u) {a : UInt16} {e : Expr} {v : Int}
    (he : e.eval t a = .ok v) : e.eval u a = .ok v := by
  induction e generalizing v with
  | number n => exact he
  | here => exact he
  | symbol name =>
    simp only [eval] at he ⊢
    split at he
    · rename_i w hw
      rw [h name w hw]
      exact he
    · cases he
  | neg e ih | low e ih | high e ih =>
    obtain ⟨w, hw, hv⟩ := bind_eq_ok.1 he
    exact bind_eq_ok.2 ⟨w, ih hw, hv⟩
  | add l r ihl ihr | sub l r ihl ihr =>
    obtain ⟨w, hw, hv⟩ := bind_eq_ok.1 he
    obtain ⟨x, hx, hv⟩ := bind_eq_ok.1 hv
    exact bind_eq_ok.2 ⟨w, ihl hw, bind_eq_ok.2 ⟨x, ihr hx, hv⟩⟩

/-! ## Steps of the pass -/

namespace Assembly.Layout

/-- The state after the label of a line. -/
def labelled (s : Layout) (l : Line) : Layout :=
  match l.label with
  | some name => s.label name l.number
  | none => s

/-- The state after a macro's expansion, and the plans of its lines, last first. -/
def expansion (registry : Macro.Registry) (limit levels : Nat) (s : Layout) (l : Line) (name arguments : String) :
    Layout × List Plan :=
  match registry.expand name arguments s.context .first with
  | .error e => (s.report l.number l.column (.expansion e), [])
  | .ok .nothing => (s, [])
  | .ok (.bytes bs) => (s.advance bs.length, [])
  | .ok (.source text) =>
    match levels with
    | 0 => (s.report l.number l.column (.tooDeep name limit), [])
    | levels + 1 =>
      (Lines.split text.toList).foldl (fun (s, plans) text =>
        match Line.read text l.number with
        | .ok inner =>
          let (s, plan) := line registry limit levels s inner
          (s, plan :: plans)
        | .error e =>
          (s.report l.number l.column (.unreadableExpansion name e.cause), .nothing :: plans)) (s, [])

/-- A line is its label and then its statement. -/
theorem line_eq (registry : Macro.Registry) (limit levels : Nat) (s : Layout) (l : Line) :
    line registry limit levels s l =
      let s := s.labelled l
      match l.statement with
      | none => (s, .nothing)
      | some (.origin e) => (s.setOrigin e l, .nothing)
      | some (.equate name e) => (s.equate name e l, .nothing)
      | some (.bytes items) => (s.advance (dataSize items), .nothing)
      | some (.words items) => (s.advance (2 * items.length), .nothing)
      | some (.instruction mnemonic shape operand) => s.instruction mnemonic shape operand l
      | some (.invocation name arguments) =>
        let (after, plans) := expansion registry limit levels s l name arguments
        (after, .expansion (distance s.cursor after.cursor) plans.reverse) := by
  rw [line]
  rfl

/-- A relation between two states of the pass that its elementary steps give. -/
structure Steps (R : Layout → Layout → Prop) : Prop where
  refl (s : Layout) : R s s
  trans {s t u : Layout} : R s t → R t u → R s u
  report (s : Layout) (line column : Nat) (cause : Cause) : R s (s.report line column cause)
  advance (s : Layout) (size : Nat) : R s (s.advance size)
  label (s : Layout) (name : String) (line : Nat) : R s (s.label name line)
  equate (s : Layout) (name : String) (value : Expr) (line : Line) : R s (s.equate name value line)
  setOrigin (s : Layout) (value : Expr) (line : Line) : R s (s.setOrigin value line)

/-- The same for the elementary steps that are made for the line with the number `n`. -/
structure StepsAt (n : Nat) (R : Layout → Layout → Prop) : Prop where
  refl (s : Layout) : R s s
  trans {s t u : Layout} : R s t → R t u → R s u
  report (s : Layout) (column : Nat) (cause : Cause) : R s (s.report n column cause)
  advance (s : Layout) (size : Nat) : R s (s.advance size)
  label (s : Layout) (name : String) : R s (s.label name n)
  equate (s : Layout) (name : String) (value : Expr) (line : Line) : line.number = n → R s (s.equate name value line)
  setOrigin (s : Layout) (value : Expr) (line : Line) : line.number = n → R s (s.setOrigin value line)

/-- The same for the elementary steps that are made for the lines of a class, which holds the lines of
their expansions too. -/
structure StepsFor (P : Line → Prop) (R : Layout → Layout → Prop) : Prop where
  inner {l inner : Line} {text : List Char} : P l → Line.read text l.number = .ok inner → P inner
  refl (s : Layout) : R s s
  trans {s t u : Layout} : R s t → R t u → R s u
  report (s : Layout) (column : Nat) (cause : Cause) {l : Line} : P l → R s (s.report l.number column cause)
  advance (s : Layout) (size : Nat) : R s (s.advance size)
  label (s : Layout) {name : String} {l : Line} : P l → l.label = some name → R s (s.label name l.number)
  equate (s : Layout) {name : String} {value : Expr} {l : Line} : P l → l.statement = some (.equate name value) →
    R s (s.equate name value l)
  setOrigin (s : Layout) (value : Expr) {l : Line} : P l → R s (s.setOrigin value l)

theorem Steps.onLine {R : Layout → Layout → Prop} (h : Steps R) (n : Nat) : StepsAt n R where
  refl := h.refl
  trans := h.trans
  report s := h.report s n
  advance := h.advance
  label s name := h.label s name n
  equate s name value line _ := h.equate s name value line
  setOrigin s value line _ := h.setOrigin s value line

/-- The lines of an expansion have the number of the line that it stands in. -/
theorem StepsAt.stepsFor {n : Nat} {R : Layout → Layout → Prop} (h : StepsAt n R) : StepsFor (·.number = n) R where
  inner hl hread := (Line.read_number hread).trans hl
  refl := h.refl
  trans := h.trans
  report s column cause _ hl := hl ▸ h.report s column cause
  advance := h.advance
  label s name _ hl _ := hl ▸ h.label s name
  equate s name value l hl _ := h.equate s name value l hl
  setOrigin s value l hl := h.setOrigin s value l hl

section StepsFor
variable {P : Line → Prop} {R : Layout → Layout → Prop} (h : StepsFor P R)
include h

theorem StepsFor.instruction (s : Layout) (mnemonic : String) (shape : Shape) (operand : Option Expr) {l : Line}
    (hl : P l) : R s (s.instruction mnemonic shape operand l).1 := by
  unfold Layout.instruction
  dsimp only
  split
  · exact h.advance _ _
  · exact h.report _ _ _ hl

theorem StepsFor.labelled (s : Layout) {l : Line} (hl : P l) : R s (s.labelled l) := by
  unfold Layout.labelled
  split
  · rename_i hlabel
    exact h.label _ hl hlabel
  · exact h.refl _

/-- What the elementary steps give, a line gives after its label, whatever its macros expand to. -/
theorem StepsFor.statement (registry : Macro.Registry) (limit levels : Nat) (s : Layout) {l : Line} (hl : P l) :
    R (s.labelled l) (line registry limit levels s l).1 := by
  -- the lines of an expansion are laid out one level deeper
  induction levels using Nat.strongRecOn generalizing s l with
  | ind levels ih =>
    rw [line_eq]
    dsimp only
    split
    · exact h.refl _
    · exact h.setOrigin _ _ hl
    · rename_i hstatement
      exact h.equate _ hl hstatement
    · exact h.advance _ _
    · exact h.advance _ _
    · exact h.instruction _ _ _ _ hl
    · dsimp only [expansion]
      split
      · exact h.report _ _ _ hl
      · exact h.refl _
      · exact h.advance _ _
      · split
        · exact h.report _ _ _ hl
        · rename_i levels
          refine foldl_rel h.refl h.trans Prod.fst _ (fun p text => ?_) _ (s.labelled l, [])
          split
          · rename_i inner hread
            have hinner := h.inner hl hread
            exact h.trans (h.labelled _ hinner) (ih levels (Nat.lt_succ_self _) _ hinner)
          · exact h.report _ _ _ hl

theorem StepsFor.line (registry : Macro.Registry) (limit levels : Nat) (s : Layout) {l : Line} (hl : P l) :
    R s (line registry limit levels s l).1 :=
  h.trans (h.labelled s hl) (h.statement registry limit levels s hl)

end StepsFor

theorem StepsAt.line {n : Nat} {R : Layout → Layout → Prop} (h : StepsAt n R) (registry : Macro.Registry)
    (limit levels : Nat) (s : Layout) {l : Line} (hl : l.number = n) : R s (line registry limit levels s l).1 :=
  h.stepsFor.line registry limit levels s hl

theorem Steps.statement {R : Layout → Layout → Prop} (h : Steps R) (registry : Macro.Registry) (limit levels : Nat)
    (s : Layout) (l : Line) : R (s.labelled l) (line registry limit levels s l).1 :=
  (h.onLine l.number).stepsFor.statement registry limit levels s rfl

theorem Steps.line {R : Layout → Layout → Prop} (h : Steps R) (registry : Macro.Registry) (limit levels : Nat)
    (s : Layout) (l : Line) : R s (line registry limit levels s l).1 :=
  (h.onLine l.number).line registry limit levels s rfl

/-! ## States only grow -/

/-- Symbols keep their values and errors stay. -/
structure Extends (s s' : Layout) : Prop where
  symbols : s.symbols.Extends s'.symbols
  errors : s.errors.toList <+: s'.errors.toList

theorem Extends.refl (s : Layout) : s.Extends s :=
  ⟨.refl _, List.prefix_rfl⟩

theorem Extends.trans {s t u : Layout} (h : s.Extends t) (k : t.Extends u) : s.Extends u :=
  ⟨h.symbols.trans k.symbols, h.errors.trans k.errors⟩

/-- If there is no error afterwards there was none before. -/
theorem Extends.noErrors {s s' : Layout} (h : s.Extends s') (he : s'.errors = #[]) : s.errors = #[] := by
  have := h.errors
  rw [he] at this
  simpa using this

theorem report_extends (s : Layout) (line column : Nat) (cause : Cause) : s.Extends (s.report line column cause) :=
  ⟨.refl _, by simp [report]⟩

theorem define_extends (s : Layout) (name : String) (address : UInt16) (line column : Nat) :
    s.Extends (s.define name address line column) := by
  unfold define
  split
  · rename_i symbols h
    exact ⟨SymbolTable.define_extends h, List.prefix_rfl⟩
  · exact report_extends _ _ _ _

theorem assign_extends (s : Layout) (name : String) (value : Int) (line column : Nat) :
    s.Extends (s.assign name value line column) := by
  unfold assign
  split
  · exact define_extends _ _ _ _ _
  · exact report_extends _ _ _ _

theorem steps_extends : Steps Extends where
  refl := .refl
  trans := .trans
  report := report_extends
  advance s size := ⟨.refl _, List.prefix_rfl⟩
  label s name line := by
    unfold Layout.label
    split
    · exact define_extends _ _ _ _ _
    · exact report_extends _ _ _ _
  equate s name value line := by
    unfold Layout.equate
    split
    · exact assign_extends _ _ _ _ _
    · exact ⟨.refl _, List.prefix_rfl⟩
  setOrigin s value line := by
    unfold Layout.setOrigin
    split
    · exact report_extends _ _ _ _
    · split
      · exact ⟨.refl _, List.prefix_rfl⟩
      · exact report_extends _ _ _ _

theorem labelled_extends (registry : Macro.Registry) (limit levels : Nat) (s : Layout) (l : Line) :
    (s.labelled l).Extends (line registry limit levels s l).1 :=
  steps_extends.statement registry limit levels s l

theorem line_extends (registry : Macro.Registry) (limit levels : Nat) (s : Layout) (l : Line) :
    s.Extends (line registry limit levels s l).1 :=
  steps_extends.line registry limit levels s l

/-! ## Waiting equates -/

theorem retry_extends (s : Layout) : s.Extends s.retry := by
  have hempty : s.Extends { s with pending := #[] } := ⟨.refl _, List.prefix_rfl⟩
  refine hempty.trans ?_
  rw [retry, ← Array.foldl_toList]
  refine foldl_rel Extends.refl Extends.trans id _ (fun t p => ?_) _ _
  split
  · exact assign_extends _ _ _ _ _
  · exact ⟨.refl _, List.prefix_rfl⟩

theorem settle_extends (s : Layout) : s.Extends s.settle := by
  fun_induction settle s with
  | case1 s next _ ih => exact (retry_extends s).trans ih
  | case2 s next _ => exact retry_extends s

theorem reportPending_extends (s : Layout) : s.Extends s.reportPending := by
  rw [reportPending, ← Array.foldl_toList]
  refine foldl_rel Extends.refl Extends.trans id _ (fun t p => ?_) _ _
  split
  · exact .refl _
  · exact report_extends _ _ _ _

/-! ## The pass line by line -/

variable (registry : Macro.Registry) (limit : Nat)

/-- What the pass does with one line of the source. -/
def sourceLine (s : Layout) : Except LineError Line → Layout × Plan
  | .ok l => s.line registry limit limit l
  | .error e => (s.report e.line e.column (.unreadable e.cause), .nothing)

theorem Steps.sourceLine {R : Layout → Layout → Prop} (h : Steps R) (s : Layout) (l : Except LineError Line) :
    R s (s.sourceLine registry limit l).1 := by
  cases l with
  | ok l => exact h.line _ _ _ _ _
  | error e => exact h.report _ _ _ _

theorem pass_concat (lines : List (Except LineError Line)) (l : Except LineError Line) :
    pass registry limit (lines ++ [l]) =
      (((pass registry limit lines).1.sourceLine registry limit l).1,
        ((pass registry limit lines).1.sourceLine registry limit l).2 :: (pass registry limit lines).2) := by
  simp only [pass, List.foldl_append, List.foldl_cons, List.foldl_nil]
  cases l <;> rfl

/-- What the elementary steps give, every stretch of lines gives. -/
theorem Steps.pass {R : Layout → Layout → Prop} (h : Steps R) (lines more : List (Except LineError Line)) :
    R (pass registry limit lines).1 (Layout.pass registry limit (lines ++ more)).1 := by
  induction more using List.reverseRecOn with
  | nil => rw [List.append_nil]; exact h.refl _
  | append_singleton more l ih =>
    rw [← List.append_assoc, pass_concat]
    exact h.trans ih (h.sourceLine _ _ _ _)

theorem pass_extends (lines more : List (Except LineError Line)) :
    (pass registry limit lines).1.Extends (pass registry limit (lines ++ more)).1 :=
  steps_extends.pass registry limit lines more

/-- The plan of a line is the one made for it after the lines before it. -/
theorem getElem?_plans {lines : List (Except LineError Line)} {k : Nat} {l : Except LineError Line}
    (h : lines[k]? = some l) :
    (pass registry limit lines).2.reverse[k]? =
      some ((pass registry limit (lines.take k)).1.sourceLine registry limit l).2 :=
  getElem?_gather rfl (pass_concat registry limit) h

/-- The layout after more lines, and their plans in order. -/
def follow (s : Layout) : List (Except LineError Line) → Layout × List Plan
  | [] => (s, [])
  | l :: ls =>
    let (s, plan) := s.sourceLine registry limit l
    let (s, plans) := s.follow ls
    (s, plan :: plans)

theorem follow_append (s : Layout) (ls more : List (Except LineError Line)) :
    s.follow registry limit (ls ++ more) =
      let (t, plans) := s.follow registry limit ls
      let (t, rest) := t.follow registry limit more
      (t, plans ++ rest) := by
  induction ls generalizing s with
  | nil => rfl
  | cons l ls ih => simp only [List.cons_append, follow, ih]

theorem pass_eq_follow (lines : List (Except LineError Line)) :
    (pass registry limit lines).1 = (start.follow registry limit lines).1 ∧
      (pass registry limit lines).2.reverse = (start.follow registry limit lines).2 := by
  induction lines using List.reverseRecOn with
  | nil => exact ⟨rfl, rfl⟩
  | append_singleton lines l ih => simp [pass_concat, follow_append, follow, ih.1, ih.2]

theorem run_fst (lines : List (Except LineError Line)) :
    (run registry limit lines).1 = (pass registry limit lines).1.settle.reportPending := by
  simp only [run]

theorem run_snd (lines : List (Except LineError Line)) :
    (run registry limit lines).2 = (pass registry limit lines).2.reverse := by
  simp only [run]

/-- Without waiting equates the layout is finished after its last line. -/
theorem run_of_settled {lines : List (Except LineError Line)}
    (h : (start.follow registry limit lines).1.pending = #[]) :
    run registry limit lines = start.follow registry limit lines := by
  obtain ⟨hfst, hsnd⟩ := pass_eq_follow registry limit lines
  have hretry {s : Layout} (hs : s.pending = #[]) : s.retry = s := by
    obtain ⟨cursor, origin, symbols, pending, errors⟩ := s
    subst hs
    rfl
  have hsettle {s : Layout} (hs : s.pending = #[]) : s.settle = s := by
    rw [settle, hretry hs]
    simp
  refine Prod.ext ?_ (by rw [run_snd, hsnd])
  rw [run_fst, hfst, hsettle h, reportPending, h]
  rfl

end Assembly.Layout

end Mos6502
