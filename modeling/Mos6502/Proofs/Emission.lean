import Mos6502.Assembly.Emission
import Mos6502.Proofs.Image
import Mos6502.Proofs.Layout

/-!
# What the second pass does to its state

Working out values only reports errors, writing bytes moves the cursor past
them, and no step takes an error back. Where nothing is reported, the bytes of
a line stand in cells that were free.

Main statements: `bytes_of_free` and `free_of_bytes` say when writing succeeds
and what the image is then; `line_grows` says that errors stay.
-/
namespace Mos6502.Assembly.Emission

variable (env : Setting)

/-! ## Reports -/

/-- The second state is the first with some more reports. -/
inductive Reports : Emission → Emission → Prop
  | refl (s : Emission) : Reports s s
  | report {s t : Emission} (line column : Nat) (cause : Cause) :
    Reports s t → Reports s (t.report env line column cause)

variable {env}

theorem Reports.trans {s t u : Emission} (h : Reports env s t) (k : Reports env t u) : Reports env s u := by
  induction k with
  | refl => exact h
  | report line column cause _ ih => exact ih.report line column cause

/-- Reports change nothing but the errors. -/
theorem Reports.state {s s' : Emission} (h : Reports env s s') : s' = { s with errors := s'.errors } := by
  induction h with
  | refl => rfl
  | @report t line column cause _ ih =>
    unfold Emission.report
    split
    · exact ih
    · rw [ih]

theorem Reports.cursor {s s' : Emission} (h : Reports env s s') : s'.cursor = s.cursor := by
  rw [h.state]

theorem Reports.image {s s' : Emission} (h : Reports env s s') : s'.image = s.image := by
  rw [h.state]

/-- With no failed line every report is kept. -/
theorem report_ne (hf : env.failed = []) (s : Emission) (line column : Nat) (cause : Cause) :
    (s.report env line column cause).errors ≠ #[] := by
  simp [report, hf]

variable (env)

/-- The same with reports that carry the number `n`. -/
inductive ReportsAt (n : Nat) : Emission → Emission → Prop
  | refl (s : Emission) : ReportsAt n s s
  | report {s t : Emission} (column : Nat) (cause : Cause) :
    ReportsAt n s t → ReportsAt n s (t.report env n column cause)

variable {env}

theorem ReportsAt.reports {n : Nat} {s t : Emission} (h : ReportsAt env n s t) : Reports env s t := by
  induction h with
  | refl => exact .refl _
  | report column cause _ ih => exact ih.report n column cause

variable (env)

theorem value_reportsAt (l : Line) (s : Emission) (e : Expr) : ReportsAt env l.number s (s.value env l e).1 := by
  unfold value
  split
  · exact .refl _
  · exact (ReportsAt.refl s).report _ _

theorem value_reports (l : Line) (s : Emission) (e : Expr) : Reports env s (s.value env l e).1 :=
  (value_reportsAt env l s e).reports

theorem datum_reportsAt (l : Line) (size : Nat) (encode : Int → Except EncodeError (List UInt8)) (s : Emission)
    (e : Expr) : ReportsAt env l.number s (s.datum env l size encode e).1 := by
  unfold datum
  have hv := value_reportsAt env l s e
  dsimp only
  split
  · exact hv
  · exact hv.report _ _

theorem setOrigin_image (l : Line) (s : Emission) (e : Expr) : (s.setOrigin env l e).image = s.image := by
  have hv := (value_reports env l s e).image
  unfold setOrigin
  split
  · rename_i heq
    rw [heq] at hv
    exact hv
  · rename_i heq
    rw [heq] at hv
    split
    · exact hv
    · exact ((Reports.refl _).report _ _ _).image.trans hv

theorem item_reportsAt (l : Line) (s : Emission) (i : DataItem) : ReportsAt env l.number s (s.item env l i).1 := by
  cases i with
  | value e => exact datum_reportsAt _ _ _ _ _ _
  | text bs => exact .refl _

theorem item_reports (l : Line) (s : Emission) (i : DataItem) : Reports env s (s.item env l i).1 :=
  (item_reportsAt env l s i).reports

theorem word_reportsAt (l : Line) (s : Emission) (e : Expr) : ReportsAt env l.number s (s.word env l e).1 :=
  datum_reportsAt _ _ _ _ _ _

theorem word_reports (l : Line) (s : Emission) (e : Expr) : Reports env s (s.word env l e).1 :=
  (word_reportsAt env l s e).reports

theorem label_reportsAt (s : Emission) (name : String) (line : Nat) :
    ReportsAt env line s (s.label env name line) := by
  unfold label
  split
  · exact .refl _
  · exact (ReportsAt.refl s).report _ _

theorem checkSize_reportsAt (l : Line) (plan : Plan) (name : String) (begin : Nat) (s : Emission) :
    ReportsAt env l.number s (s.checkSize env l plan name begin) := by
  unfold checkSize
  split
  · split
    · exact .refl _
    · exact (ReportsAt.refl s).report _ _
  · exact .refl _

theorem checkSize_reports (l : Line) (plan : Plan) (name : String) (begin : Nat) (s : Emission) :
    Reports env s (s.checkSize env l plan name begin) :=
  (checkSize_reportsAt env l plan name begin s).reports

/-- One step of `collect`: the bytes of an item go in front of the parts so far. -/
def gather {α : Type} (f : Emission → α → Emission × List UInt8) (r : Emission × List (List UInt8)) (i : α) :
    Emission × List (List UInt8) :=
  ((f r.1 i).1, (f r.1 i).2 :: r.2)

theorem collect_eq {α : Type} (f : Emission → α → Emission × List UInt8) (s : Emission) (items : List α) :
    s.collect f items =
      ((items.foldl (gather f) (s, [])).1, (items.foldl (gather f) (s, [])).2.reverse.flatten) :=
  rfl

/-- The parts that are there already stay behind those that are gathered. -/
theorem foldl_gather {α : Type} (f : Emission → α → Emission × List UInt8) (items : List α) (s : Emission)
    (parts : List (List UInt8)) :
    items.foldl (gather f) (s, parts) =
      ((items.foldl (gather f) (s, [])).1, (items.foldl (gather f) (s, [])).2 ++ parts) := by
  induction items generalizing s parts with
  | nil => rfl
  | cons i items ih =>
    simp only [List.foldl_cons, gather]
    rw [ih (f s i).1 ((f s i).2 :: parts), ih (f s i).1 [(f s i).2]]
    simp

theorem collect_cons {α : Type} (f : Emission → α → Emission × List UInt8) (s : Emission) (i : α)
    (items : List α) :
    s.collect f (i :: items) =
      (((f s i).1.collect f items).1, (f s i).2 ++ ((f s i).1.collect f items).2) := by
  simp only [collect_eq, List.foldl_cons, gather]
  rw [foldl_gather f items (f s i).1 [(f s i).2]]
  simp

/-- What the items give of the state, their list gives. -/
theorem collect_rel {R : Emission → Emission → Prop} (refl : ∀ s, R s s)
    (trans : ∀ {s t u}, R s t → R t u → R s u) {α : Type} {f : Emission → α → Emission × List UInt8}
    (hf : ∀ s i, R s (f s i).1) (s : Emission) (items : List α) : R s (s.collect f items).1 := by
  induction items generalizing s with
  | nil => exact refl _
  | cons i items ih =>
    rw [collect_cons]
    exact trans (hf s i) (ih _)

theorem collect_reports {α : Type} (f : Emission → α → Emission × List UInt8)
    (hf : ∀ s i, Reports env s (f s i).1) (s : Emission) (items : List α) :
    Reports env s (s.collect f items).1 :=
  collect_rel .refl .trans hf s items

/-! ## Steps of the pass -/

/-- The state after the label of a line. -/
def labelled (s : Emission) (l : Line) : Emission :=
  match l.label with
  | some name => s.label env name l.number
  | none => s

theorem labelled_reportsAt (s : Emission) (l : Line) : ReportsAt env l.number s (s.labelled env l) := by
  unfold labelled
  split
  · exact label_reportsAt _ _ _ _
  · exact .refl _

theorem labelled_reports (s : Emission) (l : Line) : Reports env s (s.labelled env l) :=
  (labelled_reportsAt env s l).reports

/-- The state after a macro's expansion, and its bytes. -/
def expansion (levels : Nat) (s : Emission) (plan : Plan) (l : Line) (name arguments : String) :
    Emission × List UInt8 :=
  match env.registry.expand name arguments (s.context env) .second with
  | .error e => (s.report env l.number l.column (.expansion e), [])
  | .ok .nothing => (s, [])
  | .ok (.bytes bs) => s.write env l bs
  | .ok (.source text) =>
    match levels with
    | 0 => (s.report env l.number l.column (.tooDeep name env.limit), [])
    | levels + 1 =>
      let (s, _, parts) := (Lines.split text.toList).foldl (fun (s, i, parts) text =>
        match Line.read text l.number with
        | .ok inner =>
          let (s, bs) := line env levels s (plan.line i) inner
          (s, i + 1, bs :: parts)
        | .error e =>
          (s.report env l.number l.column (.unreadableExpansion name e.cause), i + 1, parts))
        (s, 0, [])
      (s, parts.reverse.flatten)

/-- A line is its label and then its statement. -/
theorem line_eq (levels : Nat) (s : Emission) (plan : Plan) (l : Line) :
    line env levels s plan l =
      let s := s.labelled env l
      match l.statement with
      | none => (s, [])
      | some (.origin e) => (s.setOrigin env l e, [])
      | some (.equate _ _) => (s, [])
      | some (.bytes items) => (s.collect (item env l) items).1.write env l (s.collect (item env l) items).2
      | some (.words items) => (s.collect (word env l) items).1.write env l (s.collect (word env l) items).2
      | some (.instruction mnemonic shape operand) => s.instruction env l plan mnemonic shape operand
      | some (.invocation name arguments) =>
        let (t, bs) := s.expansion env levels plan l name arguments
        (t.checkSize env l plan name s.cursor, bs) := by
  rw [line]
  rfl

/-! ## The lines of an expansion -/

section Splice
variable {α : Type} (f : Emission → Plan → Line → Emission × List α) (plan : Plan) (l : Line) (name : String)

/-- Where the line with the index `i` of an expansion leads to and what it gives, if `f` says so of each line that
can be read. -/
def textLine (s : Emission) (i : Nat) (text : List Char) : Emission × List α :=
  match Line.read text l.number with
  | .ok inner => f s (plan.line i) inner
  | .error e => (s.report env l.number l.column (.unreadableExpansion name e.cause), [])

/-- Where the lines of an expansion from the index `i` on lead to, and what they give in a row. -/
def splice (s : Emission) (i : Nat) : List (List Char) → Emission × List α
  | [] => (s, [])
  | text :: texts =>
    let r := textLine env f plan l name s i text
    let rest := splice r.1 (i + 1) texts
    (rest.1, r.2 ++ rest.2)

theorem splice_cons (s : Emission) (i : Nat) (text : List Char) (texts : List (List Char)) :
    s.splice env f plan l name i (text :: texts) =
      (((s.textLine env f plan l name i text).1.splice env f plan l name (i + 1) texts).1,
        (s.textLine env f plan l name i text).2 ++
          ((s.textLine env f plan l name i text).1.splice env f plan l name (i + 1) texts).2) :=
  rfl

theorem splice_append (s : Emission) (i : Nat) (texts more : List (List Char)) :
    s.splice env f plan l name i (texts ++ more) =
      let r := s.splice env f plan l name i texts
      let rest := r.1.splice env f plan l name (i + texts.length) more
      (rest.1, r.2 ++ rest.2) := by
  induction texts generalizing s i with
  | nil => rfl
  | cons text texts ih =>
    rw [List.cons_append, splice_cons, ih, splice_cons, List.length_cons, Nat.add_right_comm, ← Nat.add_assoc]
    simp only [List.append_assoc]

end Splice

/-- An expansion to source text is its lines one after another. -/
theorem expansion_source {levels : Nat} {s : Emission} {plan : Plan} {l : Line} {name arguments text : String}
    (h : env.registry.expand name arguments (s.context env) .second = .ok (.source text)) :
    s.expansion env (levels + 1) plan l name arguments =
      s.splice env (line env levels) plan l name 0 (Lines.split text.toList) := by
  -- the pass counts the lines itself and keeps their bytes, last first
  have hfold (texts : List (List Char)) (i : Nat) (parts : List (List UInt8)) (s : Emission) :
      (fun r : Emission × Nat × List (List UInt8) => (r.1, r.2.2.reverse.flatten))
        (texts.foldl (fun (s, i, parts) text =>
          match Line.read text l.number with
          | .ok inner =>
            let (s, bs) := line env levels s (plan.line i) inner
            (s, i + 1, bs :: parts)
          | .error e => (s.report env l.number l.column (.unreadableExpansion name e.cause), i + 1, parts))
          (s, i, parts)) =
        ((s.splice env (line env levels) plan l name i texts).1,
          parts.reverse.flatten ++ (s.splice env (line env levels) plan l name i texts).2) := by
    induction texts generalizing i parts s with
    | nil => simp [splice]
    | cons text texts ih =>
      rw [List.foldl_cons, splice_cons]
      unfold textLine
      cases Line.read text l.number with
      | ok inner => simpa using ih (i + 1) ((line env levels s (plan.line i) inner).2 :: parts) _
      | error e => simpa using ih (i + 1) parts _
  simp only [expansion, h]
  exact hfold _ 0 [] s

/-- A relation between two states of the pass that its elementary steps give. -/
structure Steps (R : Emission → Emission → Prop) : Prop where
  refl (s : Emission) : R s s
  trans {s t u : Emission} : R s t → R t u → R s u
  report (s : Emission) (line column : Nat) (cause : Cause) : R s (s.report env line column cause)
  advance (s : Emission) (size : Nat) : R s (s.advance size)
  byte (l : Line) (s : Emission) (b : UInt8) : R s (s.byte env l b)
  warn (s : Emission) (ws : Array Warning) : R s { s with warnings := s.warnings ++ ws }
  setOrigin (l : Line) (s : Emission) (e : Expr) : R s (s.setOrigin env l e)

/-- The same for the elementary steps that are made for the line with the number `n`. -/
structure StepsAt (n : Nat) (R : Emission → Emission → Prop) : Prop where
  refl (s : Emission) : R s s
  trans {s t u : Emission} : R s t → R t u → R s u
  report (s : Emission) (column : Nat) (cause : Cause) : R s (s.report env n column cause)
  advance (s : Emission) (size : Nat) : R s (s.advance size)
  byte (l : Line) (s : Emission) (b : UInt8) : l.number = n → R s (s.byte env l b)
  warn (s : Emission) (ws : Array Warning) : R s { s with warnings := s.warnings ++ ws }
  setOrigin (l : Line) (s : Emission) (e : Expr) : l.number = n → R s (s.setOrigin env l e)

variable {env} {R : Emission → Emission → Prop}

theorem Steps.onLine (h : Steps env R) (n : Nat) : StepsAt env n R where
  refl := h.refl
  trans := h.trans
  report s := h.report s n
  advance := h.advance
  byte l s b _ := h.byte l s b
  warn := h.warn
  setOrigin l s e _ := h.setOrigin l s e

section StepsAt
variable {n : Nat} (h : StepsAt env n R) {l : Line} (hl : l.number = n)
include h

theorem StepsAt.reports {s s' : Emission} (hr : ReportsAt env n s s') : R s s' := by
  induction hr with
  | refl => exact h.refl _
  | report column cause _ ih => exact h.trans ih (h.report _ _ _)

include hl

theorem StepsAt.foldl_byte (s : Emission) (bs : List UInt8) : R s (bs.foldl (Emission.byte env l) s) :=
  foldl_rel h.refl h.trans id _ (fun s b => h.byte l s b hl) bs s

theorem StepsAt.bytes (s : Emission) (bs : List UInt8) : R s (s.bytes env l bs) := by
  unfold Emission.bytes
  extract_lets room t beyond
  have ht : R s t := h.foldl_byte hl _ _
  rw [hl]
  split
  · exact ht
  · exact h.trans ht (h.trans (h.report _ _ _) (h.advance _ _))

theorem StepsAt.chosen (s : Emission) (c : Choice) (shape : Shape) (v : Option Int) :
    R s (s.chosen env l c shape v).1 := by
  unfold Emission.chosen
  split
  · rw [hl]
    exact h.trans (h.report _ _ _) (h.advance _ _)
  · exact h.trans (h.warn _ _) (h.bytes hl _ _)

theorem StepsAt.instruction (plan : Plan) (s : Emission) (mnemonic : String) (shape : Shape)
    (operand : Option Expr) : R s (s.instruction env l plan mnemonic shape operand).1 := by
  unfold Emission.instruction
  split
  · exact h.refl _
  · split
    · rw [hl]
      exact h.report _ _ _
    · cases operand with
      | none => exact h.chosen hl _ _ _ _
      | some e =>
        have hv := h.reports (hl ▸ value_reportsAt env l s e)
        dsimp only
        split
        · rename_i heq
          rw [heq] at hv
          exact h.trans hv (h.advance _ _)
        · rename_i heq
          rw [heq] at hv
          exact h.trans hv (h.chosen hl _ _ _ _)

theorem StepsAt.labelled (s : Emission) : R s (s.labelled env l) :=
  h.reports (hl ▸ labelled_reportsAt env s l)

end StepsAt

theorem StepsAt.splice {n : Nat} (h : StepsAt env n R) {α : Type} {f : Emission → Plan → Line → Emission × List α}
    (hf : ∀ s plan l, l.number = n → R s (f s plan l).1) (plan : Plan) {l : Line} (hl : l.number = n) (name : String)
    (s : Emission) (i : Nat) (texts : List (List Char)) : R s (s.splice env f plan l name i texts).1 := by
  induction texts generalizing s i with
  | nil => exact h.refl s
  | cons text texts ih =>
    refine h.trans ?_ (ih _ _)
    unfold Emission.textLine
    split
    · rename_i inner hread
      exact hf _ _ _ ((Line.read_number hread).trans hl)
    · rw [hl]
      exact h.report _ _ _

/-- What the elementary steps give, a line gives after its label, whatever its macros expand to. -/
theorem StepsAt.statement {n : Nat} (h : StepsAt env n R) (levels : Nat) (s : Emission) (plan : Plan) {l : Line}
    (hl : l.number = n) : R (s.labelled env l) (line env levels s plan l).1 := by
  -- the lines of an expansion are taken one level deeper, with the number of the line
  induction levels using Nat.strongRecOn generalizing s plan l with
  | ind levels ih =>
    have hitem (s : Emission) (i : DataItem) : R s (s.item env l i).1 := h.reports (hl ▸ item_reportsAt env l s i)
    have hword (s : Emission) (e : Expr) : R s (s.word env l e).1 := h.reports (hl ▸ word_reportsAt env l s e)
    rw [line_eq]
    dsimp only
    split
    · exact h.refl _
    · exact h.setOrigin _ _ _ hl
    · exact h.refl _
    · exact h.trans (collect_rel h.refl h.trans hitem _ _) (h.bytes hl _ _)
    · exact h.trans (collect_rel h.refl h.trans hword _ _) (h.bytes hl _ _)
    · exact h.instruction hl _ _ _ _ _
    · rename_i name arguments _
      refine h.trans ?_ (h.reports (hl ▸ checkSize_reportsAt _ _ _ _ _ _))
      generalize s.labelled env l = s
      cases hx : env.registry.expand name arguments (s.context env) .second with
      | error e =>
        simp only [Emission.expansion, hx, hl]
        exact h.report _ _ _
      | ok output =>
        cases output with
        | nothing =>
          simp only [Emission.expansion, hx]
          exact h.refl _
        | bytes bs =>
          simp only [Emission.expansion, hx]
          exact h.bytes hl _ _
        | source text =>
          cases levels with
          | zero =>
            simp only [Emission.expansion, hx, hl]
            exact h.report _ _ _
          | succ levels =>
            rw [expansion_source env hx]
            exact h.splice (fun s plan l hl => h.trans (h.labelled hl s) (ih levels (Nat.lt_succ_self _) s plan hl))
              plan hl name s 0 _

theorem StepsAt.line {n : Nat} (h : StepsAt env n R) (levels : Nat) (s : Emission) (plan : Plan) {l : Line}
    (hl : l.number = n) : R s (line env levels s plan l).1 :=
  h.trans (h.labelled hl s) (h.statement levels s plan hl)

theorem Steps.foldl_byte (h : Steps env R) (l : Line) (s : Emission) (bs : List UInt8) :
    R s (bs.foldl (Emission.byte env l) s) :=
  (h.onLine l.number).foldl_byte rfl s bs

theorem Steps.bytes (h : Steps env R) (l : Line) (s : Emission) (bs : List UInt8) : R s (s.bytes env l bs) :=
  (h.onLine l.number).bytes rfl s bs

theorem Steps.chosen (h : Steps env R) (l : Line) (s : Emission) (c : Choice) (shape : Shape) (v : Option Int) :
    R s (s.chosen env l c shape v).1 :=
  (h.onLine l.number).chosen rfl s c shape v

theorem Steps.statement (h : Steps env R) (levels : Nat) (s : Emission) (plan : Plan) (l : Line) :
    R (s.labelled env l) (line env levels s plan l).1 :=
  (h.onLine l.number).statement levels s plan rfl

theorem Steps.splice (h : Steps env R) {α : Type} {f : Emission → Plan → Line → Emission × List α}
    (hf : ∀ s plan l, R s (f s plan l).1) (plan : Plan) (l : Line) (name : String) (s : Emission) (i : Nat)
    (texts : List (List Char)) : R s (s.splice env f plan l name i texts).1 :=
  (h.onLine l.number).splice (fun s plan l _ => hf s plan l) plan rfl name s i texts

theorem Steps.line (h : Steps env R) (levels : Nat) (s : Emission) (plan : Plan) (l : Line) :
    R s (line env levels s plan l).1 :=
  (h.onLine l.number).line levels s plan rfl

/-! ## Errors stay -/

theorem report_grows (s : Emission) (line column : Nat) (cause : Cause) :
    s.errors.toList <+: (s.report env line column cause).errors.toList := by
  unfold report
  split
  · exact List.prefix_rfl
  · simp

theorem Reports.grows {s s' : Emission} (h : Reports env s s') : s.errors.toList <+: s'.errors.toList := by
  induction h with
  | refl => exact List.prefix_rfl
  | report line column cause _ ih => exact ih.trans (report_grows _ _ _ _)

variable (env)

theorem steps_grows : Steps env fun s s' => s.errors.toList <+: s'.errors.toList where
  refl _ := List.prefix_rfl
  trans h k := h.trans k
  report := report_grows
  advance _ _ := List.prefix_rfl
  byte l s b := by
    unfold byte
    split
    · exact List.prefix_rfl
    · exact report_grows _ _ _ _
  warn _ _ := List.prefix_rfl
  setOrigin l s e := by
    have hv := (value_reports env l s e).grows
    unfold setOrigin
    split
    · rename_i heq
      rw [heq] at hv
      exact hv
    · rename_i heq
      rw [heq] at hv
      split
      · exact hv
      · exact hv.trans (report_grows _ _ _ _)

variable {env}

theorem noErrors_before {s s' : Emission} (h : s.errors.toList <+: s'.errors.toList) (he : s'.errors = #[]) :
    s.errors = #[] := by
  rw [he] at h
  simpa using h

theorem Reports.noErrors {s s' : Emission} (h : Reports env s s') (he : s'.errors = #[]) : s.errors = #[] :=
  noErrors_before h.grows he

/-! ## Bytes -/

theorem byte_cursor (l : Line) (s : Emission) (b : UInt8) : (s.byte env l b).cursor = s.cursor + 1 := by
  unfold byte
  split
  · rfl
  · rw [advance, ((Reports.refl s).report _ _ _).cursor]

theorem foldl_byte_cursor (l : Line) (s : Emission) (bs : List UInt8) :
    (bs.foldl (byte env l) s).cursor = s.cursor + bs.length := by
  induction bs generalizing s with
  | nil => rfl
  | cons b bs ih =>
    rw [List.foldl_cons, ih, byte_cursor, List.length_cons]
    omega

/-- The cursor moves past the bytes, whether or not there was room for them. -/
theorem bytes_cursor (l : Line) (s : Emission) (bs : List UInt8) :
    (s.bytes env l bs).cursor = s.cursor + bs.length := by
  unfold bytes
  extract_lets room t beyond
  -- the bytes that have no cell are passed over in one step
  have hlen := congrArg List.length (List.take_append_drop room bs)
  rw [List.length_append] at hlen
  have ht : t.cursor = s.cursor + (bs.take room).length := foldl_byte_cursor _ _ _
  split
  · rename_i hb
    have hb : (bs.drop room).length = 0 := by rw [List.length_eq_zero_iff]; exact List.isEmpty_iff.1 hb
    rw [ht]
    omega
  · rw [advance, ((Reports.refl t).report _ _ _).cursor, ht, ← hlen, Nat.add_assoc]

theorem foldl_byte_of_free (l : Line) (s : Emission) (bs : List UInt8) (h : s.image.Free s.cursor bs.length) :
    bs.foldl (byte env l) s =
      { s with image := s.image.puts s.cursor bs, cursor := s.cursor + bs.length } := by
  induction bs generalizing s with
  | nil => rfl
  | cons b bs ih =>
    have h0 : s.image.get? s.address = none := (h 0 (by simp)).2
    have hb : s.byte env l b = { s with image := s.image.put s.address b, cursor := s.cursor + 1 } := by
      simp only [byte, h0]
    rw [List.foldl_cons, hb, ih _ (h.tail b)]
    simp only [Image.puts, List.length_cons, Emission.mk.injEq, and_true, true_and]
    exact ⟨by omega, rfl⟩

/-- Bytes that find free cells are written there, and nothing is reported. -/
theorem bytes_of_free {l : Line} {s : Emission} {bs : List UInt8} (h : s.image.Free s.cursor bs.length) :
    s.bytes env l bs = { s with image := s.image.puts s.cursor bs, cursor := s.cursor + bs.length } := by
  have hroom : bs.length ≤ 65536 - s.cursor := by
    rcases Nat.eq_zero_or_pos bs.length with h0 | h0
    · omega
    · have := h.bound h0
      omega
  unfold bytes
  simp only [List.take_of_length_le hroom, List.drop_eq_nil_of_le hroom, List.isEmpty_nil, if_true]
  exact foldl_byte_of_free l s bs h

theorem free_of_foldl_byte (hf : env.failed = []) {l : Line} {s : Emission} {bs : List UInt8}
    (hroom : s.cursor + bs.length ≤ 65536) (he : (bs.foldl (byte env l) s).errors = #[]) :
    s.image.Free s.cursor bs.length := by
  induction bs generalizing s with
  | nil => intro k hk; simp at hk
  | cons b bs ih =>
    simp only [List.length_cons] at hroom ⊢
    rw [List.foldl_cons] at he
    have hb : (s.byte env l b).errors = #[] :=
      noErrors_before ((steps_grows env).foldl_byte l _ bs) he
    have h0 : s.image.get? s.address = none := by
      unfold byte at hb
      split at hb
      · assumption
      · exact absurd hb (report_ne hf _ _ _ _)
    have hs : s.byte env l b = { s with image := s.image.put s.address b, cursor := s.cursor + 1 } := by
      simp only [byte, h0]
    rw [hs] at he
    have hrest := ih (s := { s with image := s.image.put s.address b, cursor := s.cursor + 1 })
      (by dsimp only; omega) he
    intro k hk
    rcases k with _ | k
    · exact ⟨by omega, h0⟩
    · obtain ⟨hlt, hnone⟩ := hrest k (by omega)
      have hshift : s.cursor + 1 + k = s.cursor + (k + 1) := by omega
      dsimp only at hlt hnone
      rw [hshift] at hlt hnone
      refine ⟨hlt, ?_⟩
      -- a cell that is free after the first byte was written is not the cell of that byte
      rw [Image.get?_put] at hnone
      split at hnone
      · cases hnone
      · exact hnone

/-- Bytes that were written without a report found free cells. -/
theorem free_of_bytes (hf : env.failed = []) {l : Line} {s : Emission} {bs : List UInt8}
    (he : (s.bytes env l bs).errors = #[]) : s.image.Free s.cursor bs.length := by
  unfold bytes at he
  extract_lets room t beyond at he
  split at he
  · rename_i hb
    have hdrop : bs.drop room = [] := List.isEmpty_iff.1 hb
    have hlen : bs.length ≤ room := List.drop_eq_nil_iff.1 hdrop
    have htake : bs.take room = bs := List.take_of_length_le hlen
    rcases Nat.eq_zero_or_pos bs.length with h0 | h0
    · intro k hk
      omega
    · unfold t at he
      rw [htake] at he
      exact free_of_foldl_byte hf (by unfold room at hlen; omega) he
  · exact absurd he (report_ne hf _ _ _ _)

/-! ## The pass line by line -/

variable (env)

theorem run_concat (lines : List (SourceLine × Plan)) (text : List Char) (l : Line) (plan : Plan) :
    run env (lines ++ [((text, .ok l), plan)]) =
      (((run env lines).1.line env env.limit plan l).1,
        ⟨(run env lines).2.lines ++ [⟨l.number, cursorAddress? (run env lines).1.cursor,
          ((run env lines).1.line env env.limit plan l).2, String.ofList (Blank.trimEnd text)⟩]⟩) := by
  simp [run, List.foldl_append, sourceLine]

theorem run_concat_error (lines : List (SourceLine × Plan)) (text : List Char) (e : LineError) (plan : Plan) :
    run env (lines ++ [((text, .error e), plan)]) =
      ((run env lines).1.report env e.line e.column (.unreadable e.cause), (run env lines).2) := by
  simp [run, List.foldl_append, sourceLine]

/-- What the elementary steps give, every stretch of lines gives. -/
theorem Steps.run {env : Setting} {R : Emission → Emission → Prop} (h : Steps env R)
    (lines more : List (SourceLine × Plan)) : R (run env lines).1 (Emission.run env (lines ++ more)).1 := by
  induction more using List.reverseRecOn with
  | nil => rw [List.append_nil]; exact h.refl _
  | append_singleton more l ih =>
    obtain ⟨⟨text, l⟩, plan⟩ := l
    rw [← List.append_assoc]
    cases l with
    | ok l => rw [run_concat]; exact h.trans ih (h.line _ _ _ _)
    | error e => rw [run_concat_error]; exact h.trans ih (h.report _ _ _ _)

/-- The state after more lines. -/
def follow (s : Emission) : List (SourceLine × Plan) → Emission
  | [] => s
  | ((_, .ok l), plan) :: rest => (s.line env env.limit plan l).1.follow rest
  | ((_, .error e), _) :: rest => (s.report env e.line e.column (.unreadable e.cause)).follow rest

theorem follow_append (s : Emission) (ls more : List (SourceLine × Plan)) :
    s.follow env (ls ++ more) = (s.follow env ls).follow env more := by
  fun_induction follow env s ls with
  | case1 => rfl
  | case2 s text l plan rest ih => exact ih
  | case3 s text e plan rest ih => exact ih

theorem run_fst_eq (lines : List (SourceLine × Plan)) : (run env lines).1 = start.follow env lines := by
  induction lines using List.reverseRecOn with
  | nil => rfl
  | append_singleton lines l ih =>
    obtain ⟨⟨text, l⟩, plan⟩ := l
    cases l with
    | ok l => rw [run_concat, follow_append, ← ih, follow, follow]
    | error e => rw [run_concat_error, follow_append, ← ih, follow, follow]

end Mos6502.Assembly.Emission
