import Mos6502.Proofs.Drift
import Mos6502.Proofs.Equates
import Mos6502.Proofs.Withholding

/-!
# The lines that errors name

Each error is raised by the work of one of the passes on one line: while the line
is laid out or written, or when an equate that the line left waiting is tried
again at the end of the first pass. Every step for a line gives its errors the
number of that line, in macro expansions too. Only a fault behind a line end
inside the line drifts down from it, and then it takes the place of another
line's errors, since the second pass withholds errors by their numbers.

Main statement: `errors_name_lines`.
-/
namespace Mos6502

/-! ## Lists that grow -/

/-- The items of the second list past the length of the first. -/
def fresh {α : Type} (xs ys : List α) : List α :=
  ys.drop xs.length

/-- The second list is the first with some more items, and they have the property. -/
def Appends {α : Type} (P : α → Prop) (xs ys : List α) : Prop :=
  xs <+: ys ∧ ∀ x ∈ fresh xs ys, P x

section Appends
variable {α : Type} {P : α → Prop} {xs ys zs : List α}

theorem fresh_append (xs ys : List α) : fresh xs (xs ++ ys) = ys := by
  simp [fresh]

theorem fresh_self (xs : List α) : fresh xs xs = [] :=
  List.drop_length

theorem Appends.of_append (h : ∀ x ∈ ys, P x) : Appends P xs (xs ++ ys) :=
  ⟨List.prefix_append _ _, by rwa [fresh_append]⟩

theorem Appends.refl (xs : List α) : Appends P xs xs :=
  ⟨List.prefix_rfl, by simp [fresh_self]⟩

theorem Appends.trans (h : Appends P xs ys) (k : Appends P ys zs) : Appends P xs zs := by
  obtain ⟨⟨as, rfl⟩, has⟩ := h
  obtain ⟨⟨bs, rfl⟩, hbs⟩ := k
  rw [fresh_append] at has hbs
  rw [List.append_assoc]
  refine .of_append fun x hx => ?_
  exact (List.mem_append.1 hx).elim (has x) (hbs x)

theorem fresh_filter (h : xs <+: ys) (p : α → Bool) : fresh (xs.filter p) (ys.filter p) = (fresh xs ys).filter p := by
  obtain ⟨zs, rfl⟩ := h
  rw [List.filter_append, fresh_append, fresh_append]

/-- What stands in the last of some growing lists was in the first or came with one of the others. -/
theorem exists_fresh {f : Nat → List α} (h : ∀ k, f k <+: f (k + 1)) {n : Nat} {x : α} (hx : x ∈ f n) :
    x ∈ f 0 ∨ ∃ k < n, x ∈ fresh (f k) (f (k + 1)) := by
  induction n with
  | zero => exact .inl hx
  | succ n ih =>
    obtain ⟨more, hmore⟩ := h n
    rw [← hmore] at hx
    rcases List.mem_append.1 hx with hx | hx
    · refine (ih hx).imp_right ?_
      rintro ⟨k, hk, hx⟩
      exact ⟨k, by omega, hx⟩
    · exact .inr ⟨n, by omega, by rwa [← hmore, fresh_append]⟩

/-- What stands in a list after a fold that only adds to it was there before or came with one of the steps. -/
theorem exists_fresh_foldl {σ γ : Type} {f : σ → γ → σ} {view : σ → List α} (h : ∀ s y, view s <+: view (f s y))
    {ys : List γ} {s : σ} {x : α} (hx : x ∈ view (ys.foldl f s)) :
    x ∈ view s ∨
      ∃ i y, ys[i]? = some y ∧ x ∈ fresh (view ((ys.take i).foldl f s)) (view ((ys.take (i + 1)).foldl f s)) := by
  have hgrows (i : Nat) : view ((ys.take i).foldl f s) <+: view ((ys.take (i + 1)).foldl f s) := by
    rw [List.take_add_one, List.foldl_append]
    cases ys[i]? with
    | none => exact List.prefix_rfl
    | some y => exact h _ y
  rw [← List.take_length (l := ys)] at hx
  refine (exists_fresh hgrows hx).imp id ?_
  rintro ⟨i, hi, hx⟩
  exact ⟨i, _, List.getElem?_eq_getElem hi, hx⟩

end Appends

namespace Assembly

/-- The error carries the number, and the mark of the pass. -/
def Error.IsAt (n : Nat) (pass : Pass) (e : Error) : Prop :=
  e.line = n ∧ e.pass = pass

/-! ## The first pass -/

namespace Layout

/-- What is new in the second state carries the number. -/
structure Adds (n : Nat) (s t : Layout) : Prop where
  errors : Appends (Error.IsAt n .first) s.errors.toList t.errors.toList
  pending : Appends (·.line = n) s.pending.toList t.pending.toList

theorem report_adds (s : Layout) (n column : Nat) (cause : Cause) : Adds n s (s.report n column cause) where
  errors := by
    rw [report, Array.toList_push]
    exact .of_append (by simp [Error.IsAt])
  pending := .refl _

theorem define_adds (s : Layout) (name : String) (address : UInt16) (n column : Nat) :
    Adds n s (s.define name address n column) := by
  unfold define
  split
  · exact ⟨.refl _, .refl _⟩
  · exact report_adds _ _ _ _

theorem assign_adds (s : Layout) (name : String) (value : Int) (n column : Nat) :
    Adds n s (s.assign name value n column) := by
  unfold assign
  split
  · exact define_adds _ _ _ _ _
  · exact report_adds _ _ _ _

/-- The steps that are made for a line add errors and waiting equates of that line only. -/
theorem stepsAt_adds (n : Nat) : StepsAt n (Adds n) where
  refl s := ⟨.refl _, .refl _⟩
  trans h k := ⟨h.errors.trans k.errors, h.pending.trans k.pending⟩
  report s := report_adds s n
  advance s size := ⟨.refl _, .refl _⟩
  label s name := by
    unfold Layout.label
    split
    · exact define_adds _ _ _ _ _
    · exact report_adds _ _ _ _
  equate s name value l hl := by
    subst hl
    unfold Layout.equate
    split
    · exact assign_adds _ _ _ _ _
    · refine ⟨.refl _, ?_⟩
      rw [Array.toList_push]
      exact .of_append (by simp)
  setOrigin s value l hl := by
    subst hl
    unfold Layout.setOrigin
    split
    · exact report_adds _ _ _ _
    · split
      · exact ⟨.refl _, .refl _⟩
      · exact report_adds _ _ _ _

theorem sourceLine_adds (registry : Macro.Registry) (limit : Nat) (s : Layout) (text : List Char) (n : Nat) :
    Adds (n + Line.drift text) s (s.sourceLine registry limit (Line.read text n)).1 := by
  cases h : Line.read text n with
  | ok l =>
    rw [Line.drift_of_read h]
    exact (stepsAt_adds n).line registry limit limit s (Line.read_number h)
  | error e =>
    rw [← Line.read_error_line h]
    exact report_adds _ _ _ _

theorem attempt_adds (s : Layout) (p : Pending) :
    Appends (Error.IsAt p.line .first) s.errors.toList (s.attempt p).errors.toList := by
  unfold attempt
  split
  · exact (assign_adds _ _ _ _ _).errors
  · exact .refl _

theorem reportStuck_adds (s : Layout) (p : Pending) :
    Appends (Error.IsAt p.line .first) s.errors.toList (s.reportStuck p).errors.toList := by
  unfold reportStuck
  split
  · exact .refl _
  · exact (report_adds _ _ _ _).errors

end Layout

section Source
variable (settings : Settings) (registry : Macro.Registry) (source : String)

/-- The first pass after `k` lines. -/
def laidOut (k : Nat) : Layout :=
  (Layout.pass registry settings.maxDepth ((parsed source).take k)).1

/-- The equate waits at the end of the line with the index `k`, and did not wait before it. -/
def Waits (k : Nat) (p : Pending) : Prop :=
  p ∈ fresh (laidOut settings registry source k).pending.toList (laidOut settings registry source (k + 1)).pending.toList

/-- The first pass after its last line. -/
def unsettled : Layout :=
  (Layout.pass registry settings.maxDepth (parsed source)).1

/-- The states in which a round over the waiting equates begins. -/
inductive Round : Layout → Prop
  | first : Round (unsettled settings registry source)
  | next {s : Layout} : Round s → s.retry.pending.size < s.pending.size → Round s.retry

/-- A step of the first pass and the index of the line that it works on: the line itself, or later an
equate that was left waiting by it. -/
inductive Works : Nat → Layout → Layout → Prop
  | line {k : Nat} : k < (Lines.split source.toList).length →
    Works k (laidOut settings registry source k) (laidOut settings registry source (k + 1))
  | attempt {k i : Nat} {s : Layout} {p : Pending} : Round settings registry source s →
    s.pending.toList[i]? = some p → Waits settings registry source k p →
    Works k ((s.pending.toList.take i).foldl Layout.attempt { s with pending := #[] })
      ((s.pending.toList.take (i + 1)).foldl Layout.attempt { s with pending := #[] })
  | stuck {k i : Nat} {p : Pending} : (unsettled settings registry source).settle.pending.toList[i]? = some p →
    Waits settings registry source k p →
    Works k (((unsettled settings registry source).settle.pending.toList.take i).foldl Layout.reportStuck
        (unsettled settings registry source).settle)
      (((unsettled settings registry source).settle.pending.toList.take (i + 1)).foldl Layout.reportStuck
        (unsettled settings registry source).settle)

/-- The first pass raises the error while it works on the line with the index `k`. -/
def RaisesFirst (k : Nat) (e : Error) : Prop :=
  ∃ s t, Works settings registry source k s t ∧ e ∈ fresh s.errors.toList t.errors.toList

variable {settings registry source}

theorem readSource_getElem? {k : Nat} {text : List Char} (h : (Lines.split source.toList)[k]? = some text) :
    (readSource source)[k]? = some (text, Line.read text (k + 1)) := by
  rw [readSource, List.getElem?_mapIdx, h, Option.map_some]

variable (settings registry) in
theorem laidOut_adds {k : Nat} {text : List Char} (h : (Lines.split source.toList)[k]? = some text) :
    Layout.Adds (k + 1 + Line.drift text) (laidOut settings registry source k)
      (laidOut settings registry source (k + 1)) := by
  rw [laidOut, laidOut, pass_take_succ (readSource_getElem? h)]
  exact Layout.sourceLine_adds _ _ _ _ _

theorem length_parsed : (parsed source).length = (Lines.split source.toList).length := by
  simp [parsed, readSource]

theorem laidOut_of_le {k : Nat} (h : (Lines.split source.toList).length ≤ k) :
    laidOut settings registry source k = unsettled settings registry source := by
  rw [laidOut, unsettled, List.take_of_length_le (by rwa [length_parsed])]

theorem run_fst_eq_settled :
    (Layout.run registry settings.maxDepth (parsed source)).1 =
      (unsettled settings registry source).settle.reportPending :=
  Layout.run_fst _ _ _

variable (settings registry source) in
theorem laidOut_grows (k : Nat) :
    (laidOut settings registry source k).errors.toList <+: (laidOut settings registry source (k + 1)).errors.toList ∧
      (laidOut settings registry source k).pending.toList <+:
        (laidOut settings registry source (k + 1)).pending.toList := by
  rcases Nat.lt_or_ge k (Lines.split source.toList).length with hk | hk
  · have hadds := laidOut_adds settings registry (List.getElem?_eq_getElem hk)
    exact ⟨hadds.errors.1, hadds.pending.1⟩
  · rw [laidOut_of_le hk, laidOut_of_le (Nat.le_succ_of_le hk)]
    exact ⟨List.prefix_rfl, List.prefix_rfl⟩

theorem Waits.lt {k : Nat} {p : Pending} (h : Waits settings registry source k p) :
    k < (Lines.split source.toList).length := by
  rw [← Nat.not_le]
  intro hk
  rw [Waits, laidOut_of_le hk, laidOut_of_le (Nat.le_succ_of_le hk)] at h
  simp [fresh_self] at h

theorem Works.lt {k : Nat} {s t : Layout} (h : Works settings registry source k s t) :
    k < (Lines.split source.toList).length := by
  cases h with
  | line hk => exact hk
  | attempt _ _ hp => exact hp.lt
  | stuck _ hp => exact hp.lt

/-- Whatever the first pass does for a line, its errors carry the number of that line and the drift. -/
theorem Works.adds {k : Nat} {s t : Layout} (h : Works settings registry source k s t) {text : List Char}
    (htext : (Lines.split source.toList)[k]? = some text) :
    Appends (Error.IsAt (k + 1 + Line.drift text) .first) s.errors.toList t.errors.toList := by
  have hadds := laidOut_adds settings registry htext
  cases h with
  | line => exact hadds.errors
  | attempt _ hi hp =>
    rw [take_succ_of_getElem? hi, List.foldl_append, ← hadds.pending.2 _ hp]
    exact Layout.attempt_adds _ _
  | stuck hi hp =>
    rw [take_succ_of_getElem? hi, List.foldl_append, ← hadds.pending.2 _ hp]
    exact Layout.reportStuck_adds _ _

theorem exists_waits {p : Pending} (hp : p ∈ (unsettled settings registry source).pending) :
    ∃ k, Waits settings registry source k p := by
  rw [← Array.mem_toList_iff, ← laidOut_of_le (Nat.le_refl _)] at hp
  rcases exists_fresh (fun k => (laidOut_grows settings registry source k).2) hp with hp | ⟨k, -, hp⟩
  · simp [laidOut, Layout.pass, Layout.start] at hp
  · exact ⟨k, hp⟩

theorem Round.waits {s : Layout} (h : Round settings registry source s) {p : Pending} (hp : p ∈ s.pending) :
    ∃ k, Waits settings registry source k p := by
  induction h with
  | first => exact exists_waits hp
  | @next s _ _ ih => exact ih ((Layout.retry_waiting s).1 p hp)

theorem Round.retry_errors {s : Layout} (h : Round settings registry source s) {e : Error}
    (he : e ∈ s.retry.errors.toList) : e ∈ s.errors.toList ∨ ∃ k, RaisesFirst settings registry source k e := by
  rw [Layout.retry_eq] at he
  refine (exists_fresh_foldl (fun s p => (Layout.attempt_adds s p).1) he).imp id ?_
  rintro ⟨i, p, hi, he⟩
  obtain ⟨k, hk⟩ := h.waits (Array.mem_toList_iff.1 (List.mem_of_getElem? hi))
  exact ⟨k, _, _, .attempt h hi hk, he⟩

theorem Round.settle_errors {s : Layout} (h : Round settings registry source s) {e : Error}
    (he : e ∈ s.settle.errors.toList) : e ∈ s.errors.toList ∨ ∃ k, RaisesFirst settings registry source k e := by
  fun_induction Layout.settle s with
  | case1 s next hlt ih => exact (ih (h.next hlt) he).elim h.retry_errors .inr
  | case2 s next hlt => exact h.retry_errors he

theorem settle_waits {s : Layout} {p : Pending} (hp : p ∈ s.settle.pending) : p ∈ s.pending := by
  fun_induction Layout.settle s with
  | case1 s next hlt ih => exact (Layout.retry_waiting s).1 p (ih hp)
  | case2 s next hlt => exact (Layout.retry_waiting s).1 p hp

/-- Every error of the first pass is raised by its work on a line. -/
theorem exists_raisesFirst {e : Error}
    (he : e ∈ (Layout.run registry settings.maxDepth (parsed source)).1.errors.toList) :
    ∃ k, RaisesFirst settings registry source k e := by
  rw [run_fst_eq_settled, Layout.reportPending_eq] at he
  rcases exists_fresh_foldl (fun s p => (Layout.reportStuck_adds s p).1) he with he | ⟨i, p, hi, he⟩
  · rcases Round.settle_errors .first he with he | he
    · rw [← laidOut_of_le (Nat.le_refl _)] at he
      rcases exists_fresh (fun k => (laidOut_grows settings registry source k).1) he with he | ⟨k, hk, he⟩
      · simp [laidOut, Layout.pass, Layout.start] at he
      · exact ⟨k, _, _, .line hk, he⟩
    · exact he
  · obtain ⟨k, hk⟩ := exists_waits (settle_waits (Array.mem_toList_iff.1 (List.mem_of_getElem? hi)))
    exact ⟨k, _, _, .stuck hi hk, he⟩

theorem Round.settle_eq {s : Layout} (h : Round settings registry source s) :
    s.settle = (unsettled settings registry source).settle := by
  induction h with
  | first => rfl
  | @next s _ hlt ih =>
    rwa [Layout.settle, if_pos hlt] at ih

theorem foldl_take_extends {f : Layout → Pending → Layout} (h : ∀ s p, Layout.Extends s (f s p)) (ps : List Pending)
    (i : Nat) (s : Layout) : ((ps.take i).foldl f s).Extends (ps.foldl f s) := by
  have hmore := foldl_rel Layout.Extends.refl Layout.Extends.trans id f h (ps.drop i) ((ps.take i).foldl f s)
  rwa [id, id, ← List.foldl_append, List.take_append_drop] at hmore

theorem Works.kept {k : Nat} {s t : Layout} (h : Works settings registry source k s t) :
    t.Extends (Layout.run registry settings.maxDepth (parsed source)).1 := by
  cases h with
  | line => exact pass_extends_run _ _ _ _
  | @attempt i s p hs _ _ =>
    have hround := foldl_take_extends (fun s p => (Layout.tried_attempt s p).grows) s.pending.toList (i + 1)
      { s with pending := #[] }
    rw [← Layout.retry_eq] at hround
    have hsettle : s.retry.Extends s.settle := by
      rw [Layout.settle]
      split
      · exact Layout.settle_extends _
      · exact .refl _
    rw [run_fst_eq_settled, ← hs.settle_eq]
    exact hround.trans (hsettle.trans (Layout.reportPending_extends _))
  | stuck =>
    rw [run_fst_eq_settled, Layout.reportPending_eq]
    exact foldl_take_extends Layout.reportStuck_extends _ _ _

/-- The errors of the first pass are those that its work on the lines raises. -/
theorem mem_first_errors {e : Error} :
    e ∈ (Layout.run registry settings.maxDepth (parsed source)).1.errors.toList ↔
      ∃ k, RaisesFirst settings registry source k e := by
  refine ⟨exists_raisesFirst, ?_⟩
  rintro ⟨k, s, t, hworks, he⟩
  exact hworks.kept.errors.subset (List.mem_of_mem_drop he)

end Source

/-! ## The second pass -/

namespace Emission

variable (env : Setting)

theorem report_adds (s : Emission) (n column : Nat) (cause : Cause) :
    Appends (Error.IsAt n .second) s.errors.toList (s.report env n column cause).errors.toList := by
  unfold report
  split
  · exact .refl _
  · rw [Array.toList_push]
    exact .of_append (by simp [Error.IsAt])

theorem ReportsAt.adds {env : Setting} {n : Nat} {s t : Emission} (h : ReportsAt env n s t) :
    Appends (Error.IsAt n .second) s.errors.toList t.errors.toList := by
  induction h with
  | refl => exact .refl _
  | report column cause _ ih => exact ih.trans (report_adds _ _ _ _ _)

/-- The steps that are made for a line add errors of that line only. -/
theorem stepsAt_adds (n : Nat) :
    StepsAt env n fun s t => Appends (Error.IsAt n .second) s.errors.toList t.errors.toList where
  refl s := .refl _
  trans h k := h.trans k
  report s := report_adds env s n
  advance s size := .refl _
  byte l s b hl := by
    subst hl
    unfold byte
    split
    · exact .refl _
    · exact report_adds _ _ _ _ _
  warn s ws := .refl _
  setOrigin l s e hl := by
    subst hl
    have hv := (value_reportsAt env l s e).adds
    unfold setOrigin
    split
    · rename_i heq
      rwa [heq] at hv
    · rename_i heq
      rw [heq] at hv
      split
      · exact hv
      · exact hv.trans (report_adds _ _ _ _ _)

theorem run_concat_adds (lines : List (SourceLine × Plan)) (text : List Char) (n : Nat) (plan : Plan) :
    Appends (Error.IsAt (n + Line.drift text) .second) (run env lines).1.errors.toList
      (run env (lines ++ [((text, Line.read text n), plan)])).1.errors.toList := by
  cases h : Line.read text n with
  | ok l =>
    rw [run_concat, Line.drift_of_read h]
    exact (stepsAt_adds env n).line env.limit _ plan (Line.read_number h)
  | error e =>
    rw [run_concat_error, ← Line.read_error_line h]
    exact report_adds _ _ _ _ _

end Emission

section Source
variable (settings : Settings) (registry : Macro.Registry) (source : String)

/-- The errors that the second pass reports on the line with the index `k` in a setting. -/
def reportedBy (env : Emission.Setting) (k : Nat) : List Error :=
  fresh (Emission.run env ((planned settings registry source).take k)).1.errors.toList
    (Emission.run env ((planned settings registry source).take (k + 1))).1.errors.toList

/-- The second pass comes to the error on the line with the index `k`, and returns or withholds it. -/
def Detects (k : Nat) (e : Error) : Prop :=
  e ∈ reportedBy settings registry source (environment settings registry source).unfiltered k

/-- The second pass raises the error on the line with the index `k`. -/
def RaisesSecond (k : Nat) (e : Error) : Prop :=
  e ∈ reportedBy settings registry source (environment settings registry source) k

theorem reportedBy_grows (env : Emission.Setting) (k : Nat) :
    (Emission.run env ((planned settings registry source).take k)).1.errors.toList <+:
      (Emission.run env ((planned settings registry source).take (k + 1))).1.errors.toList := by
  rw [List.take_add_one]
  exact (Emission.steps_grows env).run _ _

variable {settings registry source}

theorem reportedBy_isAt {env : Emission.Setting} {k : Nat} {text : List Char}
    (h : (Lines.split source.toList)[k]? = some text) {e : Error} (he : e ∈ reportedBy settings registry source env k) :
    e.IsAt (k + 1 + Line.drift text) .second := by
  have hadds := Emission.run_concat_adds env ((planned settings registry source).take k) text (k + 1)
  rw [reportedBy, take_succ_of_getElem? (planned_getElem? (readSource_getElem? h))] at he
  exact (hadds _).2 e he

theorem reportedBy_lt {env : Emission.Setting} {k : Nat} {e : Error}
    (he : e ∈ reportedBy settings registry source env k) : k < (Lines.split source.toList).length := by
  rw [← Nat.not_le]
  intro hk
  have hlength : (planned settings registry source).length ≤ k := by
    simp only [planned, List.length_zip, readSource, List.length_mapIdx]
    omega
  rw [reportedBy, List.take_of_length_le hlength, List.take_of_length_le (Nat.le_succ_of_le hlength), fresh_self] at he
  cases he

/-- The errors of the second pass are those that it raises on the lines. -/
theorem mem_second_errors {e : Error} :
    e ∈ (Emission.run (environment settings registry source) (planned settings registry source)).1.errors.toList ↔
      ∃ k, RaisesSecond settings registry source k e := by
  constructor
  · intro he
    rw [← List.take_length (l := planned settings registry source)] at he
    rcases exists_fresh (reportedBy_grows settings registry source _) he with he | ⟨k, -, he⟩
    · cases he
    · exact ⟨k, he⟩
  · rintro ⟨k, he⟩
    have hgrows := (Emission.steps_grows (environment settings registry source)).run
      ((planned settings registry source).take (k + 1)) ((planned settings registry source).drop (k + 1))
    rw [List.take_append_drop] at hgrows
    exact hgrows.subset (List.mem_of_mem_drop he)

/-! ## Withheld errors -/

theorem mem_eraseReps_loop (n m : Nat) (ns acc : List Nat) :
    n ∈ List.eraseRepsBy.loop (· == ·) m ns acc ↔ n = m ∨ n ∈ ns ∨ n ∈ acc := by
  induction ns generalizing m acc with
  | nil => simp [List.eraseRepsBy.loop, or_comm]
  | cons k ns ih => grind [List.eraseRepsBy.loop]

theorem mem_eraseReps (n : Nat) (ns : List Nat) : n ∈ ns.eraseReps ↔ n ∈ ns := by
  cases ns with
  | nil => rfl
  | cons m ns =>
    have hloop := mem_eraseReps_loop n m ns []
    simpa [List.eraseReps, List.eraseRepsBy] using hloop

/-- The second pass withholds an error if and only if the first raised one with the same number. -/
theorem withheld_iff {k : Nat} {e : Error} (h : Detects settings registry source k e) :
    ¬ RaisesSecond settings registry source k e ↔
      ∃ j e', RaisesFirst settings registry source j e' ∧ e'.line = e.line := by
  have hfilter (lines : List (Emission.SourceLine × Plan)) :
      (Emission.run (environment settings registry source) lines).1.errors.toList =
        (Emission.run (environment settings registry source).unfiltered lines).1.errors.toList.filter
          fun e => !(environment settings registry source).failed.contains e.line := by
    rw [Emission.run_withhold, Emission.withhold, Array.toList_filter]
  have hfailed : e.line ∈ (environment settings registry source).failed ↔
      ∃ j e', RaisesFirst settings registry source j e' ∧ e'.line = e.line := by
    simp only [environment, mem_eraseReps, List.mem_map, mem_first_errors]
    constructor
    · rintro ⟨e', ⟨j, hj⟩, hline⟩
      exact ⟨j, e', hj, hline⟩
    · rintro ⟨j, e', hj, hline⟩
      exact ⟨e', ⟨j, hj⟩, hline⟩
  rw [← hfailed, RaisesSecond, reportedBy, hfilter, hfilter,
    fresh_filter (reportedBy_grows settings registry source _ k), List.mem_filter]
  simp only [show e ∈ fresh _ _ from h, true_and, Bool.not_eq_true', List.contains_eq_mem, decide_eq_false_iff_not,
    not_not]

/-! ## Both passes -/

variable (settings registry source) in
/-- The error is raised by the work of a pass on the line with the index `k`. -/
def Raises (k : Nat) (e : Error) : Prop :=
  RaisesFirst settings registry source k e ∨ RaisesSecond settings registry source k e

theorem Raises.lt {k : Nat} {e : Error} (h : Raises settings registry source k e) :
    k < (Lines.split source.toList).length := by
  rcases h with ⟨s, t, hworks, -⟩ | h
  · exact hworks.lt
  · exact reportedBy_lt h

theorem Raises.line {k : Nat} {e : Error} (h : Raises settings registry source k e) {text : List Char}
    (htext : (Lines.split source.toList)[k]? = some text) : e.line = k + 1 + Line.drift text := by
  rcases h with ⟨s, t, hworks, he⟩ | h
  · exact ((hworks.adds htext).2 e he).1
  · exact (reportedBy_isAt htext h).1

end Source

end Assembly

open Assembly

/-- The errors of a source; none if it assembles. -/
def Assembler.errors (a : Assembler) (source : String) : List Error :=
  match (a.assemble source).1 with
  | .ok _ => []
  | .error errors => errors

theorem Assembler.mem_errors {a : Assembler} {source : String} {e : Error} :
    e ∈ a.errors source ↔ ∃ k, Raises a.settings a.registry source k e := by
  have hrun : e ∈ a.errors source ↔ e ∈ (run a.settings a.registry source).errors := by
    rw [errors, assemble_fst]
    by_cases hnone : (run a.settings a.registry source).errors = []
    · simp [Result.toExcept, hnone]
    · simp [Result.toExcept, hnone, byLine]
  rw [hrun, run_eq, List.mem_append, mem_first_errors, mem_second_errors]
  exact exists_or.symm

/-- How errors are numbered and withheld. -/
structure Numbered (a : Assembler) (source : String) : Prop where
  /-- The errors of a source are those that are raised on its lines. -/
  raised (e : Error) : e ∈ a.errors source ↔ ∃ k, Raises a.settings a.registry source k e
  /-- An error carries the number of its line, and a fault behind a line end that of a later one. -/
  line (k : Nat) (e : Error) : Raises a.settings a.registry source k e →
    ∃ text, (Lines.split source.toList)[k]? = some text ∧ e.line = k + 1 + Line.drift text
  /-- The second pass withholds the errors with the number of an error of the first. -/
  withheld (k : Nat) (e : Error) : Detects a.settings a.registry source k e →
    (¬ RaisesSecond a.settings a.registry source k e ↔
      ∃ j e', RaisesFirst a.settings a.registry source j e' ∧ e'.line = e.line)

/-- Every error stays on its own line. -/
structure OnOwnLine (a : Assembler) (source : String) : Prop where
  /-- It has the number of the line that it is raised on. -/
  own (e : Error) : e ∈ a.errors source → (∃ k, Raises a.settings a.registry source k e) ∧
    ∀ k, Raises a.settings a.registry source k e → e.line = k + 1
  within (e : Error) : e ∈ a.errors source → 1 ≤ e.line ∧ e.line ≤ (Lines.split source.toList).length
  /-- An error of the second pass is withheld only on a line on which the first raised one. -/
  withheld (k : Nat) (e : Error) : Detects a.settings a.registry source k e →
    ¬ RaisesSecond a.settings a.registry source k e → ∃ e', RaisesFirst a.settings a.registry source k e'

theorem numbered (a : Assembler) (source : String) : Numbered a source where
  raised _ := Assembler.mem_errors
  line _ _ h := ⟨_, List.getElem?_eq_getElem h.lt, h.line (List.getElem?_eq_getElem h.lt)⟩
  withheld _ _ h := withheld_iff h

theorem onOwnLine {a : Assembler} {source : String} (h : ∀ text ∈ Lines.split source.toList, Line.drift text = 0) :
    OnOwnLine a source := by
  have hown (k : Nat) (e : Error) (he : Raises a.settings a.registry source k e) : e.line = k + 1 := by
    rw [he.line (List.getElem?_eq_getElem he.lt), h _ (List.getElem_mem he.lt), Nat.add_zero]
  refine ⟨fun e he => ⟨Assembler.mem_errors.1 he, fun k => hown k e⟩, fun e he => ?_, fun k e hdetects hwithheld => ?_⟩
  · obtain ⟨k, hk⟩ := Assembler.mem_errors.1 he
    have hlt := hk.lt
    have hline := hown k e hk
    omega
  · obtain ⟨j, e', he', hline⟩ := (withheld_iff hdetects).1 hwithheld
    -- both errors stay on their lines, so these are the same
    have hk : e.line = k + 1 := by
      have hlt := reportedBy_lt hdetects
      rw [(reportedBy_isAt (List.getElem?_eq_getElem hlt) hdetects).1, h _ (List.getElem_mem hlt), Nat.add_zero]
    have hj := hown j e' (.inl he')
    obtain rfl : j = k := by omega
    exact ⟨e', he'⟩

/-- A line with a drift fails in the first pass. -/
theorem exists_raisesFirst_of_drift (settings : Settings) (registry : Macro.Registry) {source : String} {k : Nat}
    {text : List Char} (htext : (Lines.split source.toList)[k]? = some text) (h : Line.drift text ≠ 0) :
    ∃ e, RaisesFirst settings registry source k e := by
  have hk := (List.getElem?_eq_some_iff.1 htext).1
  cases hread : Line.read text (k + 1) with
  | ok l => exact absurd (Line.drift_of_read hread) h
  | error e =>
    refine ⟨⟨.unreadable e.cause, e.line, e.column, .first⟩, _, _, .line hk, ?_⟩
    rw [laidOut, laidOut, pass_take_succ (readSource_getElem? htext), hread]
    simp [Layout.sourceLine, Layout.report, fresh]

theorem exists_raises_of_drift (a : Assembler) {source : String} {k : Nat} {text : List Char}
    (htext : (Lines.split source.toList)[k]? = some text) (h : Line.drift text ≠ 0) :
    ∃ e, Raises a.settings a.registry source k e :=
  (exists_raisesFirst_of_drift a.settings a.registry htext h).imp fun _ => .inl

/-- Every error names a line on which it is raised, moved down by the line ends in front of a fault, and
an error of the second pass is withheld for one of the first with the same number. So all errors stay on
their own lines if and only if no line has a line end in front of its first fault, as in every source
without carriage returns. -/
theorem errors_name_lines (a : Assembler) (source : String) :
    Numbered a source ∧
      (OnOwnLine a source ↔ ∀ text ∈ Lines.split source.toList, Line.drift text = 0) ∧
      ('\r' ∉ source.toList → OnOwnLine a source) := by
  refine ⟨numbered a source, ⟨fun h text ht => ?_, onOwnLine⟩, fun h => onOwnLine fun text ht => Line.drift_eq_zero ht h⟩
  obtain ⟨k, hk⟩ := List.getElem?_of_mem ht
  by_contra hdrift
  obtain ⟨e, he⟩ := exists_raises_of_drift a hk hdrift
  have hline := he.line hk
  have hown := (h.own e (Assembler.mem_errors.2 ⟨k, he⟩)).2 k he
  omega

/-- A source whose first line has a fault behind a carriage return. -/
def withReturn : String :=
  "NOP\r^\nJMP nowhere"

/-- The fault is reported on the second line and hides what the second pass finds there. -/
theorem errors_name_lines_return :
    ((⟨{}, .builtin, .idle⟩ : Assembler).errors withReturn).map (fun e => (e.line, e.kind)) = [(2, .syntaxError)] ∧
      (reportedBy {} .builtin withReturn (environment {} .builtin withReturn).unfiltered 1).map (fun e => (e.line, e.kind)) =
        [(2, .undefinedSymbol)] ∧
      ¬ OnOwnLine ⟨{}, .builtin, .idle⟩ withReturn := by
  refine ⟨by decide +kernel, by decide +kernel, fun h => ?_⟩
  have hdrift := (errors_name_lines ⟨{}, .builtin, .idle⟩ withReturn).2.1.1 h ['N', 'O', 'P', '\r', '^'] (by decide +kernel)
  revert hdrift
  decide +kernel

end Mos6502
