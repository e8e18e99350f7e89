import Mos6502.Proofs.Numbering
import Mos6502.Proofs.Passes

/-!
# Equates are equations

An equate is an equation between a name and the value of an expression, and a
label is one between its name and the place it stands at. The first pass defines
a name once its expression has a value, and at the end it goes round the
equations that still wait until a round changes nothing.

In an accepted source every equation of every line holds of the finished table
(`Accepted.equation_holds`). A source of equates alone is accepted if and only if
its equations have a least solution, and that is the table then
(`Accepted.least`, `accepted_of_least`), so the order of its lines does not
matter.

Main statement: `equates_solve_equations`.
-/
namespace Mos6502.Assembly

/-! ## Equations -/

/-- A name and the expression for its value. -/
structure Equation where
  name : String
  value : Expr
  /-- What `*` stands for in the expression. -/
  address : UInt16
deriving DecidableEq

def Pending.equation (p : Pending) : Equation :=
  ⟨p.name, p.value, p.address⟩

namespace Equation

/-- The name has the value of the expression. -/
def Holds (q : Equation) (t : SymbolTable) : Prop :=
  ∃ a : UInt16, t.address? q.name = some a ∧ q.value.eval t q.address = .ok a.toNat

/-- The expression has no value. -/
def Stuck (q : Equation) (t : SymbolTable) : Prop :=
  ∃ u, q.value.eval t q.address = .error u

theorem Holds.extends {q : Equation} {t u : SymbolTable} (h : q.Holds t) (hx : t.Extends u) : q.Holds u := by
  obtain ⟨a, ha, hv⟩ := h
  exact ⟨a, hx _ _ ha, Expr.eval_extends hx hv⟩

theorem Holds.not_stuck {q : Equation} {t : SymbolTable} (h : q.Holds t) : ¬ q.Stuck t := by
  rintro ⟨u, hu⟩
  obtain ⟨a, -, hv⟩ := h
  cases hv.symm.trans hu

/-- What a line that stands at an address says of its label and of its equate. -/
def ofLine (l : Line) (address : UInt16) : List Equation :=
  (l.label.map fun name => ⟨name, .here, address⟩).toList ++
    match l.statement with
    | some (.equate name e) => [⟨name, e, address⟩]
    | _ => []

end Equation

/-! ## The first pass -/

namespace Layout

/-- The equation holds already, or it waits for a symbol. -/
def Covers (s : Layout) (q : Equation) : Prop :=
  q.Holds s.symbols ∨ ∃ p ∈ s.pending, p.equation = q

theorem assign_pending (s : Layout) (name : String) (v : Int) (line column : Nat) :
    (s.assign name v line column).pending = s.pending := by
  unfold assign define
  split
  · split <;> rfl
  · rfl

theorem assign_holds {s : Layout} {q : Equation} {v : Int} {line column : Nat}
    (hv : q.value.eval s.symbols q.address = .ok v) (he : (s.assign q.name v line column).errors = #[]) :
    q.Holds (s.assign q.name v line column).symbols := by
  have hx := (assign_extends s q.name v line column).symbols
  have hv' := Expr.eval_extends hx hv
  cases ha : valueAddress? v with
  | none => simp [assign, ha, report] at he
  | some a =>
    obtain rfl := valueAddress?_eq_some.1 ha
    refine ⟨a, ?_, hv'⟩
    simp only [assign, ha, define] at he ⊢
    cases hd : s.symbols.define ⟨q.name, a, line⟩ with
    | error old => simp [hd, report] at he
    | ok symbols => rw [SymbolTable.address?_define hd, if_pos rfl]

theorem equate_covers {s : Layout} {name : String} {e : Expr} {l : Line} (he : (s.equate name e l).errors = #[]) :
    (s.equate name e l).Covers ⟨name, e, s.address⟩ := by
  unfold equate at he ⊢
  split at he
  · rename_i v hv
    exact .inl (assign_holds (q := ⟨name, e, s.address⟩) hv he)
  · exact .inr ⟨_, Array.mem_push_self, rfl⟩

theorem Covers.keep {s s' : Layout} {q : Equation} (h : s.Covers q) (hx : s.Extends s')
    (hp : ∀ p ∈ s.pending, p ∈ s'.pending) : s'.Covers q := by
  rcases h with h | ⟨p, hmem, rfl⟩
  · exact .inl (h.extends hx.symbols)
  · exact .inr ⟨p, hp p hmem, rfl⟩

/-- An equation that is covered stays so. -/
theorem steps_covers : Steps fun s s' => ∀ q, s.Covers q → s'.Covers q where
  refl s q hq := hq
  trans hst htu q hq := htu q (hst q hq)
  report s line column cause q hq := hq.keep (report_extends _ _ _ _) fun p hp => hp
  advance s size q hq := hq
  label s name line q hq := by
    refine hq.keep (steps_extends.label _ _ _) fun p hp => ?_
    unfold Layout.label define
    split
    · split <;> exact hp
    · exact hp
  equate s name value line q hq := by
    refine hq.keep (steps_extends.equate _ _ _ _) fun p hp => ?_
    unfold Layout.equate
    split
    · rwa [assign_pending]
    · exact Array.mem_push_of_mem _ hp
  setOrigin s value line q hq := by
    refine hq.keep (steps_extends.setOrigin _ _ _) fun p hp => ?_
    unfold Layout.setOrigin
    split
    · exact hp
    · split <;> exact hp

/-- A line that is laid out without an error covers what it says of its label and its equate. -/
theorem line_covers {registry : Macro.Registry} {limit levels : Nat} {s : Layout} {l : Line}
    (he : (s.line registry limit levels l).1.errors = #[]) {q : Equation} (hq : q ∈ Equation.ofLine l s.address) :
    (s.line registry limit levels l).1.Covers q := by
  rcases List.mem_append.1 hq with hq | hq
  · obtain ⟨name, hname, rfl⟩ := Option.map_eq_some_iff.1 (Option.mem_toList.1 hq)
    obtain ⟨a, hcursor, ha⟩ := line_label hname he
    have haddress : s.address = a := by
      unfold cursorAddress? at hcursor
      split at hcursor
      · exact Option.some.inj hcursor
      · cases hcursor
    exact .inl ⟨a, ha, by rw [← haddress]; rfl⟩
  · cases hst : l.statement with
    | none => simp [hst] at hq
    | some st =>
      cases st with
      | equate name e =>
        obtain rfl : q = ⟨name, e, s.address⟩ := by simpa [hst] using hq
        have haddress : (s.labelled l).address = s.address := by rw [address, labelled_cursor, address]
        simp only [line_eq, hst] at he ⊢
        rw [← haddress]
        exact equate_covers he
      | _ => simp [hst] at hq

/-! ## Waiting equates -/

/-- Tries one equate that waits. -/
def attempt (s : Layout) (p : Pending) : Layout :=
  match p.value.eval s.symbols p.address with
  | .ok v => s.assign p.name v p.line p.column
  | .error _ => { s with pending := s.pending.push p }

theorem retry_eq (s : Layout) : s.retry = s.pending.toList.foldl attempt { s with pending := #[] } := by
  rw [retry, ← Array.foldl_toList]
  rfl

/-- What trying some equates does: none of them is lost, and either one is settled or they all wait on and
nothing else changes. -/
structure Tried (ps : List Pending) (s t : Layout) : Prop where
  grows : s.Extends t
  kept : ∀ p ∈ s.pending, p ∈ t.pending
  waiting : ∀ p ∈ t.pending, p ∈ s.pending ∨ p ∈ ps
  covers : t.errors = #[] → ∀ p ∈ ps, t.Covers p.equation
  progress : t.pending.size < s.pending.size + ps.length ∨
    t.pending.size = s.pending.size + ps.length ∧ t.symbols = s.symbols ∧ ∀ p ∈ ps, p.equation.Stuck s.symbols

theorem Tried.trans {ps qs : List Pending} {s t u : Layout} (h : Tried ps s t) (k : Tried qs t u) :
    Tried (ps ++ qs) s u where
  grows := h.grows.trans k.grows
  kept p hp := k.kept p (h.kept p hp)
  waiting p hp := by
    rcases k.waiting p hp with hp | hp
    · exact (h.waiting p hp).imp_right (List.mem_append_left _)
    · exact .inr (List.mem_append_right _ hp)
  covers he p hp := by
    rcases List.mem_append.1 hp with hp | hp
    · exact (h.covers (k.grows.noErrors he) p hp).keep k.grows k.kept
    · exact k.covers he p hp
  progress := by
    rw [List.length_append]
    rcases h.progress with hlt | ⟨hsize, hsymbols, hstuck⟩
    · have := k.progress
      exact .inl (by omega)
    · rcases k.progress with hlt | ⟨hsize', hsymbols', hstuck'⟩
      · exact .inl (by omega)
      · refine .inr ⟨by omega, hsymbols'.trans hsymbols, fun p hp => ?_⟩
        rcases List.mem_append.1 hp with hp | hp
        · exact hstuck p hp
        · rw [← hsymbols]
          exact hstuck' p hp

theorem tried_attempt (s : Layout) (p : Pending) : Tried [p] s (s.attempt p) := by
  cases hv : p.value.eval s.symbols p.address with
  | ok v =>
    have hs : s.attempt p = s.assign p.name v p.line p.column := by simp only [attempt, hv]
    rw [hs]
    refine ⟨assign_extends _ _ _ _ _, ?_, ?_, ?_, .inl ?_⟩
    · intro r hr
      rwa [assign_pending]
    · intro r hr
      rw [assign_pending] at hr
      exact .inl hr
    · intro he r hr
      obtain rfl := List.mem_singleton.1 hr
      exact .inl (assign_holds (q := r.equation) hv he)
    · rw [assign_pending]
      exact Nat.lt_succ_self _
  | error u =>
    have hs : s.attempt p = { s with pending := s.pending.push p } := by simp only [attempt, hv]
    rw [hs]
    refine ⟨⟨.refl _, List.prefix_rfl⟩, ?_, ?_, ?_, .inr ⟨by simp, rfl, ?_⟩⟩
    · intro r hr
      exact Array.mem_push_of_mem _ hr
    · intro r hr
      simpa using hr
    · intro _ r hr
      obtain rfl := List.mem_singleton.1 hr
      exact .inr ⟨r, Array.mem_push_self, rfl⟩
    · intro r hr
      obtain rfl := List.mem_singleton.1 hr
      exact ⟨u, hv⟩

theorem tried_attempts (ps : List Pending) (s : Layout) : Tried ps s (ps.foldl attempt s) := by
  induction ps generalizing s with
  | nil => exact ⟨.refl _, fun p hp => hp, fun p hp => .inl hp, by simp, .inr ⟨rfl, rfl, by simp⟩⟩
  | cons p ps ih => exact (tried_attempt s p).trans (ih (s.attempt p))

/-- One round: what waits afterwards waited before, and if that is all of it then all of it is stuck. -/
theorem retry_waiting (s : Layout) :
    (∀ p ∈ s.retry.pending, p ∈ s.pending) ∧ (s.retry.errors = #[] → ∀ p ∈ s.pending, s.retry.Covers p.equation) ∧
      (s.retry.pending.size < s.pending.size ∨
        s.retry.symbols = s.symbols ∧ ∀ p ∈ s.pending, p.equation.Stuck s.symbols) := by
  have h := tried_attempts s.pending.toList { s with pending := #[] }
  rw [← retry_eq] at h
  refine ⟨fun p hp => ?_, fun he p hp => h.covers he p (Array.mem_toList_iff.2 hp), ?_⟩
  · rcases h.waiting p hp with hp | hp
    · simp at hp
    · exact Array.mem_toList_iff.1 hp
  · rcases h.progress with hlt | ⟨-, hsymbols, hstuck⟩
    · exact .inl (by simpa using hlt)
    · exact .inr ⟨hsymbols, fun p hp => hstuck p (Array.mem_toList_iff.2 hp)⟩

/-- After the last round every equation that waited holds or is stuck. -/
theorem settle_covers {s : Layout} (he : s.settle.errors = #[]) :
    (∀ p ∈ s.pending, s.settle.Covers p.equation) ∧ ∀ p ∈ s.settle.pending, p.equation.Stuck s.settle.symbols := by
  fun_induction settle s with
  | case1 s next hlt ih =>
    obtain ⟨hcovers, hstuck⟩ := ih he
    refine ⟨fun p hp => ?_, hstuck⟩
    -- what this round leaves over is covered by the later ones
    rcases (retry_waiting s).2.1 ((settle_extends next).noErrors he) p hp with hholds | ⟨r, hr, hrp⟩
    · exact .inl (hholds.extends (settle_extends next).symbols)
    · rw [← hrp]
      exact hcovers r hr
  | case2 s next hlt =>
    obtain ⟨hwaiting, hcovers, hprogress⟩ := retry_waiting s
    refine ⟨hcovers he, fun p hp => ?_⟩
    rcases hprogress with h | ⟨hsymbols, hstuck⟩
    · exact absurd h hlt
    · rw [show next.symbols = s.symbols from hsymbols]
      exact hstuck p (hwaiting p hp)

/-- Reports an equate if it is stuck. -/
def reportStuck (s : Layout) (p : Pending) : Layout :=
  match p.value.eval s.symbols p.address with
  | .ok _ => s
  | .error u => s.report p.line p.column (.unresolved p.name u.name)

theorem reportPending_eq (s : Layout) : s.reportPending = s.pending.toList.foldl reportStuck s := by
  rw [reportPending, ← Array.foldl_toList]
  rfl

theorem reportStuck_extends (s : Layout) (p : Pending) : s.Extends (s.reportStuck p) := by
  unfold reportStuck
  split
  · exact .refl _
  · exact report_extends _ _ _ _

/-- Stuck equates are reported, so without an error there are none. -/
theorem pending_eq_empty {s : Layout} (hstuck : ∀ p ∈ s.pending, p.equation.Stuck s.symbols)
    (he : s.reportPending.errors = #[]) : s.pending = #[] := by
  rw [← Array.toList_eq_nil_iff]
  rw [reportPending_eq] at he
  cases hps : s.pending.toList with
  | nil => rfl
  | cons p ps =>
    obtain ⟨u, hu⟩ := hstuck p (by rw [← Array.mem_toList_iff, hps]; exact List.mem_cons_self)
    have hp : s.reportStuck p = s.report p.line p.column (.unresolved p.name u.name) := by
      simp only [reportStuck, show p.value.eval s.symbols p.address = .error u from hu]
    -- the reports after the first take nothing back
    have hx := foldl_rel Extends.refl Extends.trans id reportStuck reportStuck_extends ps (s.reportStuck p)
    rw [hps, List.foldl_cons] at he
    have := hx.noErrors he
    simp [hp, report] at this

theorem reportPending_of_empty {s : Layout} (h : s.pending = #[]) : s.reportPending = s := by
  rw [reportPending_eq, h]
  rfl

/-- If the pass ends without an error, every equation that was covered before the rounds holds at the end. -/
theorem finish_holds {s : Layout} (he : s.settle.reportPending.errors = #[]) {q : Equation} (hq : s.Covers q) :
    q.Holds s.settle.reportPending.symbols := by
  have hs := (reportPending_extends s.settle).noErrors he
  obtain ⟨hcovers, hstuck⟩ := settle_covers hs
  have hempty := pending_eq_empty hstuck he
  rw [reportPending_of_empty hempty]
  have hq : s.settle.Covers q := by
    rcases hq with hq | ⟨p, hp, rfl⟩
    · exact .inl (hq.extends (settle_extends s).symbols)
    · exact hcovers p hp
  rcases hq with hq | ⟨p, hp, -⟩
  · exact hq
  · simp [hempty] at hp

end Layout

/-- In an accepted source, what a line says of its label and its equate holds of the finished table. -/
theorem Accepted.equation_holds {settings : Settings} {registry : Macro.Registry} {source : String}
    (h : Accepted settings registry source) {k : Nat} {text : List Char} {l : Line}
    (hl : (readSource source)[k]? = some (text, .ok l)) {q : Equation}
    (hq : q ∈ Equation.ofLine l (UInt16.ofNat (firstCursor settings registry source k))) :
    q.Holds (Layout.run registry settings.maxDepth (parsed source)).1.symbols := by
  have he := h.pass_errors (k + 1)
  rw [pass_take_succ hl] at he
  have hcovers := Layout.line_covers he hq
  have hrest := Layout.steps_covers.pass registry settings.maxDepth ((parsed source).take (k + 1))
    ((parsed source).drop (k + 1)) q
  rw [List.take_append_drop, pass_take_succ hl] at hrest
  have hend := h.first
  rw [Layout.run_fst] at hend ⊢
  exact Layout.finish_holds hend (hrest hcovers)

/-! ## Solutions -/

namespace Equation

/-- Every equation holds or has no value. -/
def Closed (qs : List Equation) (u : SymbolTable) : Prop :=
  ∀ q ∈ qs, q.Holds u ∨ q.Stuck u

/-- All equations hold, and no closed table has less. -/
structure Least (qs : List Equation) (t : SymbolTable) : Prop where
  holds : ∀ q ∈ qs, q.Holds t
  least : ∀ u, Closed qs u → t.Extends u

theorem Least.closed {qs : List Equation} {t : SymbolTable} (h : Least qs t) : Closed qs t :=
  fun q hq => .inl (h.holds q hq)

theorem Least.congr {qs rs : List Equation} (hmem : ∀ q, q ∈ qs ↔ q ∈ rs) {t : SymbolTable} (h : Least qs t) :
    Least rs t where
  holds q hq := h.holds q ((hmem q).2 hq)
  least u hu := h.least u fun q hq => hu q ((hmem q).1 hq)

end Equation

namespace Layout

/-- Nothing is reported, and nothing is defined or waits that the equations and the table do not have. -/
structure Below (qs : List Equation) (u : SymbolTable) (s : Layout) : Prop where
  symbols : s.symbols.Extends u
  errors : s.errors = #[]
  pending : ∀ p ∈ s.pending, p.equation ∈ qs

namespace Below
variable {qs : List Equation} {u : SymbolTable} {s : Layout}

theorem define (h : Below qs u s) {name : String} {a : UInt16} (ha : u.address? name = some a) (line column : Nat) :
    Below qs u (s.define name a line column) := by
  obtain ⟨t, hdefine, hx⟩ := SymbolTable.define_below (s := ⟨name, a, line⟩) h.symbols ha
  simp only [Layout.define, hdefine]
  exact ⟨hx, h.errors, h.pending⟩

/-- An equation that holds of the table is assigned its value there. -/
theorem assign (h : Below qs u s) {q : Equation} (hq : q.Holds u) {v : Int}
    (hv : q.value.eval s.symbols q.address = .ok v) (line column : Nat) :
    Below qs u (s.assign q.name v line column) := by
  obtain ⟨a, ha, hva⟩ := hq
  obtain rfl : v = a.toNat := by
    rw [Expr.eval_extends h.symbols hv] at hva
    exact Except.ok.inj hva
  simp only [Layout.assign, valueAddress?_word]
  exact h.define ha line column

theorem push (h : Below qs u s) {p : Pending} (hp : p.equation ∈ qs) :
    Below qs u { s with pending := s.pending.push p } := by
  refine ⟨h.symbols, h.errors, fun r hr => ?_⟩
  rcases Array.mem_push.1 hr with hr | rfl
  · exact h.pending r hr
  · exact hp

/-- An equation with a value in the part has one in the whole table. -/
theorem holds (h : Below qs u s) (hc : Equation.Closed qs u) {q : Equation} (hq : q ∈ qs) {v : Int}
    (hv : q.value.eval s.symbols q.address = .ok v) : q.Holds u := by
  rcases hc q hq with hq | ⟨w, hw⟩
  · exact hq
  · cases (Expr.eval_extends h.symbols hv).symm.trans hw

theorem attempt (h : Below qs u s) (hc : Equation.Closed qs u) {p : Pending} (hp : p.equation ∈ qs) :
    Below qs u (s.attempt p) := by
  unfold Layout.attempt
  split
  · rename_i v hv
    exact h.assign (q := p.equation) (h.holds hc hp hv) hv _ _
  · exact h.push hp

theorem attempts (h : Below qs u s) (hc : Equation.Closed qs u) {ps : List Pending} (hps : ∀ p ∈ ps, p.equation ∈ qs) :
    Below qs u (ps.foldl Layout.attempt s) := by
  induction ps generalizing s with
  | nil => exact h
  | cons p ps ih =>
    rw [List.foldl_cons]
    exact ih (h.attempt hc (hps p List.mem_cons_self)) fun r hr => hps r (List.mem_cons_of_mem _ hr)

theorem retry (h : Below qs u s) (hc : Equation.Closed qs u) : Below qs u s.retry := by
  rw [retry_eq]
  have hstart : Below qs u { s with pending := #[] } := ⟨h.symbols, h.errors, by simp⟩
  exact hstart.attempts hc fun p hp => h.pending p (Array.mem_toList_iff.1 hp)

theorem settle (h : Below qs u s) (hc : Equation.Closed qs u) : Below qs u s.settle := by
  fun_induction Layout.settle s with
  | case1 s next hlt ih => exact ih (h.retry hc)
  | case2 s next hlt => exact h.retry hc

theorem labelled (h : Below qs u s) (hc : Equation.Closed qs u) {l : Line}
    (hl : ∀ name, l.label = some name → ⟨name, .here, s.address⟩ ∈ qs) (hcursor : s.cursor < 65536) :
    Below qs u (s.labelled l) := by
  unfold Layout.labelled
  split
  · rename_i name hname
    obtain ⟨a, ha, hva⟩ := h.holds hc (hl name hname) rfl
    obtain rfl : s.address = a := UInt16.toNat_inj.1 (Int.ofNat.inj (Except.ok.inj hva))
    simp only [label, cursorAddress?, if_pos hcursor]
    exact h.define ha _ _
  · exact h

theorem equate (h : Below qs u s) (hc : Equation.Closed qs u) {name : String} {e : Expr} (l : Line)
    (hq : ⟨name, e, s.address⟩ ∈ qs) : Below qs u (s.equate name e l) := by
  unfold Layout.equate
  split
  · rename_i v hv
    exact h.assign (q := ⟨name, e, s.address⟩) (h.holds hc hq hv) hv _ _
  · exact h.push hq

end Below

end Layout

/-! ## Sources of equates alone -/

/-- The line was read as an equate. -/
def IsEquate (x : Except LineError Line) : Prop :=
  ∃ l name e, x = .ok l ∧ l.statement = some (.equate name e)

instance : DecidablePred IsEquate
  | .error _ => .isFalse (by simp [IsEquate])
  | .ok l => decidable_of_iff (l.statement.any fun | .equate _ _ => true | _ => false) (by
      cases hst : l.statement with
      | none => simp [IsEquate, hst]
      | some st => cases st <;> simp [IsEquate, hst])

/-- What the lines say of their labels and equates if they all stand at address zero. -/
def equationsOf (lines : List (Except LineError Line)) : List Equation :=
  lines.flatMap fun
    | .ok l => Equation.ofLine l 0
    | .error _ => []

namespace Layout
variable (registry : Macro.Registry) (limit : Nat) {lines : List (Except LineError Line)}

theorem pass_cursor (hlines : ∀ x ∈ lines, IsEquate x) : (pass registry limit lines).1.cursor = 0 := by
  induction lines using List.reverseRecOn with
  | nil => rfl
  | append_singleton lines x ih =>
    obtain ⟨l, name, e, rfl, hst⟩ := hlines x (by simp)
    have ih := ih fun y hy => hlines y (List.mem_append_left _ hy)
    rw [pass_concat]
    simp only [sourceLine, line_eq, hst]
    rw [equate_cursor, labelled_cursor, ih]

theorem pass_address (hlines : ∀ x ∈ lines, IsEquate x) : (pass registry limit lines).1.address = 0 := by
  rw [address, pass_cursor registry limit hlines]
  rfl

/-- No equation of the lines is lost. -/
theorem pass_covers (hlines : ∀ x ∈ lines, IsEquate x) (he : (pass registry limit lines).1.errors = #[])
    {q : Equation} (hq : q ∈ equationsOf lines) : (pass registry limit lines).1.Covers q := by
  induction lines using List.reverseRecOn with
  | nil => simp [equationsOf] at hq
  | append_singleton lines x ih =>
    obtain ⟨l, name, e, rfl, hst⟩ := hlines x (by simp)
    have hbefore : ∀ y ∈ lines, IsEquate y := fun y hy => hlines y (List.mem_append_left _ hy)
    rw [pass_concat] at he ⊢
    have hsteps := steps_covers.sourceLine registry limit (pass registry limit lines).1 (.ok l) q
    have hx := steps_extends.sourceLine registry limit (pass registry limit lines).1 (.ok l)
    rw [equationsOf, List.flatMap_append] at hq
    rcases List.mem_append.1 hq with hq | hq
    · exact hsteps (ih hbefore (hx.noErrors he) hq)
    · refine line_covers he ?_
      rw [pass_address registry limit hbefore]
      simpa using hq

/-- The pass over equates stays below every table that is closed under them. -/
theorem pass_below {qs : List Equation} {u : SymbolTable} (hc : Equation.Closed qs u)
    (hlines : ∀ x ∈ lines, IsEquate x) (hqs : ∀ q ∈ equationsOf lines, q ∈ qs) :
    Below qs u (pass registry limit lines).1 := by
  induction lines using List.reverseRecOn with
  | nil => exact ⟨nofun, rfl, by simp [pass, start]⟩
  | append_singleton lines x ih =>
    obtain ⟨l, name, e, rfl, hst⟩ := hlines x (by simp)
    have hbefore : ∀ y ∈ lines, IsEquate y := fun y hy => hlines y (List.mem_append_left _ hy)
    have hl : ∀ q ∈ Equation.ofLine l 0, q ∈ qs := fun q hq => hqs q (by simp [equationsOf, hq])
    have ih := ih hbefore fun q hq => hqs q (by
      rw [equationsOf, List.flatMap_append]
      exact List.mem_append_left _ hq)
    have hcursor := pass_cursor registry limit hbefore
    have haddress := pass_address registry limit hbefore
    rw [pass_concat]
    simp only [sourceLine, line_eq, hst]
    generalize (pass registry limit lines).1 = s at *
    have hlabelled : Below qs u (s.labelled l) := by
      refine ih.labelled hc (fun label hlabel => ?_) (by omega)
      exact hl _ (by simp [Equation.ofLine, hlabel, haddress])
    refine hlabelled.equate hc l (hl _ ?_)
    have : (s.labelled l).address = 0 := by rw [address, labelled_cursor, ← address, haddress]
    simp [Equation.ofLine, hst, this]

end Layout

/-- The second pass has nothing to do for equates. -/
theorem Emission.run_equates (env : Setting) {lines : List (SourceLine × Plan)}
    (hlines : ∀ x ∈ lines, IsEquate x.1.2) : (run env lines).1 = start := by
  induction lines using List.reverseRecOn with
  | nil => rfl
  | append_singleton lines x ih =>
    obtain ⟨⟨text, y⟩, plan⟩ := x
    obtain ⟨l, name, e, rfl, hst⟩ := hlines _ (List.mem_append_right _ List.mem_cons_self)
    have ih := ih fun z hz => hlines z (List.mem_append_left _ hz)
    rw [run_concat, ih]
    simp only [line_eq, hst]
    unfold labelled
    split <;> rfl

section Source
variable {settings : Settings} {registry : Macro.Registry} {source : String}

theorem planned_equates (ho : ∀ x ∈ parsed source, IsEquate x) :
    ∀ x ∈ planned settings registry source, IsEquate x.1.2 := by
  rintro ⟨line, plan⟩ hx
  exact ho _ (List.mem_map_of_mem (List.of_mem_zip hx).1)

/-- The table of an accepted source of equates is the least solution of their equations. -/
theorem Accepted.least (h : Accepted settings registry source) (ho : ∀ x ∈ parsed source, IsEquate x) :
    Equation.Least (equationsOf (parsed source)) (Layout.run registry settings.maxDepth (parsed source)).1.symbols := by
  have hend := h.first
  rw [Layout.run_fst] at hend ⊢
  have hsettle := (Layout.reportPending_extends _).noErrors hend
  have hpass := (Layout.settle_extends _).noErrors hsettle
  refine ⟨fun q hq => ?_, fun u hu => ?_⟩
  · exact Layout.finish_holds hend (Layout.pass_covers _ _ ho hpass hq)
  · have hbelow := (Layout.pass_below registry settings.maxDepth hu ho fun q hq => hq).settle hu
    rw [Layout.reportPending_of_empty (Layout.pending_eq_empty (Layout.settle_covers hsettle).2 hend)]
    exact hbelow.symbols

/-- If the equations of a source of equates have a least solution, the source is accepted. -/
theorem accepted_of_least (ho : ∀ x ∈ parsed source, IsEquate x) {t : SymbolTable}
    (h : Equation.Least (equationsOf (parsed source)) t) : Accepted settings registry source := by
  have hpass := Layout.pass_below registry settings.maxDepth h.closed ho fun q hq => hq
  have hsettle := hpass.settle h.closed
  obtain ⟨hcovers, hstuck⟩ := Layout.settle_covers hsettle.errors
  have hx := (Layout.settle_extends (Layout.pass registry settings.maxDepth (parsed source)).1).symbols
  generalize hend : (Layout.pass registry settings.maxDepth (parsed source)).1.settle = s at *
  -- every equation holds at the end or is stuck there, so the end is closed
  have hclosed : Equation.Closed (equationsOf (parsed source)) s.symbols := by
    intro q hq
    rcases Layout.pass_covers _ _ ho hpass.errors hq with hholds | ⟨p, hp, rfl⟩
    · exact .inl (hholds.extends hx)
    · rcases hcovers p hp with hholds | ⟨r, hr, hrp⟩
      · exact .inl hholds
      · exact .inr (hrp ▸ hstuck r hr)
  have hle := h.least s.symbols hclosed
  have hempty : s.pending = #[] := by
    refine Array.eq_empty_iff_forall_not_mem.2 fun p hp => ?_
    have hholds := (h.holds _ (hsettle.pending p hp)).extends hle
    exact hholds.not_stuck (hstuck p hp)
  constructor
  · rw [Layout.run_fst, hend, Layout.reportPending_of_empty hempty]
    exact hsettle.errors
  · rw [Emission.run_equates _ (planned_equates ho)]
    rfl

/-! ## The order of the lines -/

theorem isEquate_readDown {d : Nat} {x : Except LineError Line} : IsEquate (Line.readDown d x) ↔ IsEquate x := by
  cases x with
  | error e => simp [IsEquate, Line.readDown]
  | ok l => simp [IsEquate, Line.readDown, Line.down]

theorem mem_parsed {x : Except LineError Line} :
    x ∈ parsed source ↔
      ∃ (i : Nat) (text : List Char), (Lines.split source.toList)[i]? = some text ∧
        x = Line.readDown i (Line.read text 1) := by
  simp only [parsed, readSource, List.mem_map, List.mem_mapIdx, Nat.add_comm _ 1, Line.read_down]
  grind

/-- Whether the lines are equates does not depend on where they stand. -/
theorem forall_isEquate_parsed :
    (∀ x ∈ parsed source, IsEquate x) ↔ ∀ text ∈ Lines.split source.toList, IsEquate (Line.read text 1) := by
  constructor
  · intro h text htext
    obtain ⟨i, hi⟩ := List.mem_iff_getElem?.1 htext
    exact isEquate_readDown.1 (h _ (mem_parsed.2 ⟨i, text, hi, rfl⟩))
  · intro h x hx
    obtain ⟨i, text, hi, rfl⟩ := mem_parsed.1 hx
    exact isEquate_readDown.2 (h text (List.mem_of_getElem? hi))

/-- Nor do their equations. -/
theorem mem_equationsOf_parsed {q : Equation} :
    q ∈ equationsOf (parsed source) ↔ ∃ text ∈ Lines.split source.toList, q ∈ equationsOf [Line.read text 1] := by
  have hdown (i : Nat) (text : List Char) :
      equationsOf [Line.readDown i (Line.read text 1)] = equationsOf [Line.read text 1] := by
    cases Line.read text 1 <;> rfl
  have hmem : q ∈ equationsOf (parsed source) ↔ ∃ x ∈ parsed source, q ∈ equationsOf [x] := by
    simp [equationsOf]
  rw [hmem]
  constructor
  · rintro ⟨x, hx, hq⟩
    obtain ⟨i, text, hi, rfl⟩ := mem_parsed.1 hx
    exact ⟨text, List.mem_of_getElem? hi, hdown i text ▸ hq⟩
  · rintro ⟨text, htext, hq⟩
    obtain ⟨i, hi⟩ := List.mem_iff_getElem?.1 htext
    exact ⟨_, mem_parsed.2 ⟨i, text, hi, rfl⟩, (hdown i text).symm ▸ hq⟩

theorem isEquate_reorder {source' : String} (hperm : (Lines.split source'.toList).Perm (Lines.split source.toList))
    (ho : ∀ x ∈ parsed source, IsEquate x) : ∀ x ∈ parsed source', IsEquate x :=
  forall_isEquate_parsed.2 fun text htext => forall_isEquate_parsed.1 ho text (hperm.mem_iff.1 htext)

/-- An accepted source of equates is accepted in any order of its lines, and every name keeps its value. -/
theorem Accepted.reorder (h : Accepted settings registry source) (ho : ∀ x ∈ parsed source, IsEquate x)
    {source' : String} (hperm : (Lines.split source'.toList).Perm (Lines.split source.toList)) :
    Accepted settings registry source' ∧
      (Layout.run registry settings.maxDepth (parsed source)).1.symbols.Extends
        (Layout.run registry settings.maxDepth (parsed source')).1.symbols := by
  have ho' := isEquate_reorder hperm ho
  have hmem (q : Equation) : q ∈ equationsOf (parsed source) ↔ q ∈ equationsOf (parsed source') := by
    simp only [mem_equationsOf_parsed, hperm.mem_iff]
  have hleast := h.least ho
  have haccepted : Accepted settings registry source' := accepted_of_least ho' (hleast.congr hmem)
  have hleast' := (haccepted.least ho').congr fun q => (hmem q).symm
  exact ⟨haccepted, hleast.least _ hleast'.closed⟩

theorem Accepted.toExcept (h : Accepted settings registry source) :
    (run settings registry source).toExcept = .ok (run settings registry source).output := by
  refine toExcept_eq_ok ?_
  rw [run_eq]
  simp [h.first, h.second]

end Source

/-- An assembly that succeeds solves the equates as equations: each name has the value of its expression under
the finished table, with `*` at the line. Of a source that has only equates the order does not matter: it
fails in every order of its lines, or gives every name the same value in every order. -/
theorem equates_solve_equations (a : Assembler) (source : String) :
    (∀ (out : Output), (a.assemble source).1 = .ok out →
      ∀ (k : Nat) (text : List Char) (l : Line) (name : String) (e : Expr),
        (readSource source)[k]? = some (text, .ok l) → l.statement = some (.equate name e) →
        ∃ v : UInt16, out.symbols.address? name = some v ∧
          e.eval out.symbols (UInt16.ofNat (firstCursor a.settings a.registry source k)) = .ok v.toNat) ∧
    ((∀ x ∈ parsed source, IsEquate x) →
      ∀ source' : String, (Lines.split source'.toList).Perm (Lines.split source.toList) →
        match (a.assemble source).1, (a.assemble source').1 with
        | .ok out, .ok out' => ∀ name, out'.symbols.address? name = out.symbols.address? name
        | .error _, .error _ => True
        | _, _ => False) := by
  constructor
  · intro out h k text l name e hl hst
    rw [assemble_fst] at h
    obtain ⟨hacc, -, hsymbols, -⟩ := accepted_of_ok h
    rw [hsymbols]
    refine hacc.equation_holds hl (q := ⟨name, e, UInt16.ofNat _⟩) ?_
    rw [Equation.ofLine, hst]
    exact List.mem_append_right _ List.mem_cons_self
  · intro ho source' hperm
    have ho' := isEquate_reorder hperm ho
    rw [assemble_fst, assemble_fst]
    cases h : (run a.settings a.registry source).toExcept with
    | ok out =>
      obtain ⟨hacc, -, hsymbols, -⟩ := accepted_of_ok h
      obtain ⟨hacc', hx⟩ := hacc.reorder ho hperm
      obtain ⟨-, hx'⟩ := hacc'.reorder ho' hperm.symm
      rw [hacc'.toExcept, run_eq]
      dsimp only
      intro name
      rw [hsymbols]
      exact Option.ext fun v => ⟨hx' name v, hx name v⟩
    | error errors =>
      cases h' : (run a.settings a.registry source').toExcept with
      | ok out' =>
        obtain ⟨hacc', -⟩ := (accepted_of_ok h').1.reorder ho' hperm.symm
        rw [hacc'.toExcept] at h
        cases h
      | error errors' => trivial

/-- A chain of equates that only the rounds at the end can settle, and the same chain upside down. -/
theorem equates_solve_equations_chain :
    let a : Assembler := { settings := {}, registry := .builtin }
    let source := "one = two-1\ntwo = three-1\nthree = 3"
    let source' := "three = 3\ntwo = three-1\none = two-1"
    ∃ out out', (a.assemble source).1 = .ok out ∧ (a.assemble source').1 = .ok out' ∧
      out.symbols.address? "one" = some 1 ∧ out'.symbols.address? "one" = out.symbols.address? "one" ∧
      ∃ v : UInt16, out.symbols.address? "one" = some v ∧
        (Expr.sub (.symbol "two") (.number 1)).eval out.symbols 0 = .ok v.toNat := by
  intro a source source'
  have hok : (a.assemble source).1 = .ok (run a.settings a.registry source).output :=
    (assemble_fst source a).trans (toExcept_eq_ok (by decide +kernel))
  have hok' : (a.assemble source').1 = .ok (run a.settings a.registry source').output :=
    (assemble_fst source' a).trans (toExcept_eq_ok (by decide +kernel))
  obtain ⟨hsolved, hreorder⟩ := equates_solve_equations a source
  have hsame := hreorder (by decide +kernel) source' (by decide +kernel)
  rw [hok, hok'] at hsame
  refine ⟨_, _, hok, hok', by decide +kernel, hsame "one", ?_⟩
  exact hsolved _ hok 0 "one = two-1".toList ⟨1, none, some (.equate "one" (.sub (.symbol "two") (.number 1))), 0⟩ "one"
    (.sub (.symbol "two") (.number 1)) (by decide +kernel) rfl

end Mos6502.Assembly
