import Mos6502.Proofs.Batches

/-!
# How a call ends

An assembler keeps the way its last call ended: it is done after an answer without
errors, and otherwise failed with the class of the error that was found first. The
answer has its errors by line, so another one may stand first there: the one that
was found first on the smallest line. That happens if the first pass fails on a
later line than an equate that it left waiting, or than the second pass.

Main statement: `state_names_found`.
-/
namespace Mos6502

namespace Assembly

/-! ## The first error by line -/

/-- The error is the first one of the smallest line. -/
def Leads (e : Error) (errors : List Error) : Prop :=
  ∃ before after, errors = before ++ e :: after ∧ (∀ x ∈ before, e.line < x.line) ∧ ∀ x ∈ after, e.line ≤ x.line

section Leads
variable {e e' : Error} {errors : List Error}

theorem Leads.le (h : Leads e errors) : ∀ x ∈ errors, e.line ≤ x.line := by
  obtain ⟨before, after, rfl, hbefore, hafter⟩ := h
  intro x hx
  rcases List.mem_append.1 hx with hx | hx
  · exact Nat.le_of_lt (hbefore x hx)
  · rcases List.mem_cons.1 hx with rfl | hx
    · exact Nat.le_refl _
    · exact hafter x hx

theorem Leads.find?_eq (h : Leads e errors) : errors.find? (·.line = e.line) = some e := by
  obtain ⟨before, after, rfl, hbefore, -⟩ := h
  refine List.find?_eq_some_iff_append.2 ⟨by simp, before, after, rfl, fun x hx => ?_⟩
  have hlt := hbefore x hx
  simp only [Bool.not_eq_true', decide_eq_false_iff_not]
  omega

theorem leads_of_find?_eq (h : errors.find? (·.line = e.line) = some e) (hle : ∀ x ∈ errors, e.line ≤ x.line) :
    Leads e errors := by
  obtain ⟨-, before, after, rfl, hbefore⟩ := List.find?_eq_some_iff_append.1 h
  refine ⟨before, after, rfl, fun x hx => ?_, fun x hx => hle x (by simp [hx])⟩
  have hne := hbefore x hx
  have hge := hle x (by simp [hx])
  simp only [Bool.not_eq_true', decide_eq_false_iff_not] at hne
  omega

theorem Leads.mem (h : Leads e errors) : e ∈ errors :=
  List.mem_of_find?_eq_some h.find?_eq

theorem Leads.unique (h : Leads e errors) (h' : Leads e' errors) : e = e' := by
  have hline : e.line = e'.line := Nat.le_antisymm (h.le e' h'.mem) (h'.le e h.mem)
  have hfind := h'.find?_eq
  rw [← hline, h.find?_eq] at hfind
  exact Option.some.inj hfind

theorem Leads.eq_or_lt {x : Error} {xs : List Error} (h : Leads e (x :: xs)) : e = x ∨ e.line < x.line := by
  obtain ⟨before, after, heq, hbefore, -⟩ := h
  cases before with
  | nil => exact .inl (List.cons.inj heq).1.symm
  | cons y ys =>
    obtain ⟨rfl, -⟩ := List.cons.inj heq
    exact .inr (hbefore x List.mem_cons_self)

/-- An error that leads is in front if it comes from a part in front that is ordered by line. -/
theorem Leads.head?_eq (h : Leads e errors) {front : List Error} (hfront : front <+: errors)
    (hordered : front.Pairwise (·.line ≤ ·.line)) (he : e ∈ front) : errors.head? = some e := by
  obtain ⟨rest, rfl⟩ := hfront
  cases front with
  | nil => cases he
  | cons x xs =>
    have hx : ∀ y ∈ (x :: xs) ++ rest, x.line ≤ y.line := by
      intro y hy
      have hxe : x.line ≤ e.line := by
        rcases List.mem_cons.1 he with rfl | he
        · exact Nat.le_refl _
        · exact List.rel_of_pairwise_cons hordered he
      exact Nat.le_trans hxe (h.le y hy)
    have hleads : Leads x ((x :: xs) ++ rest) :=
      ⟨[], xs ++ rest, rfl, List.forall_mem_nil _, fun y hy => hx y (.tail _ hy)⟩
    rw [hleads.unique h]
    rfl

/-- By line, the first error is the first one of the smallest line. -/
theorem leads_of_byLine {es : List Error} (h : byLine errors = e :: es) : Leads e errors := by
  have hordered := byLine_ordered errors
  have hmem (x : Error) : x ∈ errors ↔ x = e ∨ x ∈ es := by
    rw [← (byLine_perm errors).mem_iff, h, List.mem_cons]
  rw [h] at hordered
  apply leads_of_find?_eq
  · -- the errors of its line were not moved past each other
    have hfilter := byLine_filter errors e.line
    rw [h, List.filter_cons_of_pos (by simp)] at hfilter
    rw [← List.head?_filter, ← hfilter, List.head?_cons]
  · intro x hx
    rcases (hmem x).1 hx with rfl | hx
    · exact Nat.le_refl _
    · exact List.rel_of_pairwise_cons hordered hx

end Leads

/-- Both ways to end: without errors, or with the first that was found as the state and the one that leads in front. -/
theorem Result.ended (r : Result) :
    (r.errors = [] ∧ r.toExcept = .ok r.output ∧ r.state = .done) ∨
      ∃ found rest reported others, r.errors = found :: rest ∧ r.state = .failed found.kind ∧
        r.toExcept = .error (reported :: others) ∧ Leads reported r.errors := by
  cases h : r.errors with
  | nil => exact .inl ⟨rfl, by simp [toExcept, h], by simp [state, h]⟩
  | cons found rest =>
    right
    cases hsorted : byLine r.errors with
    | nil =>
      have hperm := byLine_perm r.errors
      rw [hsorted, h] at hperm
      cases hperm.nil_eq
    | cons reported others =>
      have hanswer : r.toExcept = .error (reported :: others) := by
        rw [toExcept, hsorted, h]
        rfl
      exact ⟨found, rest, reported, others, rfl, by simp [state, h], hanswer, h ▸ leads_of_byLine hsorted⟩

/-! ## Errors that are found line by line -/

/-- Lists that get only errors of the line at hand are ordered by line. -/
theorem ordered_of_fresh {f : Nat → List Error} (hstart : f 0 = []) (hgrows : ∀ k, f k <+: f (k + 1))
    (hline : ∀ k, ∀ e ∈ fresh (f k) (f (k + 1)), e.line = k + 1) (n : Nat) :
    (f n).Pairwise (·.line ≤ ·.line) ∧ ∀ e ∈ f n, e.line ≤ n := by
  induction n with
  | zero => simp [hstart]
  | succ n ih =>
    obtain ⟨more, hmore⟩ := hgrows n
    have hnew : ∀ e ∈ more, e.line = n + 1 := by
      intro e he
      apply hline n e
      rwa [← hmore, fresh_append]
    rw [← hmore]
    refine ⟨List.pairwise_append.2 ⟨ih.1, ?_, fun e he e' he' => ?_⟩, fun e he => ?_⟩
    · refine List.pairwise_of_forall_mem_list fun e he e' he' => ?_
      exact Nat.le_of_eq ((hnew e he).trans (hnew e' he').symm)
    · have hold := ih.2 e he
      have hlast := hnew e' he'
      omega
    · rcases List.mem_append.1 he with he | he
      · have hold := ih.2 e he
        omega
      · exact Nat.le_of_eq (hnew e he)

section Source
variable {settings : Settings} {registry : Macro.Registry} {source : String}

/-- The first pass finds errors by line before it comes to the waiting equates. -/
theorem unsettled_ordered (h : ∀ text ∈ Lines.split source.toList, Line.drift text = 0) :
    (unsettled settings registry source).errors.toList.Pairwise (·.line ≤ ·.line) := by
  rw [← laidOut_of_le (Nat.le_refl _)]
  refine (ordered_of_fresh (f := fun k => (laidOut settings registry source k).errors.toList) rfl
    (fun k => (laidOut_grows settings registry source k).1) (fun k e he => ?_) _).1
  rcases Nat.lt_or_ge k (Lines.split source.toList).length with hk | hk
  · have hadds := laidOut_adds settings registry (List.getElem?_eq_getElem hk)
    rw [(hadds.errors.2 e he).1, h _ (List.getElem_mem hk), Nat.add_zero]
  · rw [laidOut_of_le hk, laidOut_of_le (Nat.le_succ_of_le hk), fresh_self] at he
    cases he

/-- The second pass finds errors by line. -/
theorem secondErrors_ordered (h : ∀ text ∈ Lines.split source.toList, Line.drift text = 0) :
    (secondErrors settings registry source).Pairwise (·.line ≤ ·.line) := by
  have hordered := ordered_of_fresh
    (f := fun k => (Emission.run (environment settings registry source)
      ((planned settings registry source).take k)).1.errors.toList)
    rfl (reportedBy_grows settings registry source _) (fun k e he => ?_) (planned settings registry source).length
  · rw [secondErrors, ← List.take_length (l := planned settings registry source)]
    exact hordered.1
  · have hlt := reportedBy_lt he
    rw [(reportedBy_isAt (List.getElem?_eq_getElem hlt) he).1, h _ (List.getElem_mem hlt), Nat.add_zero]

theorem unsettled_isPrefix :
    (unsettled settings registry source).errors.toList <+: firstErrors settings registry source := by
  have hextends := pass_extends_run settings registry source (parsed source).length
  rw [List.take_length] at hextends
  rw [unsettled, firstErrors]
  exact hextends.errors

/-- Only lines that cannot be read have a drift, and those fail in the first pass. -/
theorem drift_of_firstErrors (h : firstErrors settings registry source = []) :
    ∀ text ∈ Lines.split source.toList, Line.drift text = 0 := by
  intro text ht
  obtain ⟨k, hk⟩ := List.getElem?_of_mem ht
  by_contra hdrift
  obtain ⟨e, he⟩ := exists_raisesFirst_of_drift settings registry hk hdrift
  have hmem := mem_first_errors.2 ⟨k, he⟩
  rw [← firstErrors, h] at hmem
  cases hmem

variable (settings registry source) in
/-- All errors in the order in which they are found. -/
def foundErrors : List Error :=
  firstErrors settings registry source ++ secondErrors settings registry source

/-- If the second pass alone finds errors, they are found by line. -/
theorem head?_foundErrors_second (h : firstErrors settings registry source = []) {e : Error}
    (he : Leads e (foundErrors settings registry source)) : (foundErrors settings registry source).head? = some e := by
  have hfound : foundErrors settings registry source = secondErrors settings registry source := by
    rw [foundErrors, h, List.nil_append]
  refine he.head?_eq List.prefix_rfl ?_ he.mem
  rw [hfound]
  exact secondErrors_ordered (drift_of_firstErrors h)

/-- So are those that the first pass finds before it comes to the waiting equates. -/
theorem head?_foundErrors_first (h : ∀ text ∈ Lines.split source.toList, Line.drift text = 0) {e : Error}
    (he : Leads e (foundErrors settings registry source))
    (hmem : e ∈ (unsettled settings registry source).errors) :
    (foundErrors settings registry source).head? = some e := by
  have hfront : (unsettled settings registry source).errors.toList <+: foundErrors settings registry source := by
    rw [foundErrors]
    exact unsettled_isPrefix.trans (List.prefix_append _ _)
  exact he.head?_eq hfront (unsettled_ordered h) (Array.mem_toList_iff.2 hmem)

end Source

end Assembly

open Assembly

namespace Assembler

/-! ## Sequences of calls -/

/-- A source that was assembled, the answer, and the state that the assembler was left in. -/
structure Call where
  source : String
  answer : Except (List Error) Output
  state : State

/-- The calls for some sources, one after the other on one assembler. -/
def calls : Assembler → List String → List Call
  | _, [] => []
  | a, source :: sources =>
    let (answer, next) := a.assemble source
    ⟨source, answer, next.state⟩ :: next.calls sources

/-- A call depends on the settings and the macros, and on no call before it. -/
theorem calls_eq (a : Assembler) (sources : List String) :
    a.calls sources = sources.map fun source =>
      ⟨source, (run a.settings a.registry source).toExcept, (run a.settings a.registry source).state⟩ := by
  induction sources generalizing a with
  | nil => rfl
  | cons source sources ih =>
    simp only [calls, assemble, List.map_cons, ih]

/-- The state names the class of the first error in the answer. -/
def Call.NamesFirst (call : Call) : Prop :=
  ∃ e errors, call.answer = .error (e :: errors) ∧ call.state = .failed e.kind

/-- How a call ends. -/
structure Ends (a : Assembler) (call : Call) : Prop where
  done : call.state = .done ↔ ∃ out, call.answer = .ok out
  /-- After errors the state names the class of the one that was found first, and the first one of the smallest
  line stands first in the answer. -/
  failed (errors : List Error) : call.answer = .error errors → ∃ found reported,
    (foundErrors a.settings a.registry call.source).head? = some found ∧ call.state = .failed found.kind ∧
      errors.head? = some reported ∧ Leads reported (foundErrors a.settings a.registry call.source)
  /-- They differ only if a smaller line has an error that was found later. -/
  named (errors : List Error) : call.answer = .error errors →
    (call.NamesFirst ↔ ¬ ∃ found e, (foundErrors a.settings a.registry call.source).head? = some found ∧
      Leads e (foundErrors a.settings a.registry call.source) ∧ e.line < found.line ∧ e.kind ≠ found.kind)
  /-- They never do if the first pass finds no error, -/
  second (errors : List Error) : call.answer = .error errors →
    firstErrors a.settings a.registry call.source = [] → call.NamesFirst
  /-- nor if the first error by line is one that the first pass finds when it comes to its line. -/
  first (e : Error) (errors : List Error) : call.answer = .error (e :: errors) →
    (∀ text ∈ Lines.split call.source.toList, Line.drift text = 0) →
      e ∈ (unsettled a.settings a.registry call.source).errors → call.NamesFirst

theorem ends (a : Assembler) (source : String) :
    a.Ends ⟨source, (run a.settings a.registry source).toExcept, (run a.settings a.registry source).state⟩ := by
  have herrors : (run a.settings a.registry source).errors = foundErrors a.settings a.registry source :=
    run_errors _ _ _
  rcases (run a.settings a.registry source).ended with
    ⟨-, hanswer, hstate⟩ | ⟨found, rest, reported, others, hfound, hstate, hanswer, hleads⟩
  · rw [hanswer, hstate]
    have hok (errors : List Error) : Except.ok (run a.settings a.registry source).output ≠ .error errors := by
      intro h
      cases h
    exact ⟨⟨fun _ => ⟨_, rfl⟩, fun _ => rfl⟩, fun _ h => absurd h (hok _), fun _ h => absurd h (hok _),
      fun _ h => absurd h (hok _), fun _ _ h => absurd h (hok _)⟩
  · rw [herrors] at hfound hleads
    rw [hanswer, hstate]
    -- the state and the answer agree as soon as the two errors are of one class
    have hnames (h : reported.kind = found.kind) :
        Call.NamesFirst ⟨source, .error (reported :: others), .failed found.kind⟩ := ⟨_, _, rfl, by rw [h]⟩
    have hhead : (foundErrors a.settings a.registry source).head? = some found := by rw [hfound, List.head?_cons]
    have hsame (h : (foundErrors a.settings a.registry source).head? = some reported) :
        Call.NamesFirst ⟨source, .error (reported :: others), .failed found.kind⟩ := by
      rw [hhead] at h
      exact hnames (by rw [Option.some.inj h])
    constructor
    case done =>
      constructor
      · intro h
        cases h
      · rintro ⟨out, h⟩
        cases h
    case failed =>
      intro errors h
      obtain rfl := Except.error.inj h
      exact ⟨found, reported, hhead, rfl, rfl, hleads⟩
    case named =>
      rintro errors -
      constructor
      · rintro ⟨e, es, hanswer, hkind⟩ ⟨found', e', hfound', he', -, hne⟩
        obtain ⟨rfl, -⟩ := List.cons.inj (Except.error.inj hanswer)
        obtain rfl := Option.some.inj (hhead.symm.trans hfound')
        obtain rfl := he'.unique hleads
        exact hne (State.failed.inj hkind).symm
      · intro h
        apply hnames
        by_contra hne
        rcases (hfound ▸ hleads).eq_or_lt with rfl | hlt
        · exact hne rfl
        · exact h ⟨found, reported, hhead, hleads, hlt, hne⟩
    case second => exact fun _ _ h => hsame (head?_foundErrors_second h hleads)
    case first =>
      intro e errors h hdrift hmem
      obtain ⟨rfl, -⟩ := List.cons.inj (Except.error.inj h)
      exact hsame (head?_foundErrors_first hdrift hleads hmem)

end Assembler

/-- However many sources one assembler is given, each call ends done if and only if it answers without errors, and
otherwise its state names the class of the error that was found first. That is the class of the first error in the
answer unless a smaller line has an error that was found later. -/
theorem state_names_found (a : Assembler) (sources : List String) :
    (a.calls sources).map (·.source) = sources ∧
      ∀ call ∈ a.calls sources, call.answer = (a.assemble call.source).1 ∧ a.Ends call := by
  rw [Assembler.calls_eq]
  constructor
  · simp [Function.comp_def]
  · intro call hcall
    obtain ⟨source, -, rfl⟩ := List.mem_map.1 hcall
    exact ⟨by rw [assemble_fst], a.ends source⟩

/-- An unknown mnemonic on the second line is found before an undefined symbol on the first one, so the state names
its class and the answer begins with the other. -/
theorem state_names_found_late :
    ∃ call ∈ (⟨{}, .builtin, .idle⟩ : Assembler).calls ["NOP", "JMP nowhere\nFOO"],
      call.state = .failed .syntaxError ∧
        (∃ e errors, call.answer = .error (e :: errors) ∧ e.kind = .undefinedSymbol) ∧ ¬ call.NamesFirst := by
  have hrun : (run {} .builtin "JMP nowhere\nFOO").errors.map (fun e => (e.line, e.kind)) =
      [(2, .syntaxError), (1, .undefinedSymbol)] := by decide +kernel
  rw [run_errors, ← foundErrors] at hrun
  obtain ⟨e, es, hfound, hlate, hes⟩ := List.map_eq_cons_iff.1 hrun
  obtain ⟨e', es', rfl, hearly, hnil⟩ := List.map_eq_cons_iff.1 hes
  obtain rfl := List.map_eq_nil_iff.1 hnil
  obtain ⟨hline, hkind⟩ := Prod.mk.inj hlate
  obtain ⟨hline', hkind'⟩ := Prod.mk.inj hearly
  have hleads : Leads e' (foundErrors {} .builtin "JMP nowhere\nFOO") := by
    rw [hfound]
    exact ⟨[e], [], rfl, by simp [hline, hline'], List.forall_mem_nil _⟩
  have hcall : ⟨"JMP nowhere\nFOO", (run {} .builtin "JMP nowhere\nFOO").toExcept,
      (run {} .builtin "JMP nowhere\nFOO").state⟩ ∈
        (⟨{}, .builtin, .idle⟩ : Assembler).calls ["NOP", "JMP nowhere\nFOO"] := by
    rw [Assembler.calls_eq]
    exact .tail _ (.head _)
  have hends := ((state_names_found _ _).2 _ hcall).2
  have hstate : (run {} .builtin "JMP nowhere\nFOO").state = .failed .syntaxError := by decide +kernel
  cases hanswer : (run {} .builtin "JMP nowhere\nFOO").toExcept with
  | ok out => cases hstate.symm.trans (hends.done.2 ⟨out, hanswer⟩)
  | error errors =>
    obtain ⟨-, reported, -, -, hfirst, hreported⟩ := hends.failed errors hanswer
    obtain rfl := hreported.unique hleads
    obtain ⟨others, rfl⟩ := List.head?_eq_some_iff.1 hfirst
    refine ⟨_, hcall, hstate, ⟨_, _, hanswer, hkind'⟩, fun hnames => ?_⟩
    refine (hends.named _ hanswer).1 hnames ⟨e, _, by rw [hfound, List.head?_cons], hleads, ?_, ?_⟩
    · omega
    · simp [hkind, hkind']

end Mos6502
