import Mos6502.Proofs.ErrorLines

/-!
# Errors in one batch

A failed assembly answers with the errors of both passes together, by line. The
errors of the first pass are all there. Of those that the second pass comes to,
the ones on lines that already failed are missing and nothing else, so no line
has errors of both passes.

Main statement: `errors_batched`.
-/
namespace Mos6502

namespace Assembly

/-! ## Sorting by line -/

theorem line_trans (a b c : Error) (hab : decide (a.line ≤ b.line) = true) (hbc : decide (b.line ≤ c.line) = true) :
    decide (a.line ≤ c.line) = true := by
  simp only [decide_eq_true_eq] at hab hbc ⊢
  omega

theorem line_total (a b : Error) : (decide (a.line ≤ b.line) || decide (b.line ≤ a.line)) = true := by
  simp only [Bool.or_eq_true, decide_eq_true_eq]
  omega

theorem byLine_perm (errors : List Error) : (byLine errors).Perm errors :=
  List.mergeSort_perm errors _

theorem byLine_ordered (errors : List Error) : (byLine errors).Pairwise (·.line ≤ ·.line) := by
  have hsorted := List.pairwise_mergeSort line_trans line_total errors
  exact hsorted.imp of_decide_eq_true

/-- The errors of one line keep their order. -/
theorem byLine_filter (errors : List Error) (n : Nat) :
    (byLine errors).filter (·.line = n) = errors.filter (·.line = n) := by
  have hsame : (errors.filter (·.line = n)).Pairwise fun a b => decide (a.line ≤ b.line) = true := by
    refine List.pairwise_of_forall_mem_list fun a ha b hb => ?_
    simp only [List.mem_filter, decide_eq_true_eq] at ha hb ⊢
    omega
  -- sorting moves none of them past another, and there are as many as before
  have hkept : (errors.filter (·.line = n)).Sublist (byLine errors) :=
    List.sublist_mergeSort line_trans line_total hsame List.filter_sublist
  have hsub := hkept.filter (·.line = n)
  rw [List.filter_filter] at hsub
  simp only [Bool.and_self] at hsub
  exact (hsub.eq_of_length ((byLine_perm errors).filter _).length_eq.symm).symm

/-! ## Both passes -/

section Source
variable (settings : Settings) (registry : Macro.Registry) (source : String)

/-- The errors that the first pass records, those of equates without a value included. -/
def firstErrors : List Error :=
  (Layout.run registry settings.maxDepth (parsed source)).1.errors.toList

/-- The errors that the second pass records. -/
def secondErrors : List Error :=
  (Emission.run (environment settings registry source) (planned settings registry source)).1.errors.toList

/-- The errors that the second pass comes to, whatever the first one recorded. -/
def detectedErrors : List Error :=
  (Emission.run (environment settings registry source).unfiltered (planned settings registry source)).1.errors.toList

theorem run_errors : (run settings registry source).errors =
    firstErrors settings registry source ++ secondErrors settings registry source := by
  rw [run_eq]
  rfl

/-- The second pass leaves out the errors on lines that have failed, and records all others. -/
theorem secondErrors_eq : secondErrors settings registry source =
    (detectedErrors settings registry source).filter
      fun e => e.line ∉ (firstErrors settings registry source).map (·.line) := by
  rw [secondErrors, Emission.run_withhold, Emission.withhold, Array.toList_filter]
  refine List.filter_congr fun e _ => ?_
  rw [List.contains_eq_mem, ← decide_not]
  exact decide_eq_decide.2 (not_congr (mem_eraseReps _ _))

variable {settings registry source}

theorem firstErrors_pass {e : Error} (h : e ∈ firstErrors settings registry source) : e.pass = .first := by
  obtain ⟨k, s, t, hworks, he⟩ := mem_first_errors.1 h
  exact ((hworks.adds (List.getElem?_eq_getElem hworks.lt)).2 e he).2

theorem secondErrors_pass {e : Error} (h : e ∈ secondErrors settings registry source) : e.pass = .second := by
  obtain ⟨k, he⟩ := mem_second_errors.1 h
  exact (reportedBy_isAt (List.getElem?_eq_getElem (reportedBy_lt he)) he).2

end Source

/-- How the errors of a source are put together. -/
structure Batched (a : Assembler) (source : String) (errors : List Error) : Prop where
  nonempty : errors ≠ []
  ordered : errors.Pairwise (·.line ≤ ·.line)
  /-- The errors of both passes are there as often as they were recorded. -/
  complete : errors.Perm
    (firstErrors a.settings a.registry source ++ secondErrors a.settings a.registry source)
  /-- On one line they stand in the order of their detection. -/
  stable (n : Nat) : errors.filter (·.line = n) =
    (firstErrors a.settings a.registry source ++ secondErrors a.settings a.registry source).filter (·.line = n)
  /-- An error says which pass it comes from. -/
  first (e : Error) : e ∈ errors → (e.pass = .first ↔ e ∈ firstErrors a.settings a.registry source)
  second (e : Error) : e ∈ errors → (e.pass = .second ↔ e ∈ secondErrors a.settings a.registry source)
  /-- No line has errors of both passes. -/
  apart (e e' : Error) : e ∈ errors → e' ∈ errors → e.pass = .first → e'.pass = .second → e.line ≠ e'.line
  /-- The second pass withholds errors on lines with an error of the first, and no others. -/
  withheld : secondErrors a.settings a.registry source = (detectedErrors a.settings a.registry source).filter
    fun e => e.line ∉ (firstErrors a.settings a.registry source).map (·.line)

theorem batched_byLine {a : Assembler} {source : String} (h : (run a.settings a.registry source).errors ≠ []) :
    Batched a source (byLine (run a.settings a.registry source).errors) := by
  have hmem {e : Error} : e ∈ byLine (run a.settings a.registry source).errors ↔
      e ∈ firstErrors a.settings a.registry source ∨ e ∈ secondErrors a.settings a.registry source := by
    rw [(byLine_perm _).mem_iff, run_errors, List.mem_append]
  have hfirst (e : Error) (he : e ∈ byLine (run a.settings a.registry source).errors) :
      e.pass = .first ↔ e ∈ firstErrors a.settings a.registry source := by
    refine ⟨fun hpass => ?_, firstErrors_pass⟩
    rcases hmem.1 he with he | he
    · exact he
    · cases hpass.symm.trans (secondErrors_pass he)
  have hsecond (e : Error) (he : e ∈ byLine (run a.settings a.registry source).errors) :
      e.pass = .second ↔ e ∈ secondErrors a.settings a.registry source := by
    refine ⟨fun hpass => ?_, secondErrors_pass⟩
    rcases hmem.1 he with he | he
    · cases hpass.symm.trans (firstErrors_pass he)
    · exact he
  constructor
  case nonempty =>
    intro hnil
    have hperm := byLine_perm (run a.settings a.registry source).errors
    rw [hnil] at hperm
    exact h hperm.symm.eq_nil
  case ordered => exact byLine_ordered _
  case complete => exact run_errors _ _ _ ▸ byLine_perm _
  case stable => exact fun n => run_errors a.settings a.registry source ▸ byLine_filter _ n
  case first => exact hfirst
  case second => exact hsecond
  case withheld => exact secondErrors_eq _ _ _
  case apart =>
    intro e e' he he' hpass hpass' hline
    have hin := (hfirst e he).1 hpass
    have hout := (hsecond e' he').1 hpass'
    rw [secondErrors_eq, List.mem_filter, decide_eq_true_eq] at hout
    exact hout.2 (hline ▸ List.mem_map_of_mem hin)

end Assembly

open Assembly

/-- An assembly succeeds if and only if no pass records an error, and otherwise it answers with all errors of
both passes in one batch. -/
theorem errors_batched (a : Assembler) (source : String) :
    ((∃ out, (a.assemble source).1 = .ok out) ↔
      firstErrors a.settings a.registry source = [] ∧ secondErrors a.settings a.registry source = []) ∧
    ∀ errors, (a.assemble source).1 = .error errors → Batched a source errors := by
  have hnil : (run a.settings a.registry source).errors = [] ↔
      firstErrors a.settings a.registry source = [] ∧ secondErrors a.settings a.registry source = [] := by
    rw [run_errors, List.append_eq_nil_iff]
  rw [assemble_fst, Result.toExcept, ← hnil, ← List.isEmpty_iff]
  constructor
  · split
    · rename_i hnone
      exact ⟨fun _ => hnone, fun _ => ⟨_, rfl⟩⟩
    · rename_i hsome
      refine ⟨?_, fun hnone => absurd hnone hsome⟩
      rintro ⟨out, hout⟩
      cases hout
  · intro errors h
    split at h
    · cases h
    · rename_i hsome
      cases h
      exact batched_byLine fun hnone => hsome (List.isEmpty_iff.2 hnone)

/-- An unknown mnemonic is found before an undefined symbol, and stands behind it in the batch. -/
theorem errors_batched_two :
    ∃ errors, ((⟨{}, .builtin, .idle⟩ : Assembler).assemble "JMP nowhere\nFOO").1 = .error errors ∧
      (firstErrors {} .builtin "JMP nowhere\nFOO").map (·.line) = [2] ∧
      errors.map (fun e => (e.line, e.pass)) = [(1, .second), (2, .first)] ∧
      Batched ⟨{}, .builtin, .idle⟩ "JMP nowhere\nFOO" errors := by
  have hrun : (run {} .builtin "JMP nowhere\nFOO").errors.map (fun e => (e.line, e.pass)) =
      [(2, .first), (1, .second)] := by decide +kernel
  obtain ⟨e, es, he, hlate, hes⟩ := List.map_eq_cons_iff.1 hrun
  obtain ⟨e', es', rfl, hearly, hnil⟩ := List.map_eq_cons_iff.1 hes
  obtain rfl := List.map_eq_nil_iff.1 hnil
  obtain ⟨hline, hpass⟩ := Prod.mk.inj hlate
  obtain ⟨hline', hpass'⟩ := Prod.mk.inj hearly
  have hsort : byLine [e, e'] = [e', e] := by
    simp [byLine, List.mergeSort, List.MergeSort.Internal.splitInTwo, hline, hline']
  have hfailed : ((⟨{}, .builtin, .idle⟩ : Assembler).assemble "JMP nowhere\nFOO").1 = .error [e', e] := by
    rw [assemble_fst, Result.toExcept, he, hsort]
    rfl
  refine ⟨_, hfailed, by decide +kernel, ?_, (errors_batched _ _).2 _ hfailed⟩
  simp [hline, hline', hpass, hpass']

end Mos6502
