import Mos6502.Proofs.Scanning

/-!
# Every step of the lexer takes a character

A scan cuts the text into the characters it takes and the rest, whether it finds
a lexeme or a fault. The only fault that takes nothing is one at a character
where reading does not go on after a fault, so that the character is skipped. Hence
every step takes a character, the steps come to an end, and there are not more
tokens and faults than characters.

Main statement: `Token.scanning_progresses`.
-/
namespace Mos6502

namespace Scan

/-! ## What a scan takes -/

/-- The characters taken and the rest make up the text. -/
def Splits (scan : Scan) (cs : List Char) : Prop :=
  scan.taken ++ scan.rest = cs

theorem splits_class (c : Char) (p : Char → Bool) (found : Except LexCause Lexeme) (cs : List Char) :
    Splits ⟨found, c :: cs.takeWhile p, cs.dropWhile p⟩ (c :: cs) :=
  congrArg (c :: ·) List.takeWhile_append_dropWhile

theorem splits_stringBody (taken : List Char) (bytes : List UInt8) (cs : List Char) :
    Splits (stringBody taken bytes cs) (taken.reverse ++ cs) := by
  fun_induction stringBody taken bytes cs with
  | case4 taken bytes c cs b _ ih => simpa using ih
  | case7 taken bytes c cs _ _ _ _ b _ ih => simpa using ih
  | _ => simp [Splits]

theorem splits_closeCharacter (taken : List Char) (b : Option UInt8) (cs : List Char) :
    Splits (closeCharacter taken b cs) (taken ++ cs) := by
  unfold closeCharacter
  split
  · simp [Splits]
  · rfl

theorem splits_character (cs : List Char) : Splits (character cs) ('\'' :: cs) := by
  unfold character
  split
  · rfl
  · rfl
  · exact splits_closeCharacter _ _ _
  · split
    · rfl
    · exact splits_closeCharacter _ _ _

theorem splits_invocation (cs : List Char) : Splits (invocation cs) ('@' :: cs) := by
  have hname := List.takeWhile_append_dropWhile (p := isWordChar) (l := cs)
  unfold invocation
  dsimp only
  split
  · -- without a name only the sign is taken, and all of the text behind it is left
    rename_i hempty
    rw [List.isEmpty_iff] at hempty
    rw [hempty, List.nil_append] at hname
    exact congrArg ('@' :: ·) hname
  · obtain ⟨body, htaken, hrest, -⟩ := arguments_cut [] none (cs.dropWhile isWordChar)
    rw [Splits, htaken, List.append_nil, List.reverse_reverse, List.cons_append, List.append_assoc, ← hrest, hname]

theorem splits_start (c : Char) (cs : List Char) : Splits (start c cs) (c :: cs) := by
  unfold start
  split
  · rfl
  · rfl
  · rfl
  · exact splits_class _ _ _ _
  · exact splits_class _ _ _ _
  · exact splits_class _ _ _ _
  · exact splits_stringBody _ _ _
  · exact splits_character _
  · exact splits_invocation _
  · split
    · exact splits_class _ _ _ _
    split
    · exact splits_class _ _ _ _
    split
    · exact splits_class _ _ _ _
    split
    · rfl
    · rfl

/-- A scan takes nothing only at a fault that is not at a place to rest. -/
theorem start_takes_nothing {c : Char} {cs : List Char} (h : (start c cs).taken = []) :
    (∃ cause, (start c cs).found = .error cause) ∧ isResting c = false := by
  have hsplit : (start c cs).rest = c :: cs := by simpa [Splits, h] using splits_start c cs
  rcases start_rest c cs with hle | ⟨-, hfault, hresting⟩
  · rw [hsplit, List.length_cons] at hle
    omega
  · exact ⟨hfault, hresting⟩

end Scan

namespace Scanner

/-! ## What a step takes -/

theorem next_eq_none {s : Scanner} : s.next = none ↔ s.rest = [] := by
  refine ⟨rest_eq_nil, fun h => ?_⟩
  simp only [next, h]

theorem next_suffix {s s' : Scanner} {r : Except LexError Token} (h : s.next = some (r, s')) : s'.rest <:+ s.rest := by
  unfold next at h
  split at h
  · cases h
  · rename_i c cs hrest
    have hscan : (Scan.start c cs).rest <:+ s.rest := ⟨_, (Scan.splits_start c cs).trans hrest.symm⟩
    dsimp only at h
    split at h
    · cases h
      exact hscan
    · cases h
      exact hscan
    · cases h
      exact (List.dropWhile_suffix _).trans hscan

/-- A step takes at least one character from the start of the text. -/
theorem next_takes {s s' : Scanner} {r : Except LexError Token} (h : s.next = some (r, s')) :
    ∃ used, used ≠ [] ∧ s.rest = used ++ s'.rest := by
  obtain ⟨used, hused⟩ := next_suffix h
  refine ⟨used, ?_, hused.symm⟩
  rintro rfl
  have hlt := next_lt h
  rw [← hused, List.nil_append] at hlt
  exact Nat.lt_irrefl _ hlt

theorem next_ne_endOfText {s s' : Scanner} {t : Token} (h : s.next = some (.ok t, s')) : t.lexeme ≠ .endOfText := by
  obtain ⟨c, cs, taken, -, hscan⟩ := next_eq_ok h
  intro heq
  rw [heq] at hscan
  rcases Scan.start_endsLine (congrArg Scan.found hscan) rfl with ⟨-, hnewline⟩ | ⟨-, text, htext⟩
  · cases hnewline
  · cases htext

/-! ## All steps -/

/-- The steps from a place to the last one: the characters that each one takes, and the token or the fault it gives. -/
inductive Runs : Scanner → List (List Char × Except LexError Token) → Scanner → Prop
  | done {s : Scanner} : s.next = none → Runs s [] s
  | step {s s' stop : Scanner} {used : List Char} {r : Except LexError Token}
      {steps : List (List Char × Except LexError Token)} :
      s.next = some (r, s') → used ≠ [] → s.rest = used ++ s'.rest → Runs s' steps stop →
      Runs s ((used, r) :: steps) stop

/-- The tokens that steps give. -/
def tokensOf (steps : List (List Char × Except LexError Token)) : List Token :=
  steps.filterMap fun step => match step.2 with
    | .ok t => some t
    | .error _ => none

/-- The faults that steps give. -/
def faultsOf (steps : List (List Char × Except LexError Token)) : List LexError :=
  steps.filterMap fun step => match step.2 with
    | .ok _ => none
    | .error e => some e

/-- The steps come to an end, since each one leaves less of the text. -/
theorem exists_runs (s : Scanner) : ∃ steps stop, Runs s steps stop := by
  induction hn : s.rest.length using Nat.strongRecOn generalizing s with
  | ind n ih =>
    cases hnext : s.next with
    | none => exact ⟨[], s, .done hnext⟩
    | some result =>
      obtain ⟨r, s'⟩ := result
      obtain ⟨used, hne, hrest⟩ := next_takes hnext
      obtain ⟨steps, stop, hruns⟩ := ih _ (hn ▸ next_lt hnext) s' rfl
      exact ⟨_, stop, .step hnext hne hrest hruns⟩

theorem length_steps (steps : List (List Char × Except LexError Token)) :
    (tokensOf steps).length + (faultsOf steps).length = steps.length := by
  induction steps with
  | nil => rfl
  | cons step steps ih =>
    obtain ⟨used, r⟩ := step
    cases r with
    | ok t =>
      simp only [tokensOf, faultsOf, List.filterMap_cons, List.length_cons] at ih ⊢
      omega
    | error e =>
      simp only [tokensOf, faultsOf, List.filterMap_cons, List.length_cons] at ih ⊢
      omega

namespace Runs
variable {s stop : Scanner} {steps : List (List Char × Except LexError Token)} (h : Runs s steps stop)
include h

theorem stop_rest : stop.rest = [] := by
  induction h with
  | done hnext => exact next_eq_none.1 hnext
  | step _ _ _ _ ih => exact ih

/-- The steps take the whole text. -/
theorem text_eq : s.rest = steps.flatMap (·.1) := by
  induction h with
  | done hnext => exact next_eq_none.1 hnext
  | step _ _ hrest _ ih => rw [hrest, ih, List.flatMap_cons]

theorem length_le : steps.length ≤ s.rest.length := by
  induction h with
  | done => exact Nat.zero_le _
  | step _ hne hrest _ ih =>
    have hpos := List.length_pos_iff.2 hne
    rw [hrest, List.length_append, List.length_cons]
    omega

theorem tokens_inside : ∀ t ∈ tokensOf steps, t.lexeme ≠ .endOfText := by
  induction h with
  | done => exact List.forall_mem_nil _
  | @step s s' stop used r steps hnext _ _ _ ih =>
    cases r with
    | ok t => exact List.forall_mem_cons.2 ⟨next_ne_endOfText hnext, ih⟩
    | error e => exact ih

/-- The loop gives the tokens and the faults of its steps in order, and the end of the text behind them. -/
theorem run_eq (tokens : Array Token) (errors : Array LexError) :
    s.run tokens errors =
      (tokens ++ (tokensOf steps ++ [⟨.endOfText, stop.line, stop.column, 0⟩]), errors ++ faultsOf steps) := by
  induction h generalizing tokens errors with
  | done hnext =>
    rw [run]
    split <;> simp_all [tokensOf, faultsOf]
  | @step s s' stop used r steps hnext _ _ _ ih =>
    cases r with
    | ok t =>
      have hrun : s.run tokens errors = s'.run (tokens.push t) errors := by
        rw [run]
        split <;> simp_all
      rw [hrun, ih]
      simp [tokensOf, faultsOf]
    | error e =>
      have hrun : s.run tokens errors = s'.run tokens (errors.push e) := by
        rw [run]
        split <;> simp_all
      rw [hrun, ih]
      simp [tokensOf, faultsOf]

end Runs

end Scanner

open Scanner

/-- A step is missing only at the end of the text, and otherwise takes at least one character, also at a fault whose
scan takes none. So the steps through a text come to an end. They take all of it and give its tokens and its faults,
which together are not more than its characters, and the end of the text is the last token. -/
theorem Token.scanning_progresses (text : List Char) (firstLine : Nat) :
    (∀ s : Scanner, s.next = none ↔ s.rest = []) ∧
    (∀ (s s' : Scanner) (r : Except LexError Token), s.next = some (r, s') →
      ∃ used, used ≠ [] ∧ s.rest = used ++ s'.rest) ∧
    (∀ c cs, (Scan.start c cs).taken = [] →
      (∃ cause, (Scan.start c cs).found = .error cause) ∧ Scan.isResting c = false) ∧
    ∃ steps stop, Runs ⟨text, firstLine, 0⟩ steps stop ∧ stop.rest = [] ∧ steps.flatMap (·.1) = text ∧
      scan text firstLine =
        (tokensOf steps ++ [⟨.endOfText, stop.line, stop.column, 0⟩], faultsOf steps) ∧
      (∀ t ∈ tokensOf steps, t.lexeme ≠ .endOfText) ∧
      (tokensOf steps).length + (faultsOf steps).length ≤ text.length := by
  refine ⟨fun s => next_eq_none, fun s s' r => next_takes, fun c cs => Scan.start_takes_nothing, ?_⟩
  obtain ⟨steps, stop, hruns⟩ := exists_runs ⟨text, firstLine, 0⟩
  refine ⟨steps, stop, hruns, hruns.stop_rest, hruns.text_eq.symm, ?_, hruns.tokens_inside, ?_⟩
  · simp [scan, hruns.run_eq]
  · rw [length_steps]
    exact hruns.length_le

/-- A fault whose scan takes nothing, before one that is skipped with it and a comment. -/
theorem Token.scanning_progresses_skipped :
    let s : Scanner := ⟨"?$G;".toList, 1, 0⟩
    let s' : Scanner := ⟨";".toList, 1, 3⟩
    s.next = some (.error ⟨.unexpected '?', 1, 0⟩, s') ∧ (∃ used, used ≠ [] ∧ s.rest = used ++ s'.rest) ∧
      (Scan.start '?' "$G;".toList).taken = [] ∧ Scan.isResting '?' = false ∧
      ∃ tokens stop, scan s.rest 1 = (tokens ++ [stop], [⟨.unexpected '?', 1, 0⟩]) ∧ tokens.length + 1 ≤ 4 := by
  intro s s'
  obtain ⟨-, hnext, hnothing, steps, stop, -, -, -, hscan, -, hlength⟩ := scanning_progresses s.rest 1
  have hstep : s.next = some (.error ⟨.unexpected '?', 1, 0⟩, s') := rfl
  have htaken : (Scan.start '?' "$G;".toList).taken = [] := rfl
  refine ⟨hstep, hnext s s' _ hstep, htaken, (hnothing _ _ htaken).2, ?_⟩
  have hfaults : (scan s.rest 1).2 = [⟨.unexpected '?', 1, 0⟩] := by decide +kernel
  rw [hscan] at hfaults
  dsimp only at hfaults
  rw [hfaults] at hscan hlength
  exact ⟨_, _, hscan, hlength⟩

end Mos6502
