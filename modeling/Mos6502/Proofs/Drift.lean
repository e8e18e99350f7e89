import Mos6502.Proofs.Numbering

/-!
# Line ends inside a line

A carriage return that no line feed follows does not end a line of the source,
and yet it counts as a line end while the tokens of that line are read. A fault
behind it is then reported on a later line: it drifts down by the line ends in
front of it. All other faults of a line carry its own number.

Main statements: `Line.read_error_line` says how far a fault drifts, and
`Line.drift_eq_zero` that it does not without carriage returns.
-/
namespace Mos6502

namespace Scan

/-! ## Line ends in front of a fault -/

theorem start_length {c : Char} {cs : List Char} {x : Lexeme} (h : (start c cs).found = .ok x) :
    (start c cs).rest.length ≤ cs.length := by
  rcases start_rest c cs with hr | ⟨-, ⟨e, he⟩, -⟩
  · exact hr
  · cases h.symm.trans he

/-- How many line ends stand in front of the first fault of a text, if it has a fault. -/
def breaks? : List Char → Option Nat
  | [] => none
  | c :: cs =>
    match _h : (start c cs).found with
    | .error _ => some 0
    | .ok .newline => (breaks? (start c cs).rest).map (· + 1)
    | .ok _ => breaks? (start c cs).rest
termination_by cs => cs.length
decreasing_by all_goals exact Nat.lt_succ_of_le (start_length _h)

theorem breaks?_cons (c : Char) (cs : List Char) :
    breaks? (c :: cs) =
      match (start c cs).found with
      | .error _ => some 0
      | .ok .newline => (breaks? (start c cs).rest).map (· + 1)
      | .ok _ => breaks? (start c cs).rest := by
  rw [breaks?]
  split <;> simp_all

/-! ## Where line ends are read -/

theorem sixteenBits_ok {mark : String} {radix : Nat} {ds : List Char} {lexeme : UInt16 → Lexeme} {x : Lexeme}
    (h : sixteenBits mark radix ds lexeme = .ok x) : ∃ n, x = lexeme n := by
  unfold sixteenBits at h
  split at h
  · exact ⟨_, (Except.ok.inj h).symm⟩
  · cases h

theorem stringBody_ok {taken : List Char} {bytes : List UInt8} {cs : List Char} {x : Lexeme}
    (h : (stringBody taken bytes cs).found = .ok x) : ∃ bs, x = .string bs := by
  fun_induction stringBody taken bytes cs <;> grind

theorem character_ok {cs : List Char} {x : Lexeme} (h : (character cs).found = .ok x) : ∃ b, x = .character b := by
  unfold character closeCharacter at h
  grind

/-- A line ends at a line end, which is read as one, and at the semicolon of a comment. -/
theorem start_endsLine {c : Char} {cs : List Char} {x : Lexeme} (h : (start c cs).found = .ok x)
    (hx : x.endsLine = true) : (isLineEnd c = true ∧ x = .newline) ∨ (c = ';' ∧ ∃ text, x = .comment text) := by
  unfold start at h
  split at h
  · exact .inl ⟨rfl, (Except.ok.inj h).symm⟩
  · exact .inl ⟨rfl, (Except.ok.inj h).symm⟩
  · exact .inl ⟨rfl, (Except.ok.inj h).symm⟩
  · exact .inr ⟨rfl, _, (Except.ok.inj h).symm⟩
  -- no other lexeme ends a line
  · unfold hexadecimal at h
    dsimp only at h
    split at h
    · cases h
    · split at h
      · cases h
      · obtain ⟨n, rfl⟩ := sixteenBits_ok h
        cases hx
  · unfold binary at h
    dsimp only at h
    split at h
    · cases h
    · obtain ⟨n, rfl⟩ := sixteenBits_ok h
      cases hx
  · obtain ⟨bs, rfl⟩ := stringBody_ok h
    cases hx
  · obtain ⟨b, rfl⟩ := character_ok h
    cases hx
  · unfold invocation at h
    dsimp only at h
    split at h <;> cases h
    cases hx
  · split at h
    · cases h
      cases hx
    split at h
    · obtain ⟨n, rfl⟩ := sixteenBits_ok h
      cases hx
    split at h
    · cases h
      cases hx
    split at h
    · rename_i x hsign
      cases h
      unfold Lexeme.ofSign? at hsign
      split at hsign <;> cases hsign <;> cases hx
    · cases h

/-- Only a line end is read as one. -/
theorem isLineEnd_of_newline {c : Char} {cs : List Char} (h : (start c cs).found = .ok .newline) :
    isLineEnd c = true := by
  rcases start_endsLine h rfl with ⟨hend, -⟩ | ⟨-, text, htext⟩
  · exact hend
  · cases htext

theorem stringBody_subset (taken : List Char) (bytes : List UInt8) (cs : List Char) :
    (stringBody taken bytes cs).rest ⊆ cs := by
  intro d hd
  fun_induction stringBody taken bytes cs <;> grind

theorem arguments_subset (taken : List Char) (quote : Option Char) (cs : List Char) :
    (arguments taken quote cs).2 ⊆ cs := by
  intro d hd
  fun_induction arguments taken quote cs <;> grind

theorem character_subset (cs : List Char) : (character cs).rest ⊆ cs := by
  intro d hd
  unfold character closeCharacter at hd
  grind

theorem start_subset (c : Char) (cs : List Char) : (start c cs).rest ⊆ c :: cs := by
  have hcons : cs ⊆ c :: cs := List.subset_cons_self c cs
  have hdrop (p : Char → Bool) : cs.dropWhile p ⊆ c :: cs := List.Subset.trans (List.dropWhile_sublist p).subset hcons
  unfold start
  split
  · exact hcons
  · exact List.Subset.trans (List.subset_cons_self _ _) hcons
  · exact hcons
  · exact hdrop _
  · exact hdrop _
  · exact hdrop _
  · exact List.Subset.trans (stringBody_subset _ _ _) hcons
  · exact List.Subset.trans (character_subset _) hcons
  · unfold invocation
    dsimp only
    split
    · exact hdrop _
    · exact List.Subset.trans (arguments_subset _ _ _) (hdrop _)
  · split
    · exact hdrop _
    split
    · exact hdrop _
    split
    · exact hdrop _
    split
    · exact hcons
    · exact List.Subset.refl _

/-- Without a line end in a text there is none in front of its faults. -/
theorem breaks?_of_plain {cs : List Char} (h : ∀ c ∈ cs, isLineEnd c = false) : (breaks? cs).getD 0 = 0 := by
  fun_induction breaks? cs with
  | case1 => rfl
  | case2 c cs cause _ => rfl
  | case3 c cs hfound _ =>
    have hend := isLineEnd_of_newline hfound
    rw [h c List.mem_cons_self] at hend
    cases hend
  | case4 c cs x _ _ ih => exact ih fun d hd => h d (start_subset c cs hd)

end Scan

namespace Scanner

/-- The line of the first fault from a place on, one step later. -/
theorem breaks?_next (s : Scanner) :
    (Scan.breaks? s.rest).map (s.line + ·) =
      match s.next with
      | none => none
      | some (.error e, _) => some e.line
      | some (.ok _, s') => (Scan.breaks? s'.rest).map (s'.line + ·) := by
  obtain ⟨rest, line, column⟩ := s
  cases rest with
  | nil => simp [next, Scan.breaks?]
  | cons c cs =>
    simp only [next, Scan.breaks?_cons]
    cases (Scan.start c cs).found with
    | error cause => rfl
    | ok lexeme =>
      cases lexeme with
      | newline => simp [Function.comp_def, Nat.add_assoc, Nat.add_comm 1]
      | _ => rfl

theorem run_grows (s : Scanner) (tokens : Array Token) (errors : Array LexError) :
    errors.toList <+: (s.run tokens errors).2.toList := by
  fun_induction run s tokens errors with
  | case1 => exact List.prefix_rfl
  | case2 s tokens errors t s' _ ih => exact ih
  | case3 s tokens errors e s' _ ih => exact List.IsPrefix.trans (by simp) ih

/-- The first fault of a scan carries the number of the first line and the line ends in front of it. -/
theorem head?_run (s : Scanner) (tokens : Array Token) :
    (s.run tokens #[]).2.toList.head?.map (·.line) = (Scan.breaks? s.rest).map (s.line + ·) := by
  generalize herrors : (#[] : Array LexError) = errors
  fun_induction run s tokens errors with
  | case1 s tokens errors hnext =>
    subst herrors
    rw [breaks?_next, hnext]
    rfl
  | case2 s tokens errors t s' hnext ih =>
    rw [ih herrors, breaks?_next s, hnext]
  | case3 s tokens errors e s' hnext ih =>
    subst herrors
    rw [breaks?_next s, hnext]
    obtain ⟨more, hmore⟩ := run_grows s' tokens (#[].push e)
    rw [← hmore]
    rfl

end Scanner

namespace Lines

theorem mem_pieces {cs p : List Char} (hp : p ∈ pieces cs) {c : Char} (hc : c ∈ p) : c ∈ cs ∧ c ≠ '\n' := by
  induction cs generalizing p with
  | nil =>
    simp only [pieces, List.foldr_nil, List.mem_singleton] at hp
    simp [hp] at hc
  | cons d cs ih =>
    simp only [pieces, List.foldr_cons] at hp ih
    split at hp
    · -- the line feed is in no piece
      rcases List.mem_cons.1 hp with rfl | hp
      · cases hc
      · exact (ih hp hc).imp_left (List.mem_cons_of_mem d)
    · rename_i hd
      split at hp
      · grind
      · grind

theorem mem_split {cs p : List Char} (hp : p ∈ split cs) {c : Char} (hc : c ∈ p) : c ∈ cs ∧ c ≠ '\n' := by
  simp only [split, List.mem_append, List.mem_map, List.mem_filter, Option.mem_toList] at hp
  rcases hp with ⟨q, hq, rfl⟩ | ⟨hp, -⟩
  · refine mem_pieces ((List.dropLast_sublist _).subset hq) ?_
    unfold dropReturn at hc
    split at hc
    · exact (List.dropLast_sublist _).subset hc
    · exact hc
  · exact mem_pieces (List.mem_of_getLast? hp) hc

end Lines

namespace Line

/-- How far below its own line a fault of the text is reported. -/
def drift (text : List Char) : Nat :=
  (Scan.breaks? text).getD 0

theorem head?_scan (text : List Char) (n : Nat) :
    (Token.scan text n).2.head?.map (·.line) = (Scan.breaks? text).map (n + ·) :=
  Scanner.head?_run ⟨text, n, 0⟩ #[]

theorem read_error_line {text : List Char} {n : Nat} {e : LineError} (h : read text n = .error e) :
    e.line = n + drift text := by
  have hscan := head?_scan text n
  unfold read at h
  unfold drift
  split at h
  · rename_i e' errors heq
    rw [heq] at hscan
    obtain ⟨d, hd, hline⟩ := Option.map_eq_some_iff.1 hscan.symm
    cases h
    rw [hd]
    exact hline.symm
  · rename_i heq
    rw [heq] at hscan
    rw [Option.map_eq_none_iff.1 hscan.symm]
    split at h
    · cases h
    · cases h
      rfl

theorem drift_of_read {text : List Char} {n : Nat} {l : Line} (h : read text n = .ok l) : drift text = 0 := by
  have hscan := head?_scan text n
  unfold read at h
  split at h
  · cases h
  · rename_i heq
    rw [heq] at hscan
    rw [drift, Option.map_eq_none_iff.1 hscan.symm]
    rfl

/-- A fault of a line without carriage returns is reported on that line. -/
theorem drift_eq_zero {source text : List Char} (ht : text ∈ Lines.split source) (h : '\r' ∉ source) :
    drift text = 0 := by
  refine Scan.breaks?_of_plain fun c hc => ?_
  obtain ⟨hmem, hfeed⟩ := Lines.mem_split ht hc
  have hreturn : c ≠ '\r' := fun heq => h (heq ▸ hmem)
  simp [Scan.isLineEnd, hfeed, hreturn]

end Line

end Mos6502
