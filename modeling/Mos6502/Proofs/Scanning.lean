import Mathlib.Data.List.TakeWhile
import Mos6502.Proofs.Drift
import Mos6502.Proofs.Lexing

/-!
# The pieces of a text

A scan that finds a lexeme cuts a piece off the text, and the piece alone
decides what was found, as long as the text ends behind it or goes on with the
same character. So a text without faults is the row of the pieces of its
lexemes, and it can be taken apart between any two of them.

Main statements: `Scan.cuts_start`, and `Scans.split` for whole texts.
-/
namespace Mos6502

namespace Scan

/-! ## One piece -/

/-- The text is at its end, or goes on with the same character as the other one. -/
def Resumes (cs rest : List Char) : Prop :=
  cs = [] ∨ cs.head? = rest.head?

theorem Resumes.stops {p : Char → Bool} {cs rest : List Char} (h : Resumes cs rest) (hp : Stops p rest) :
    Stops p cs := by
  rcases h with rfl | h
  · exact stops_nil p
  · intro c hc
    exact hp c (h ▸ hc)

theorem Resumes.append {cs rest : List Char} (h : Resumes cs rest) (body : List Char) :
    Resumes (body ++ cs) (body ++ rest) := by
  cases body with
  | nil => exact h
  | cons c body => exact .inr rfl

/-- What the scan finds in a piece that starts with `c` does not depend on what stands behind it. -/
def Cuts (c : Char) (scan : List Char → Scan) : Prop :=
  ∀ {cs x taken rest}, scan cs = ⟨.ok x, taken, rest⟩ →
    ∃ body, taken = c :: body ∧ cs = body ++ rest ∧
      ∀ {more}, Resumes more rest → scan (body ++ more) = ⟨.ok x, taken, more⟩

theorem stops_dropWhile (p : Char → Bool) (cs : List Char) : Stops p (cs.dropWhile p) := by
  intro c hc
  have hnot := List.head?_dropWhile_not p cs
  rw [hc] at hnot
  simpa using hnot

/-- The characters of a class at the start of a text are cut off in the same way wherever they stand. -/
theorem cut_resumes {p : Char → Bool} {cs more : List Char} (h : Resumes more (cs.dropWhile p)) :
    (cs.takeWhile p ++ more).takeWhile p = cs.takeWhile p ∧ (cs.takeWhile p ++ more).dropWhile p = more :=
  cut_stop (fun _ hc => List.mem_takeWhile_imp hc) (h.stops (stops_dropWhile p cs))

theorem filter_resumes {p : Char → Bool} {more rest : List Char} (h : Resumes more rest)
    (hrest : rest.head?.filter p = none) : more.head?.filter p = none := by
  rcases h with rfl | h
  · rfl
  · rw [h, hrest]

theorem cuts_hexadecimal : Cuts '$' hexadecimal := by
  intro cs x taken rest h
  simp only [hexadecimal, mk.injEq] at h
  obtain ⟨hfound, rfl, rfl⟩ := h
  refine ⟨_, rfl, (List.takeWhile_append_dropWhile).symm, ?_⟩
  intro more hmore
  obtain ⟨htake, hdrop⟩ := cut_resumes hmore
  split at hfound
  · cases hfound
  · rename_i hword
    simp only [hexadecimal, htake, hdrop, filter_resumes hmore hword, hfound]

theorem cuts_binary : Cuts '%' binary := by
  intro cs x taken rest h
  simp only [binary, mk.injEq] at h
  obtain ⟨hfound, rfl, rfl⟩ := h
  refine ⟨_, rfl, (List.takeWhile_append_dropWhile).symm, ?_⟩
  intro more hmore
  obtain ⟨htake, hdrop⟩ := cut_resumes hmore
  split at hfound
  · cases hfound
  · rename_i hdigit
    simp only [binary, htake, hdrop, filter_resumes hmore hdigit, hfound]

/-- A scan that takes a row of characters of a class. -/
theorem cuts_class (c : Char) (p : Char → Bool) (found : List Char → Except LexCause Lexeme) :
    Cuts c fun cs => ⟨found (cs.takeWhile p), c :: cs.takeWhile p, cs.dropWhile p⟩ := by
  intro cs x taken rest h
  simp only [mk.injEq] at h
  obtain ⟨hfound, rfl, rfl⟩ := h
  refine ⟨_, rfl, (List.takeWhile_append_dropWhile).symm, ?_⟩
  intro more hmore
  obtain ⟨htake, hdrop⟩ := cut_resumes hmore
  simp only [htake, hdrop, hfound]

/-- A string reaches to its closing quote. -/
theorem stringBody_cut {before : List Char} {bytes : List UInt8} {cs : List Char} {x : Lexeme} {taken rest : List Char}
    (h : stringBody before bytes cs = ⟨.ok x, taken, rest⟩) :
    ∃ body, taken = before.reverse ++ body ∧ cs = body ++ rest ∧
      ∀ more, stringBody before bytes (body ++ more) = ⟨.ok x, taken, more⟩ := by
  fun_induction stringBody before bytes cs with
  | case1 => cases h
  | case2 before bytes cs =>
    cases h
    exact ⟨['"'], by simp, rfl, fun more => by simp [stringBody]⟩
  | case3 => cases h
  | case4 before bytes c cs b hescape ih =>
    obtain ⟨body, rfl, rfl, hmore⟩ := ih h
    refine ⟨'\\' :: c :: body, by simp, rfl, fun more => ?_⟩
    rw [← hmore more]
    simp [stringBody, hescape]
  | case5 => cases h
  | case6 => cases h
  | case7 before bytes c cs hquote hlast hescape hend b hlatin ih =>
    obtain ⟨body, rfl, rfl, hmore⟩ := ih h
    have hslash : c ≠ '\\' := by
      intro hc
      cases hcs : body ++ rest with
      | nil => exact hlast hc hcs
      | cons d ds => exact hescape d ds hc hcs
    refine ⟨c :: body, by simp, rfl, fun more => ?_⟩
    rw [← hmore more, List.cons_append, stringBody]
    · simp [hend, hlatin]
    · exact hquote
    · exact fun hc _ => hslash hc
    · exact fun _ _ hc _ => hslash hc
  | case8 => cases h

theorem cuts_string : Cuts '"' (stringBody ['"'] []) := by
  intro cs x taken rest h
  obtain ⟨body, rfl, hcs, hmore⟩ := stringBody_cut h
  exact ⟨body, rfl, hcs, fun _ => hmore _⟩

theorem closeCharacter_ok {before cs taken rest : List Char} {b : Option UInt8} {x : Lexeme}
    (h : closeCharacter before b cs = ⟨.ok x, taken, rest⟩) :
    taken = before ++ ['\''] ∧ cs = '\'' :: rest ∧
      ∀ more, closeCharacter before b ('\'' :: more) = ⟨.ok x, taken, more⟩ := by
  unfold closeCharacter at h
  split at h
  · cases h
    exact ⟨rfl, rfl, fun _ => rfl⟩
  · cases h

theorem cuts_character : Cuts '\'' character := by
  intro cs x taken rest h
  unfold character at h
  split at h
  · cases h
  · cases h
  · rename_i c cs
    obtain ⟨rfl, rfl, hmore⟩ := closeCharacter_ok h
    exact ⟨['\\', c, '\''], rfl, rfl, fun _ => hmore _⟩
  · rename_i c cs hlast hescape
    split at h
    · cases h
    · rename_i hplain
      obtain ⟨rfl, rfl, hmore⟩ := closeCharacter_ok h
      refine ⟨[c, '\''], rfl, rfl, fun {more} _ => ?_⟩
      rw [← hmore more, List.cons_append, List.singleton_append, character]
      · exact if_neg hplain
      · exact fun hc _ => hescape _ _ hc rfl
      · exact fun _ _ hc _ => hescape _ _ hc rfl

/-- The arguments of an invocation end where they stop or with the text. -/
theorem arguments_cut (before : List Char) (quote : Option Char) (cs : List Char) :
    ∃ body, (arguments before quote cs).1 = body.reverse ++ before ∧ cs = body ++ (arguments before quote cs).2 ∧
      ∀ {more}, Resumes more (arguments before quote cs).2 →
        arguments before quote (body ++ more) = ((arguments before quote cs).1, more) := by
  fun_induction arguments before quote cs with
  | case1 before quote =>
    refine ⟨[], rfl, rfl, fun {more} hmore => ?_⟩
    obtain rfl : more = [] := by simpa [Resumes] using hmore
    rfl
  | case2 before quote c cs hend =>
    refine ⟨[], rfl, rfl, fun {more} hmore => ?_⟩
    cases more with
    | nil => rfl
    | cons d more =>
      obtain rfl : d = c := by simpa [Resumes] using hmore
      simp [arguments, hend]
  | case3 before cs hend =>
    refine ⟨[], rfl, rfl, fun {more} hmore => ?_⟩
    cases more with
    | nil => rfl
    | cons d more =>
      obtain rfl : d = ';' := by simpa [Resumes] using hmore
      simp [arguments, hend]
  | case4 before c cs hend hsemicolon ih =>
    obtain ⟨body, htaken, hcs, hmore⟩ := ih
    refine ⟨c :: body, by simp [htaken], by rw [List.cons_append, ← hcs], fun {more} hresumes => ?_⟩
    rw [← hmore hresumes]
    simp [arguments, hend, hsemicolon]
  | case5 before c cs hend q ih =>
    obtain ⟨body, htaken, hcs, hmore⟩ := ih
    refine ⟨c :: body, by simp [htaken], by rw [List.cons_append, ← hcs], fun {more} hresumes => ?_⟩
    rw [← hmore hresumes]
    simp [arguments, hend]

theorem cuts_invocation : Cuts '@' invocation := by
  intro cs x taken rest h
  unfold invocation at h
  dsimp only at h
  split at h
  · cases h
  · rename_i hname
    obtain ⟨body, htaken, hcs, hmore⟩ := arguments_cut [] none (cs.dropWhile isWordChar)
    cases h
    rw [List.append_nil] at htaken
    refine ⟨cs.takeWhile isWordChar ++ body, by simp [htaken], ?_, fun {more} hresumes => ?_⟩
    · rw [List.append_assoc, ← hcs, List.takeWhile_append_dropWhile]
    · -- the name is cut off first, since the arguments start as before
      have hbody : Resumes (body ++ more) (cs.dropWhile isWordChar) := by
        rw [hcs]
        exact hresumes.append body
      obtain ⟨htake, hdrop⟩ := cut_resumes hbody
      simp only [invocation, List.append_assoc, htake, hdrop, hmore hresumes, hname, Bool.false_eq_true, if_false]

/-- A text that starts with none of the marks is told by the class of its first character. -/
theorem start_unmarked {c : Char} (hc : c ∉ ['\n', '\r', ';', '$', '%', '"', '\'', '@']) (cs : List Char) :
    start c cs =
      if isSpace c then spaces c cs
      else if c.isDigit then decimal c cs
      else if isWordStart c then identifier c cs
      else ((Lexeme.ofSign? c).map fun x => ⟨.ok x, [c], cs⟩).getD ⟨.error (.unexpected c), [], c :: cs⟩ := by
  unfold start
  split
  case h_10 => cases Lexeme.ofSign? c <;> rfl
  all_goals simp at hc

theorem start_return {d : Char} (hd : d ≠ '\n') (cs : List Char) :
    start '\r' (d :: cs) = ⟨.ok .newline, ['\r'], d :: cs⟩ := by
  unfold start
  split
  all_goals simp_all

theorem cuts_return : Cuts '\r' (start '\r') := by
  intro cs x taken rest h
  cases cs with
  | nil =>
    cases h
    refine ⟨[], rfl, rfl, fun {more} hmore => ?_⟩
    obtain rfl : more = [] := by simpa [Resumes] using hmore
    rfl
  | cons d cs =>
    by_cases hd : d = '\n'
    · subst hd
      cases h
      exact ⟨['\n'], rfl, rfl, fun _ => rfl⟩
    · rw [start_return hd] at h
      cases h
      refine ⟨[], rfl, rfl, fun {more} hmore => ?_⟩
      cases more with
      | nil => rfl
      | cons e more =>
        obtain rfl : e = d := by simpa [Resumes] using hmore
        exact start_return hd more

theorem cuts_start (c : Char) : Cuts c (start c) := by
  intro cs x taken rest h
  by_cases hc : c ∈ ['\n', '\r', ';', '$', '%', '"', '\'', '@']
  · simp only [List.mem_cons, List.not_mem_nil, or_false] at hc
    rcases hc with rfl | rfl | rfl | rfl | rfl | rfl | rfl | rfl
    · cases h
      exact ⟨[], rfl, rfl, fun _ => rfl⟩
    · exact cuts_return h
    · exact cuts_class ';' (!isLineEnd ·) (fun text => .ok (.comment (String.ofList text))) h
    · exact cuts_hexadecimal h
    · exact cuts_binary h
    · exact cuts_string h
    · exact cuts_character h
    · exact cuts_invocation h
  · have hstart := start_unmarked hc
    by_cases hspace : isSpace c = true
    · simp only [hspace, if_true] at hstart
      rw [funext hstart] at h ⊢
      exact cuts_class c isSpace (fun _ => .ok .blank) h
    by_cases hdigit : c.isDigit = true
    · simp only [hspace, hdigit, if_true, Bool.false_eq_true, if_false] at hstart
      rw [funext hstart] at h ⊢
      exact cuts_class c (Numeral.isDigit 10) (fun ds => sixteenBits "" 10 (c :: ds) .decimal) h
    by_cases hword : isWordStart c = true
    · simp only [hspace, hdigit, hword, if_true, Bool.false_eq_true, if_false] at hstart
      rw [funext hstart] at h ⊢
      exact cuts_class c isWordChar (fun word => .ok (.identifier (String.ofList (c :: word)))) h
    simp only [hspace, hdigit, hword, Bool.false_eq_true, if_false] at hstart
    rw [funext hstart] at h ⊢
    cases hsign : Lexeme.ofSign? c with
    | none =>
      rw [hsign] at h
      cases h
    | some x =>
      rw [hsign] at h
      cases h
      exact ⟨[], rfl, rfl, fun _ => rfl⟩

/-- The text after its first `n` lexemes. -/
def after : Nat → List Char → List Char
  | 0, cs => cs
  | _ + 1, [] => []
  | n + 1, c :: cs => after n (start c cs).rest

end Scan

/-! ## All pieces of a text -/

/-- The text consists of the lexemes, line ends among them. -/
inductive Scans : List Char → List Lexeme → Prop
  | nil : Scans [] []
  | cons {c : Char} {cs taken rest : List Char} {x : Lexeme} {xs : List Lexeme} :
    Scan.start c cs = ⟨.ok x, taken, rest⟩ → Scans rest xs → Scans (c :: cs) (x :: xs)

namespace Scans

/-- Without line ends the text is a single line. -/
theorem lexes {cs : List Char} {xs : List Lexeme} (h : Scans cs xs) (hx : .newline ∉ xs) : Lexes cs xs := by
  induction h with
  | nil => exact .nil
  | cons scan _ ih =>
    simp only [List.mem_cons, not_or] at hx
    exact .cons scan (Ne.symm hx.1) (ih hx.2)

/-- A text can be taken apart between any two of its lexemes. -/
theorem split {cs : List Char} {xs ys : List Lexeme} (h : Scans cs (xs ++ ys)) :
    ∃ used, cs = used ++ Scan.after xs.length cs ∧ Scans used xs ∧ Scans (Scan.after xs.length cs) ys := by
  induction xs generalizing cs with
  | nil => exact ⟨[], rfl, .nil, h⟩
  | cons x xs ih =>
    cases h with
    | @cons c cs taken rest _ _ scan lexes =>
      obtain ⟨used, hrest, hused, hafter⟩ := ih lexes
      obtain ⟨body, -, hcs, hmore⟩ := Scan.cuts_start c scan
      have hsame : Scan.after (x :: xs).length (c :: cs) = Scan.after xs.length rest := by
        rw [List.length_cons, Scan.after, scan]
      have hresumes : Scan.Resumes used rest := by
        rw [hrest]
        cases used with
        | nil => exact .inl rfl
        | cons d used => exact .inr rfl
      refine ⟨c :: (body ++ used), ?_, .cons (hmore hresumes) hused, hsame ▸ hafter⟩
      rw [hsame, hcs, List.cons_append, List.append_assoc, ← hrest]

end Scans

namespace Scanner

theorem next_eq_ok {s s' : Scanner} {t : Token} (h : s.next = some (.ok t, s')) :
    ∃ c cs taken, s.rest = c :: cs ∧ Scan.start c cs = ⟨.ok t.lexeme, taken, s'.rest⟩ := by
  unfold next at h
  split at h
  · cases h
  · rename_i c cs hrest
    refine ⟨c, cs, (Scan.start c cs).taken, hrest, ?_⟩
    have hscan : Scan.start c cs = ⟨(Scan.start c cs).found, (Scan.start c cs).taken, (Scan.start c cs).rest⟩ := rfl
    dsimp only at h
    split at h
    · rename_i hfound
      cases h
      rw [hscan, hfound]
    · rename_i hfound
      cases h
      rw [hscan, hfound]
    · cases h

theorem rest_eq_nil {s : Scanner} (h : s.next = none) : s.rest = [] := by
  cases hs : s.rest with
  | nil => rfl
  | cons c cs =>
    simp only [next, hs] at h
    split at h <;> cases h

/-- A fault stays to the end. -/
theorem run_push_ne (s : Scanner) (tokens : Array Token) (errors : Array LexError) (e : LexError) :
    (s.run tokens (errors.push e)).2 ≠ #[] := by
  intro h
  have hgrows := run_grows s tokens (errors.push e)
  rw [h] at hgrows
  simp at hgrows

/-- A scan without faults finds the lexemes of the text, one after another. -/
theorem scans_of_run {s : Scanner} {tokens : Array Token} {errors : Array LexError}
    (h : (s.run tokens errors).2 = #[]) :
    ∃ xs, Scans s.rest xs ∧
      (s.run tokens errors).1.toList.map (·.lexeme) = tokens.toList.map (·.lexeme) ++ (xs ++ [.endOfText]) := by
  fun_induction run s tokens errors with
  | case1 s tokens errors hnext => exact ⟨[], rest_eq_nil hnext ▸ .nil, by simp⟩
  | case2 s tokens errors t s' hnext ih =>
    obtain ⟨xs, hxs, htokens⟩ := ih h
    obtain ⟨c, cs, taken, hrest, hscan⟩ := next_eq_ok hnext
    exact ⟨t.lexeme :: xs, hrest ▸ .cons hscan hxs, by simp [htokens]⟩
  | case3 s tokens errors e s' hnext ih => exact absurd h (run_push_ne s' tokens errors e)

end Scanner

theorem Token.scans_of_scan {text : List Char} {firstLine : Nat} {tokens : List Token}
    (h : scan text firstLine = (tokens, [])) :
    ∃ xs, Scans text xs ∧ tokens.map (·.lexeme) = xs ++ [.endOfText] := by
  have hrun : Scanner.run ⟨text, firstLine, 0⟩ #[] #[] = (tokens.toArray, #[]) := by
    simp only [scan, Prod.mk.injEq, Array.toList_eq_nil_iff] at h
    exact Prod.ext (by simp [← h.1]) h.2
  obtain ⟨xs, hxs, htokens⟩ := Scanner.scans_of_run (congrArg Prod.snd hrun)
  exact ⟨xs, hxs, by simpa [hrun] using htokens⟩

end Mos6502
