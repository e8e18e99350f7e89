import Mathlib.Data.List.Induction
import Mos6502.Macro.Arguments
import Mos6502.Proofs.Lexing

/-!
# Where the arguments of a macro end

The arguments of a macro reach to the first semicolon outside quotes. They are
split at commas later, and there a backslash between quotes takes the next
character along, so that an escaped quote closes nothing. The rule by which they
end knows no backslash. Both rules judge a text alike as long as no quote in it is
escaped; otherwise the arguments may end inside a string, or a comment may be
taken for a part of them.

Main statement: `Macro.arguments_end`.
-/
namespace Mos6502.Macro

/-! ## Rules for quotes -/

/-- The state after one more character, by the rule that knows no backslash. -/
def Quoting.stepPlain : Quoting → Char → Quoting
  | outside, c => if c = '"' ∨ c = '\'' then inside c else outside
  | inside q, c | escaped q, c => if c = q then outside else inside q

/-- By the rule for quotes, the arguments in a text end after `args`: behind them stands the first semicolon outside
quotes, or nothing. -/
structure EndsAfter (rule : Quoting → Char → Quoting) (state : Quoting) (text args : List Char) : Prop where
  stop : text = args ∨ (∃ rest, text = args ++ ';' :: rest) ∧ args.foldl rule state = .outside
  first : ∀ before after, args = before ++ ';' :: after → before.foldl rule state ≠ .outside

/-- The part of a text before its first semicolon outside quotes. -/
def beforeComment (rule : Quoting → Char → Quoting) (state : Quoting) : List Char → List Char
  | [] => []
  | c :: cs => if c = ';' ∧ state = .outside then [] else c :: beforeComment rule (rule state c) cs

theorem endsAfter_beforeComment (rule : Quoting → Char → Quoting) (state : Quoting) (text : List Char) :
    EndsAfter rule state text (beforeComment rule state text) := by
  fun_induction beforeComment rule state text with
  | case1 state => exact ⟨.inl rfl, by simp⟩
  | case2 state c cs h =>
    obtain ⟨rfl, rfl⟩ := h
    exact ⟨.inr ⟨⟨cs, rfl⟩, rfl⟩, by simp⟩
  | case3 state c cs h ih =>
    constructor
    · rcases ih.stop with hall | ⟨⟨rest, hrest⟩, houtside⟩
      · exact .inl (by rw [← hall])
      · exact .inr ⟨⟨rest, by rw [List.cons_append, ← hrest]⟩, houtside⟩
    · intro before after heq
      cases before with
      | nil =>
        have hc := (List.cons.inj heq).1
        exact fun houtside => h ⟨hc, houtside⟩
      | cons d before =>
        obtain ⟨rfl, hrest⟩ := List.cons.inj heq
        exact ih.first before after hrest

/-- By one rule the arguments end in one place. -/
theorem EndsAfter.eq_beforeComment {rule : Quoting → Char → Quoting} {state : Quoting} {text args : List Char}
    (h : EndsAfter rule state text args) : args = beforeComment rule state text := by
  induction text generalizing state args with
  | nil =>
    rcases h.stop with hargs | ⟨⟨rest, hrest⟩, -⟩
    · exact hargs.symm
    · simp at hrest
  | cons c cs ih =>
    unfold beforeComment
    cases args with
    | nil =>
      rcases h.stop with hargs | ⟨⟨rest, hrest⟩, houtside⟩
      · cases hargs
      · exact (if_pos ⟨(List.cons.inj hrest).1, houtside⟩).symm
    | cons d args =>
      obtain rfl : c = d := by
        rcases h.stop with hargs | ⟨⟨rest, hrest⟩, -⟩
        · exact (List.cons.inj hargs).1
        · exact (List.cons.inj hrest).1
      have hinside : ¬(c = ';' ∧ state = .outside) := by
        rintro ⟨rfl, houtside⟩
        exact h.first [] args rfl houtside
      rw [if_neg hinside, ← ih ⟨?_, fun before after hargs => h.first (c :: before) after (congrArg (c :: ·) hargs)⟩]
      refine h.stop.imp (fun hargs => (List.cons.inj hargs).2) ?_
      rintro ⟨⟨rest, hrest⟩, houtside⟩
      exact ⟨⟨rest, (List.cons.inj hrest).2⟩, houtside⟩

theorem EndsAfter.exists_append {rule : Quoting → Char → Quoting} {state : Quoting} {text args : List Char}
    (h : EndsAfter rule state text args) : ∃ rest, text = args ++ rest ∧ (rest = [] ∨ ∃ tail, rest = ';' :: tail) := by
  rcases h.stop with rfl | ⟨⟨tail, rfl⟩, -⟩
  · exact ⟨[], by simp, .inl rfl⟩
  · exact ⟨_, rfl, .inr ⟨tail, rfl⟩⟩

/-- The two rules agree for every semicolon up to the end of the arguments whether it stands outside quotes. -/
def JudgedAlike (text args : List Char) : Prop :=
  ∀ before after, text = before ++ ';' :: after → before.length ≤ args.length →
    (before.foldl Quoting.stepPlain .outside = .outside ↔ before.foldl Quoting.step .outside = .outside)

/-- The arguments end in the same place by both rules if and only if the rules judge every semicolon alike. -/
theorem EndsAfter.step_iff {text args : List Char} (h : EndsAfter Quoting.stepPlain .outside text args) :
    EndsAfter Quoting.step .outside text args ↔ JudgedAlike text args := by
  obtain ⟨rest, htext, hrest⟩ := h.exists_append
  constructor
  · intro h' before after hsplit hle
    rcases Nat.lt_or_eq_of_le hle with hlt | heq
    · -- a semicolon within the arguments is outside by neither rule
      obtain ⟨inner, hargs⟩ : ∃ inner, args = before ++ ';' :: inner := by
        obtain ⟨tail, htail, hcons⟩ | ⟨tail, hbefore, -⟩ := List.append_eq_append_iff.1 (hsplit.symm.trans htext)
        · cases tail with
          | nil => simp [htail] at hlt
          | cons c tail =>
            obtain ⟨rfl, -⟩ := List.cons.inj hcons
            exact ⟨tail, htail⟩
        · rw [hbefore, List.length_append] at hlt
          omega
      exact iff_of_false (h.first before inner hargs) (h'.first before inner hargs)
    · obtain ⟨rfl, hafter⟩ := List.append_inj (htext.symm.trans hsplit) heq.symm
      have hne : text ≠ args := by
        rintro rfl
        simp at hsplit
      exact iff_of_true (h.stop.resolve_left hne).2 (h'.stop.resolve_left hne).2
  · intro halike
    constructor
    · refine h.stop.imp_right ?_
      rintro ⟨⟨tail, htail⟩, houtside⟩
      exact ⟨⟨tail, htail⟩, (halike args tail htail (Nat.le_refl _)).1 houtside⟩
    · intro before after hargs houtside
      refine h.first before after hargs ((halike before (after ++ rest) ?_ ?_).2 houtside)
      · rw [htext, hargs]
        simp
      · rw [hargs]
        simp

/-! ## Texts without escaped quotes -/

/-- No quote is escaped that would otherwise close the quotes it stands in. -/
def NoEscapedQuote (text : List Char) : Prop :=
  ∀ before c after, text = before ++ c :: after → before.foldl Quoting.step .outside ≠ .escaped c

namespace Quoting

/-- The state without what a backslash did. -/
def plain : Quoting → Quoting
  | outside => outside
  | inside q | escaped q => inside q

/-- Text stands between quotes only. -/
def Proper : Quoting → Prop
  | outside => True
  | inside q | escaped q => q = '"' ∨ q = '\''

theorem proper_step {s : Quoting} (h : s.Proper) (c : Char) : (s.step c).Proper := by
  cases s with
  | outside =>
    by_cases hc : c = '"' ∨ c = '\''
    · simp only [step, if_pos hc]
      exact hc
    · simp only [step, if_neg hc]
      trivial
  | inside q =>
    by_cases hslash : c = '\\'
    · simp only [step, if_pos hslash]
      exact h
    · by_cases hq : c = q
      · simp only [step, if_neg hslash, if_pos hq]
        trivial
      · simp only [step, if_neg hslash, if_neg hq]
        exact h
  | escaped q => exact h

/-- The rules differ only where a quote that would close is escaped. -/
theorem plain_step {s : Quoting} (hs : s.Proper) {c : Char} (h : s ≠ .escaped c) :
    (s.step c).plain = s.plain.stepPlain c := by
  cases s with
  | outside => by_cases hc : c = '"' ∨ c = '\'' <;> simp [step, stepPlain, plain, hc]
  | inside q =>
    by_cases hslash : c = '\\'
    · -- a backslash is no quote
      have hq : c ≠ q := by
        rintro rfl
        rcases hs with hq | hq <;> cases hslash.symm.trans hq
      simp only [step, stepPlain, plain, if_pos hslash, if_neg hq]
    · by_cases hq : c = q
      · simp only [step, stepPlain, plain, if_neg hslash, if_pos hq]
      · simp only [step, stepPlain, plain, if_neg hslash, if_neg hq]
  | escaped q =>
    have hq : c ≠ q := by
      rintro rfl
      exact h rfl
    simp only [step, stepPlain, plain, if_neg hq]

end Quoting

theorem states_of_noEscapedQuote {text before after : List Char} (h : NoEscapedQuote text)
    (htext : text = before ++ after) :
    (before.foldl Quoting.step .outside).Proper ∧
      before.foldl Quoting.stepPlain .outside = (before.foldl Quoting.step .outside).plain := by
  induction before using List.reverseRecOn generalizing after with
  | nil => exact ⟨trivial, rfl⟩
  | append_singleton before c ih =>
    rw [List.append_assoc] at htext
    obtain ⟨hproper, hplain⟩ := ih htext
    simp only [List.foldl_append, List.foldl_cons, List.foldl_nil]
    refine ⟨Quoting.proper_step hproper c, ?_⟩
    rw [hplain, Quoting.plain_step hproper (h before c after htext)]

theorem judgedAlike_of_noEscapedQuote {text : List Char} (h : NoEscapedQuote text) (args : List Char) :
    JudgedAlike text args := by
  intro before after htext _
  rw [(states_of_noEscapedQuote h htext).2]
  cases before.foldl Quoting.step .outside <;> simp [Quoting.plain]

/-! ## Reading the arguments -/

/-- The state of the scan between the given quotes, if any. -/
def Quoting.ofQuote : Option Char → Quoting
  | none => outside
  | some q => inside q

/-- On a line, the arguments are read by the rule that knows no backslash. -/
theorem arguments_eq {cs : List Char} (hline : ∀ c ∈ cs, Scan.isLineEnd c = false) (taken : List Char)
    (quote : Option Char) :
    (Scan.arguments taken quote cs).1 =
        (beforeComment Quoting.stepPlain (.ofQuote quote) cs).reverse ++ taken ∧
      cs = beforeComment Quoting.stepPlain (.ofQuote quote) cs ++ (Scan.arguments taken quote cs).2 := by
  fun_induction Scan.arguments taken quote cs with
  | case1 => exact ⟨rfl, rfl⟩
  | case2 taken quote c cs hend =>
    rw [hline c List.mem_cons_self] at hend
    cases hend
  | case3 taken cs _ => exact ⟨rfl, rfl⟩
  | case4 taken c cs _ hsemicolon ih =>
    obtain ⟨htaken, hcs⟩ := ih fun d hd => hline d (List.mem_cons_of_mem c hd)
    have hstep : Quoting.ofQuote (if c = '"' ∨ c = '\'' then some c else none) = Quoting.outside.stepPlain c := by
      simp only [Quoting.stepPlain]
      split <;> rfl
    rw [hstep] at htaken hcs
    simp only [Quoting.ofQuote, beforeComment, hsemicolon, false_and, if_false, List.reverse_cons, List.append_assoc,
      List.cons_append, List.nil_append]
    exact ⟨htaken, congrArg (c :: ·) hcs⟩
  | case5 taken c cs _ q ih =>
    obtain ⟨htaken, hcs⟩ := ih fun d hd => hline d (List.mem_cons_of_mem c hd)
    have hstep : Quoting.ofQuote (if c = q then none else some q) = (Quoting.inside q).stepPlain c := by
      simp only [Quoting.stepPlain]
      split <;> rfl
    rw [hstep] at htaken hcs
    simp only [Quoting.ofQuote, beforeComment, reduceCtorEq, and_false, if_false, List.reverse_cons, List.append_assoc,
      List.cons_append, List.nil_append]
    exact ⟨htaken, congrArg (c :: ·) hcs⟩

/-- The lexemes of what stands behind the arguments. -/
def commentLexemes : List Char → List Lexeme
  | [] => []
  | _ :: text => [.comment (String.ofList text)]

theorem lexes_commentLexemes {rest : List Char} (hline : ∀ c ∈ rest, Scan.isLineEnd c = false)
    (hrest : rest = [] ∨ ∃ tail, rest = ';' :: tail) : Lexes rest (commentLexemes rest) := by
  rcases hrest with rfl | ⟨tail, rfl⟩
  · exact .nil
  · exact .comment fun c hc => hline c (List.mem_cons_of_mem _ hc)

/-- An invocation is read up to the end of its arguments, by the rule that knows no backslash. -/
theorem lexes_invocation {name text : List Char} (hname : name ≠ []) (hword : ∀ c ∈ name, Scan.isWordChar c = true)
    (hline : ∀ c ∈ text, Scan.isLineEnd c = false) :
    ∃ rest, text = beforeComment Quoting.stepPlain .outside text ++ rest ∧
      Lexes ('@' :: (name ++ ' ' :: text)) (.invocation (String.ofList name)
        (String.ofList (Blank.trim (beforeComment Quoting.stepPlain .outside text))) :: commentLexemes rest) := by
  have hblank : Scan.isLineEnd ' ' = false := rfl
  obtain ⟨htaken, hcs⟩ := arguments_eq (List.forall_mem_cons.2 ⟨hblank, hline⟩) [] none
  -- a blank behind the name changes nothing
  have hbefore : beforeComment Quoting.stepPlain (.ofQuote none) (' ' :: text) =
      ' ' :: beforeComment Quoting.stepPlain .outside text := rfl
  rw [hbefore] at htaken hcs
  have htext := (List.cons.inj hcs).2
  refine ⟨_, htext, ?_⟩
  have hstops : Stops Scan.isWordChar (' ' :: text) := stops_cons rfl
  obtain ⟨htake, hdrop⟩ := cut_stop hword hstops
  have hscan : Scan.start '@' (name ++ ' ' :: text) = ⟨.ok (.invocation (String.ofList name)
      (String.ofList (Blank.trim (beforeComment Quoting.stepPlain .outside text)))),
      '@' :: (name ++ ' ' :: beforeComment Quoting.stepPlain .outside text),
      (Scan.arguments [] none (' ' :: text)).2⟩ := by
    have hempty : name.isEmpty = false := by simpa using hname
    have htrim (cs : List Char) : Blank.trim (' ' :: cs) = Blank.trim cs := rfl
    show Scan.invocation (name ++ ' ' :: text) = _
    simp only [Scan.invocation, htake, hdrop, hempty, htaken, List.append_nil, List.reverse_reverse, htrim,
      Bool.false_eq_true, if_false]
  refine .cons hscan (by simp) (lexes_commentLexemes ?_ ?_)
  · intro c hc
    exact hline c (htext ▸ List.mem_append_right _ hc)
  · obtain ⟨rest, hrest, hstop⟩ := (endsAfter_beforeComment Quoting.stepPlain .outside text).exists_append
    rwa [List.append_cancel_left (htext.symm.trans hrest)]

/-- The arguments of a macro end at the first semicolon outside quotes by the rule that knows no backslash. This is
where they should end by the rule for splitting them if and only if the two rules judge every semicolon up to there
alike, as they do in a text without escaped quotes. -/
theorem arguments_end {name text : List Char} (hname : name ≠ []) (hword : ∀ c ∈ name, Scan.isWordChar c = true)
    (hline : ∀ c ∈ text, Scan.isLineEnd c = false) (line : Nat) :
    ∃ args rest tokens, text = args ++ rest ∧
      Token.read ('@' :: (name ++ ' ' :: text)) line = .ok tokens ∧
      tokens.map (·.lexeme) =
        .invocation (String.ofList name) (String.ofList (Blank.trim args)) :: commentLexemes rest ++ [.endOfText] ∧
      EndsAfter Quoting.stepPlain .outside text args ∧
      (EndsAfter Quoting.step .outside text args ↔ JudgedAlike text args) ∧
      (NoEscapedQuote text → EndsAfter Quoting.step .outside text args) := by
  obtain ⟨rest, htext, hlexes⟩ := lexes_invocation hname hword hline
  obtain ⟨tokens, hscan, htokens⟩ := hlexes.scan line
  have hplain := endsAfter_beforeComment Quoting.stepPlain .outside text
  refine ⟨_, rest, tokens, htext, ?_, htokens, hplain, hplain.step_iff, ?_⟩
  · rw [Token.read, hscan]
  · intro hquotes
    exact hplain.step_iff.2 (judgedAlike_of_noEscapedQuote hquotes _)

/-- An escaped quote makes a comment of the second half of a string. -/
theorem arguments_end_escaped : ∃ tokens,
    Token.read "@text_string \"say \\\"hi; there\\\"\"".toList 1 = .ok tokens ∧
      tokens.map (·.lexeme) =
        [.invocation "text_string" "\"say \\\"hi", .comment " there\\\"\"", .endOfText] ∧
      ¬EndsAfter Quoting.step .outside "\"say \\\"hi; there\\\"\"".toList "\"say \\\"hi".toList := by
  have hname : "text_string".toList ≠ [] := by decide
  have hword : ∀ c ∈ "text_string".toList, Scan.isWordChar c = true := List.all_eq_true.1 (by decide)
  have hline : Plain "\"say \\\"hi; there\\\"\"" := by decide
  obtain ⟨args, rest, tokens, htext, hread, htokens, hplain, -, -⟩ := arguments_end hname hword (plain_iff.1 hline) 1
  have hargs : args = "\"say \\\"hi".toList := hplain.eq_beforeComment.trans (by decide)
  have hrest : rest = "; there\\\"\"".toList := by
    have hsplit : "\"say \\\"hi; there\\\"\"".toList = "\"say \\\"hi".toList ++ "; there\\\"\"".toList := by decide
    rw [hargs] at htext
    exact List.append_cancel_left (htext.symm.trans hsplit)
  refine ⟨tokens, hread, ?_, ?_⟩
  · rw [htokens, hargs, hrest]
    decide
  · intro hends
    exact absurd hends.eq_beforeComment (by decide)

end Mos6502.Macro
