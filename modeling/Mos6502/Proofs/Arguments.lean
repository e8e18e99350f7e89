import Mathlib.Data.List.Forall2
import Mos6502.Proofs.Quoting
import Mos6502.Proofs.SymbolFile

/-!
# Arguments are split at their commas

A text has its quotes closed if it is made of plain characters and whole
quotations, and a comma stands outside quotes if the text before it has its
quotes closed. Splitting cuts a text at exactly these commas and trims the pieces.
So arguments with closed quotes and no such comma of their own come back from the
text that they are joined to.

Main statement: `Macro.arguments_split`.
-/
namespace Mos6502

namespace Blank

/-- The second text is the first one without the white space around it. -/
structure Strips (cs ds : List Char) : Prop where
  around : ∃ front back, cs = front ++ (ds ++ back) ∧
    (∀ c ∈ front, isBlank c = true) ∧ ∀ c ∈ back, isBlank c = true
  trimmed : Trimmed ds

theorem strips_trim (cs : List Char) : Strips cs (trim cs) := by
  refine ⟨⟨cs.takeWhile isBlank, (trimStart cs).rtakeWhile isBlank, ?_, ?_, ?_⟩, trimmed_trim cs⟩
  · have hend : trim cs ++ (trimStart cs).rtakeWhile isBlank = trimStart cs := List.rdropWhile_append_rtakeWhile
    rw [hend]
    exact List.takeWhile_append_dropWhile.symm
  · exact fun c hc => List.mem_takeWhile_imp hc
  · exact fun c hc => List.mem_rtakeWhile_imp hc

theorem trim_ne_nil {cs : List Char} {c : Char} (hc : c ∈ cs) (hblank : isBlank c = false) : trim cs ≠ [] := by
  intro hnil
  obtain ⟨⟨front, back, hcs, hfront, hback⟩, -⟩ := strips_trim cs
  rw [hnil, List.nil_append] at hcs
  rw [hcs, List.mem_append] at hc
  have htrue : isBlank c = true := hc.elim (hfront c) (hback c)
  rw [hblank] at htrue
  cases htrue

end Blank

namespace Macro

/-! ## Closed quotes -/

/-- The text can stand between two quotes `q`: no such quote is in it but behind a backslash. -/
inductive Quotable (q : Char) : List Char → Prop
  | nil : Quotable q []
  | plain {c : Char} {cs : List Char} : c ≠ '\\' → c ≠ q → Quotable q cs → Quotable q (c :: cs)
  | escaped (c : Char) {cs : List Char} : Quotable q cs → Quotable q ('\\' :: c :: cs)

/-- Every quote that is opened in the text is closed in it. -/
inductive Closed : List Char → Prop
  | nil : Closed []
  | plain {c : Char} {cs : List Char} : c ≠ '"' → c ≠ '\'' → Closed cs → Closed (c :: cs)
  | quoted {q : Char} {body cs : List Char} : q = '"' ∨ q = '\'' → Quotable q body → Closed cs →
    Closed (q :: (body ++ q :: cs))

theorem Quotable.foldl_step {q : Char} {body : List Char} (h : Quotable q body) :
    body.foldl Quoting.step (.inside q) = .inside q := by
  induction h with
  | nil => rfl
  | plain hslash hq _ ih => simpa [Quoting.step, hslash, hq] using ih
  | escaped c _ ih => simpa [Quoting.step] using ih

theorem Closed.foldl_step {cs : List Char} (h : Closed cs) : cs.foldl Quoting.step .outside = .outside := by
  induction h with
  | nil => rfl
  | plain hdouble hsingle _ ih => simpa [Quoting.step, hdouble, hsingle] using ih
  | @quoted q body cs hq hbody _ ih =>
    have hslash : q ≠ '\\' := by
      rintro rfl
      rcases hq with hq | hq <;> cases hq
    rw [List.foldl_cons, List.foldl_append, List.foldl_cons]
    simp only [Quoting.step, if_pos hq, hbody.foldl_step, if_neg hslash, if_true, ih]

/-- The text closes the quotes that are open in front of it, and all of its own. -/
def Closes : Quoting → List Char → Prop
  | .outside, cs => Closed cs
  | .inside q, cs => ∃ body rest, cs = body ++ q :: rest ∧ Quotable q body ∧ Closed rest
  | .escaped q, cs => ∃ c body rest, cs = c :: (body ++ q :: rest) ∧ Quotable q body ∧ Closed rest

theorem closes_of_foldl {state : Quoting} (hproper : state.Proper) {cs : List Char}
    (h : cs.foldl Quoting.step state = .outside) : Closes state cs := by
  -- over the states, because the rest of a quotation is not closed by itself
  induction cs generalizing state with
  | nil =>
    rw [List.foldl_nil] at h
    subst h
    exact .nil
  | cons c cs ih =>
    have hrest := ih (Quoting.proper_step hproper c) h
    cases state with
    | outside =>
      by_cases hc : c = '"' ∨ c = '\''
      · simp only [Quoting.step, if_pos hc] at hrest
        obtain ⟨body, rest, rfl, hbody, hclosed⟩ := hrest
        exact .quoted hc hbody hclosed
      · simp only [Quoting.step, if_neg hc] at hrest
        rw [not_or] at hc
        exact .plain hc.1 hc.2 hrest
    | inside q =>
      by_cases hslash : c = '\\'
      · simp only [Quoting.step, if_pos hslash] at hrest
        obtain ⟨d, body, rest, rfl, hbody, hclosed⟩ := hrest
        exact ⟨c :: d :: body, rest, rfl, hslash ▸ hbody.escaped d, hclosed⟩
      · by_cases hq : c = q
        · simp only [Quoting.step, if_neg hslash, if_pos hq] at hrest
          exact ⟨[], cs, by rw [hq]; rfl, .nil, hrest⟩
        · simp only [Quoting.step, if_neg hslash, if_neg hq] at hrest
          obtain ⟨body, rest, rfl, hbody, hclosed⟩ := hrest
          exact ⟨c :: body, rest, rfl, hbody.plain hslash hq, hclosed⟩
    | escaped q =>
      obtain ⟨body, rest, rfl, hbody, hclosed⟩ := hrest
      exact ⟨c, body, rest, rfl, hbody, hclosed⟩

theorem closed_iff {cs : List Char} : Closed cs ↔ cs.foldl Quoting.step .outside = .outside :=
  ⟨Closed.foldl_step, closes_of_foldl (show Quoting.outside.Proper from trivial)⟩

instance (cs : List Char) : Decidable (Closed cs) :=
  decidable_of_iff _ closed_iff.symm

/-! ## Commas outside quotes -/

/-- The positions of the commas outside quotes: the text before such a comma has its quotes closed. -/
def outerCommas (cs : List Char) : List Nat :=
  (List.range cs.length).filter fun i => cs[i]? = some ',' ∧ Closed (cs.take i)

/-- The positions of the commas outside quotes, in a text that goes on after another one. -/
def commasFrom (state : Quoting) : List Char → List Nat
  | [] => []
  | c :: cs => (if c = ',' ∧ state = .outside then [0] else []) ++ (commasFrom (state.step c) cs).map (· + 1)

theorem commasFrom_eq (state : Quoting) (cs : List Char) :
    commasFrom state cs = (List.range cs.length).filter fun i =>
      cs[i]? = some ',' ∧ (cs.take i).foldl Quoting.step state = .outside := by
  induction cs generalizing state with
  | nil => rfl
  | cons c cs ih =>
    rw [commasFrom, ih, List.length_cons, List.range_succ_eq_map, List.filter_cons, List.filter_map]
    simp only [Function.comp_def, List.getElem?_cons_succ, List.take_succ_cons, List.foldl_cons,
      List.getElem?_cons_zero, List.take_zero, List.foldl_nil, Option.some.injEq, decide_eq_true_eq]
    split <;> rfl

theorem outerCommas_eq (cs : List Char) : outerCommas cs = commasFrom .outside cs := by
  simp only [outerCommas, commasFrom_eq, closed_iff]

theorem commasFrom_append (state : Quoting) (as bs : List Char) :
    commasFrom state (as ++ bs) =
      commasFrom state as ++ (commasFrom (as.foldl Quoting.step state) bs).map (· + as.length) := by
  induction as generalizing state with
  | nil => simp [commasFrom]
  | cons a as ih =>
    simp only [List.cons_append, commasFrom, ih, List.map_append, List.map_map, List.append_assoc, List.foldl_cons,
      List.length_cons]
    rfl

/-! ## Pieces -/

/-- The positions of the commas between pieces that are joined by commas. -/
def seams : List (List Char) → List Nat
  | [] | [_] => []
  | p :: q :: ps => p.length :: (seams (q :: ps)).map (· + (p.length + 1))

/-- The pieces of a text between its commas outside quotes. -/
structure Pieces (cs : List Char) (pieces : List (List Char)) : Prop where
  nonempty : pieces ≠ []
  joined : [','].intercalate pieces = cs
  seams : seams pieces = outerCommas cs

theorem length_seams {ps : List (List Char)} (h : ps ≠ []) : ps.length = (seams ps).length + 1 := by
  fun_induction seams ps with
  | case1 => exact absurd rfl h
  | case2 => rfl
  | case3 p q ps ih => simp [ih (by simp)]

/-- A text has one row of pieces. -/
theorem pieces_unique {ps qs : List (List Char)} (hps : ps ≠ []) (hqs : qs ≠ [])
    (hjoined : [','].intercalate ps = [','].intercalate qs) (hseams : seams ps = seams qs) : ps = qs := by
  have hlength : ps.length = qs.length := by rw [length_seams hps, length_seams hqs, hseams]
  fun_induction seams ps generalizing qs with
  | case1 => exact absurd rfl hps
  | case2 p =>
    obtain ⟨q, rfl⟩ := List.length_eq_one_iff.1 hlength.symm
    simpa using hjoined
  | case3 p p' ps ih =>
    match qs with
    | [_] => simp at hlength
    | q :: q' :: qs =>
      -- the first seam tells where the first piece ends
      rw [seams, List.cons.injEq] at hseams
      obtain ⟨hfirst, htail⟩ := hseams
      simp only [List.intercalate_cons_cons, List.append_assoc] at hjoined
      obtain ⟨rfl, hrest⟩ := List.append_inj hjoined hfirst
      have hinj : Function.Injective (· + (p.length + 1)) := fun _ _ => Nat.add_right_cancel
      rw [ih (by simp) (by simp) (List.append_cancel_left hrest) (List.map_injective_iff.2 hinj htail)
        (by simpa using hlength)]

theorem Pieces.unique {cs : List Char} {ps qs : List (List Char)} (h : Pieces cs ps) (h' : Pieces cs qs) : ps = qs :=
  pieces_unique h.nonempty h'.nonempty (h.joined.trans h'.joined.symm) (h.seams.trans h'.seams.symm)

/-- Arguments with closed quotes and no comma outside of them are the pieces of the text they are joined to. -/
theorem pieces_joined {args : List (List Char)} (hne : args ≠ [])
    (h : ∀ arg ∈ args, Closed arg ∧ outerCommas arg = []) : Pieces ([','].intercalate args) args := by
  refine ⟨hne, rfl, ?_⟩
  rw [outerCommas_eq]
  fun_induction seams args with
  | case1 => exact absurd rfl hne
  | case2 arg =>
    rw [List.intercalate_singleton, ← outerCommas_eq]
    exact (h arg (by simp)).2.symm
  | case3 arg next args ih =>
    obtain ⟨hclosed, hcommas⟩ := h arg (by simp)
    rw [outerCommas_eq] at hcommas
    have hstep : Quoting.outside.step ',' = .outside := rfl
    rw [List.intercalate_cons_cons, List.append_assoc, commasFrom_append, hcommas, hclosed.foldl_step,
      List.singleton_append, commasFrom, hstep, ih (by simp) fun arg harg => h arg (List.mem_cons_of_mem _ harg),
      if_pos ⟨rfl, rfl⟩, List.nil_append, List.singleton_append, List.map_cons, List.map_map, Nat.zero_add]
    refine congrArg (arg.length :: ·) (List.map_congr_left fun i _ => ?_)
    rw [Function.comp_apply]
    omega

/-! ## Splitting -/

/-- The pieces read before go in front, and the characters read before at the start of the next piece. -/
theorem splitFrom_eq (pieces : List (List Char)) (piece : List Char) (state : Quoting) (cs : List Char) :
    splitFrom pieces piece state cs =
      pieces.reverse ++ (splitFrom [] [] state cs).modifyHead (piece.reverse ++ ·) := by
  induction cs generalizing pieces piece state with
  | nil => simp [splitFrom]
  | cons c cs ih =>
    unfold splitFrom
    split
    · rw [ih (piece.reverse :: pieces), ih [[].reverse]]
      simp
    · rw [ih pieces (c :: piece), ih [] [c], List.reverse_nil, List.nil_append, List.modifyHead_modifyHead]
      simp [Function.comp_def]

theorem splitFrom_comma (cs : List Char) :
    splitFrom [] [] .outside (',' :: cs) = [] :: splitFrom [] [] .outside cs := by
  rw [splitFrom, if_pos ⟨rfl, rfl⟩, splitFrom_eq]
  cases splitFrom [] [] .outside cs <;> rfl

theorem splitFrom_cons {c : Char} {state : Quoting} (h : ¬(c = ',' ∧ state = .outside)) (cs : List Char) :
    splitFrom [] [] state (c :: cs) = (splitFrom [] [] (state.step c) cs).modifyHead (c :: ·) := by
  rw [splitFrom, if_neg h, splitFrom_eq]
  rfl

/-- A character in front of the first piece moves every seam. -/
theorem joined_modifyHead (c : Char) {ps : List (List Char)} (h : ps ≠ []) :
    [','].intercalate (ps.modifyHead (c :: ·)) = c :: [','].intercalate ps ∧
      seams (ps.modifyHead (c :: ·)) = (seams ps).map (· + 1) := by
  match ps with
  | [p] => simp [seams]
  | p :: q :: ps => simp [seams, Nat.add_comm, Nat.add_left_comm, Function.comp_def]

theorem joined_comma {ps : List (List Char)} (h : ps ≠ []) :
    [','].intercalate ([] :: ps) = ',' :: [','].intercalate ps ∧ seams ([] :: ps) = 0 :: (seams ps).map (· + 1) := by
  match ps with
  | p :: ps => simp [seams]

theorem splitFrom_pieces (state : Quoting) (cs : List Char) :
    splitFrom [] [] state cs ≠ [] ∧ [','].intercalate (splitFrom [] [] state cs) = cs ∧
      seams (splitFrom [] [] state cs) = commasFrom state cs := by
  induction cs generalizing state with
  | nil => exact ⟨by simp [splitFrom], rfl, rfl⟩
  | cons c cs ih =>
    by_cases hc : c = ',' ∧ state = .outside
    · obtain ⟨rfl, rfl⟩ := hc
      obtain ⟨hne, hjoined, hseams⟩ := ih .outside
      obtain ⟨hcons, hzero⟩ := joined_comma hne
      have hstep : Quoting.outside.step ',' = .outside := rfl
      rw [splitFrom_comma, hcons, hzero, hjoined, hseams, commasFrom, hstep]
      exact ⟨by simp, rfl, rfl⟩
    · obtain ⟨hne, hjoined, hseams⟩ := ih (state.step c)
      obtain ⟨hcons, hmoved⟩ := joined_modifyHead c hne
      rw [splitFrom_cons hc, hcons, hmoved, hjoined, hseams, commasFrom, if_neg hc]
      exact ⟨by simpa using hne, rfl, rfl⟩

theorem pieces_splitFrom (cs : List Char) : Pieces cs (splitFrom [] [] .outside cs) := by
  obtain ⟨hne, hjoined, hseams⟩ := splitFrom_pieces .outside cs
  exact ⟨hne, hjoined, hseams.trans (outerCommas_eq cs).symm⟩

theorem splitArguments_eq {text : String} {c : Char} (hc : c ∈ text.toList) (hblank : isBlank c = false) :
    splitArguments text =
      (splitFrom [] [] .outside text.toList).map fun piece => String.ofList (Blank.trim piece) := by
  have hne : (Blank.trim text.toList).isEmpty = false := by simpa using Blank.trim_ne_nil hc hblank
  simp only [splitArguments, hne, Bool.false_eq_true, if_false]

/-- Arguments joined by commas are a blank text only if there is none but an empty one. -/
theorem exists_visible {args : List String} (hne : args ≠ []) (hempty : args ≠ [""])
    (h : ∀ arg ∈ args, Blank.Trimmed arg.toList) :
    ∃ c ∈ (",".intercalate args).toList, isBlank c = false := by
  match args with
  | [arg] =>
    cases htext : arg.toList with
    | nil => exact absurd (congrArg (fun text => [text]) (String.toList_eq_nil_iff.1 htext)) hempty
    | cons c cs =>
      refine ⟨c, by simp [htext], (h arg (by simp)).first c ?_⟩
      rw [htext]
      rfl
  | arg :: next :: args => exact ⟨',', by simp, rfl⟩

/-- A text that is not blank is cut at its commas outside quotes, and nowhere else, and the white space around each
piece is cut off. Trimmed arguments with closed quotes and no comma outside quotes are split from the text that they
are joined to, unless there is only an empty one. -/
theorem arguments_split :
    (∀ text : String, (∃ c ∈ text.toList, isBlank c = false) →
      ∃ pieces, Pieces text.toList pieces ∧ pieces.length = (outerCommas text.toList).length + 1 ∧
        List.Forall₂ (fun piece arg => Blank.Strips piece arg.toList) pieces (splitArguments text)) ∧
    ∀ args : List String, args ≠ [] → args ≠ [""] →
      (∀ arg ∈ args, Blank.Trimmed arg.toList ∧ Closed arg.toList ∧ outerCommas arg.toList = []) →
      splitArguments (",".intercalate args) = args := by
  constructor
  · rintro text ⟨c, hc, hblank⟩
    have hpieces := pieces_splitFrom text.toList
    refine ⟨_, hpieces, by rw [length_seams hpieces.nonempty, hpieces.seams], ?_⟩
    rw [splitArguments_eq hc hblank, List.forall₂_map_right_iff, List.forall₂_same]
    intro piece _
    rw [String.toList_ofList]
    exact Blank.strips_trim piece
  · intro args hne hempty h
    obtain ⟨c, hc, hblank⟩ := exists_visible hne hempty fun arg harg => (h arg harg).1
    have hjoined : Pieces (",".intercalate args).toList (args.map (·.toList)) := by
      rw [String.toList_intercalate]
      refine pieces_joined (by simpa using hne) fun cs hcs => ?_
      obtain ⟨arg, harg, rfl⟩ := List.mem_map.1 hcs
      exact (h arg harg).2
    rw [splitArguments_eq hc hblank, (pieces_splitFrom _).unique hjoined, List.map_map]
    conv_rhs => rw [← List.map_id args]
    refine List.map_congr_left fun arg harg => ?_
    rw [Function.comp_apply, (h arg harg).1.trim_eq, String.ofList_toList, id]

/-- A comma behind an escaped quote, and arguments of which one is empty and two hold commas between quotes. -/
theorem arguments_split_escaped :
    (∃ pieces, Pieces "\"say \\\"hi, there\\\"\" , x".toList pieces ∧ pieces.length = 2 ∧
      List.Forall₂ (fun piece arg => Blank.Strips piece arg.toList) pieces ["\"say \\\"hi, there\\\"\"", "x"]) ∧
    splitArguments "',',,\"\\\",\"" = ["','", "", "\"\\\",\""] := by
  constructor
  · have hargs : splitArguments "\"say \\\"hi, there\\\"\" , x" = ["\"say \\\"hi, there\\\"\"", "x"] := by
      decide +kernel
    have hcommas : outerCommas "\"say \\\"hi, there\\\"\" , x".toList = [20] := by decide +kernel
    obtain ⟨pieces, hpieces, hlength, hstrips⟩ := arguments_split.1 "\"say \\\"hi, there\\\"\" , x"
      ⟨'x', by simp, rfl⟩
    rw [hcommas] at hlength
    exact ⟨pieces, hpieces, hlength, hargs ▸ hstrips⟩
  · have hjoined : ",".intercalate ["','", "", "\"\\\",\""] = "',',,\"\\\",\"" := by decide +kernel
    have htrim (arg : String) (h : Blank.trim arg.toList = arg.toList) : Blank.Trimmed arg.toList :=
      h ▸ Blank.trimmed_trim _
    rw [← hjoined]
    refine arguments_split.2 _ (by simp) (by simp) ?_
    simp only [List.forall_mem_cons]
    exact ⟨⟨htrim _ (by decide), by decide, by decide⟩, ⟨htrim _ (by decide), by decide, by decide⟩,
      ⟨htrim _ (by decide), by decide, by decide⟩, List.forall_mem_nil _⟩

end Macro

end Mos6502
