import Mos6502.Proofs.Meaning
import Mos6502.Proofs.ParallelLayout

/-!
# Two assemblies side by side

The second pass over two sources whose lines match, after a first pass that did
the same over both. As long as the pass over one source reports no error, it
writes the same bytes for the other and reports none either.

Main statement: if some lines are accepted, all lines that match them are
accepted too, with the same output (`Clean.alike`).
-/
namespace Mos6502

/-- The line of a listing is the same but for its number and its text. -/
structure ListingLine.Matches (N : Nat → Nat → Prop) (T : String → String → Prop) (x x' : ListingLine) : Prop where
  number : N x.number x'.number
  address : x'.address = x.address
  bytes : x'.bytes = x.bytes
  source : T x.source x'.source

theorem ListingLine.Matches.eq {x x' : ListingLine} (h : x.Matches (· = ·) (· = ·) x') : x = x' := by
  obtain ⟨hnumber, haddress, hbytes, hsource⟩ := h
  cases x
  cases x'
  simp_all

namespace Assembly

variable {known : SymbolTable} {N : Nat → Nat → Prop}

structure Warning.Matches (N : Nat → Nat → Prop) (w w' : Warning) : Prop where
  line : N w.line w'.line
  value : w'.value = w.value
  mnemonic : w'.mnemonic = w.mnemonic

theorem Warning.Matches.eq {w w' : Warning} (h : w.Matches (· = ·) w') : w = w' := by
  obtain ⟨hline, hvalue, hmnemonic⟩ := h
  cases w
  cases w'
  simp_all

namespace Emission

/-- The second pass of the second assembly starts from what goes with that of the first, in which no line failed. -/
structure Setting.Matches (known : SymbolTable) (N : Nat → Nat → Prop) (env env' : Setting) : Prop where
  registry : env.registry.Alike N env'.registry
  limit : env.limit ≤ env'.limit
  symbols : env.symbols.Matches N env'.symbols
  knows : known.Extends env.symbols
  failed : env.failed = []

/-- The second state goes with the first and has no errors. -/
structure Matches (N : Nat → Nat → Prop) (s s' : Emission) : Prop where
  cursor : s'.cursor = s.cursor
  origin : s'.origin = s.origin
  image : s'.image = s.image
  warnings : List.Forall₂ (Warning.Matches N) s.warnings.toList s'.warnings.toList
  silent : s'.errors = #[]

variable {env env' : Setting} {s s' : Emission}

/-- A list of data, if its items are the same. -/
theorem collect_matches {α : Type} {L : α → α → Prop} {f g : Emission → α → Emission × List UInt8}
    (hr : ∀ s i, Reports env s (f s i).1)
    (hstep : ∀ {i i'}, L i i' → (f s i).1.errors = #[] → ∃ bs, f s i = (s, bs) ∧ g s' i' = (s', bs))
    {items items' : List α} (hitems : List.Forall₂ L items items') (he : (s.collect f items).1.errors = #[]) :
    ∃ bs, s.collect f items = (s, bs) ∧ s'.collect g items' = (s', bs) := by
  induction hitems with
  | nil => exact ⟨[], rfl, rfl⟩
  | @cons i i' items items' hi _ ih =>
    rw [collect_cons] at he ⊢
    rw [collect_cons]
    obtain ⟨bs, hf, hg⟩ := hstep hi ((collect_reports env f hr _ items).noErrors he)
    rw [hf] at he ⊢
    rw [hg]
    obtain ⟨more, hf', hg'⟩ := ih he
    exact ⟨bs ++ more, by rw [hf'], by rw [hg']⟩

theorem choice_agrees (plan : Plan) (mnemonic : String) (shape : Shape) {operand operand' : Option Expr}
    (h : Option.Rel (Expr.Agrees known) operand operand') :
    choice plan mnemonic shape operand' = choice plan mnemonic shape operand := by
  have hshape : Choice.ofShape mnemonic shape operand' = Choice.ofShape mnemonic shape operand := by
    cases h with
    | none => rfl
    | some he => simp only [Choice.ofShape, Option.filter, he.isByteSelect]; split <;> rfl
  unfold choice
  rw [hshape]

theorem instruction_eq {l : Line} {plan : Plan} (hplan : plan ≠ .noInstruction) (mnemonic : String) (shape : Shape)
    (operand : Option Expr) :
    s.instruction env l plan mnemonic shape operand =
      match choice plan mnemonic shape operand with
      | .error e => (s.report env l.number l.column (.noInstruction e), [])
      | .ok c =>
        match operand with
        | none => s.chosen env l c shape none
        | some e =>
          match s.value env l e with
          | (s, none) => (s.advance c.opcode.size, [])
          | (s, some v) => s.chosen env l c shape (some v) := by
  cases plan with
  | noInstruction => exact absurd rfl hplan
  | _ => rfl

theorem warning?_matches {l l' : Line} (hl : N l.number l'.number) (c : Choice) (shape : Shape) (v : Option Int) :
    List.Forall₂ (Warning.Matches N) (warning? c shape l v).toList (warning? c shape l' v).toList := by
  unfold warning?
  cases v with
  | none => exact .nil
  | some v =>
    dsimp only
    split_ifs
    · exact .cons ⟨hl, rfl, rfl⟩ .nil
    · exact .nil

theorem Setting.Matches.eval (henv : env.Matches known N env') {e e' : Expr} (he : e.Agrees known e') (a : UInt16) :
    e'.eval env'.symbols a = e.eval env.symbols a :=
  (Expr.eval_congr henv.symbols.address? a e').trans (he.eval env.symbols a henv.knows)

section Matches
variable (h : s.Matches N s')
include h

theorem Matches.sameAddress : s'.address = s.address := by
  rw [address, address, h.cursor]

theorem Matches.write (l l' : Line) (hf : env.failed = []) {bs : List UInt8}
    (he : (s.write env l bs).1.errors = #[]) :
    (s.write env l bs).1.Matches N (s'.write env' l' bs).1 := by
  have hfree := free_of_bytes hf he
  have hfree' : s'.image.Free s'.cursor bs.length := by rw [h.image, h.cursor]; exact hfree
  rw [Emission.write, Emission.write, bytes_of_free hfree, bytes_of_free hfree']
  refine { h with cursor := ?_, image := ?_ }
  · exact congrArg (· + bs.length) h.cursor
  · show s'.image.puts s'.cursor bs = s.image.puts s.cursor bs
    rw [h.image, h.cursor]

theorem Matches.chosen {l l' : Line} (hl : N l.number l'.number) (hf : env.failed = []) {c : Choice}
    {shape : Shape} {v : Option Int} (he : (s.chosen env l c shape v).1.errors = #[]) :
    (s.chosen env l c shape v).1.Matches N (s'.chosen env' l' c shape v).1 ∧
      (s'.chosen env' l' c shape v).2 = (s.chosen env l c shape v).2 := by
  obtain ⟨bs, hbs, -⟩ := chosen_silent hf he
  have hbs' := hbs
  rw [← h.sameAddress] at hbs'
  simp only [Emission.chosen, hbs] at he
  simp only [Emission.chosen, hbs, hbs']
  refine ⟨Matches.write ?_ l l' hf he, rfl⟩
  refine { h with warnings := ?_ }
  simp only [Array.toList_append, Option.toList_toArray]
  exact List.rel_append h.warnings (warning?_matches hl c shape v)

variable (henv : env.Matches known N env') (l l' : Line)
include henv

theorem Matches.context : (s.context env).Matches N (s'.context env') :=
  ⟨h.origin, h.sameAddress, henv.symbols⟩

theorem Matches.value {e e' : Expr} (hagrees : e.Agrees known e') (he : (s.value env l e).1.errors = #[]) :
    ∃ v, s.value env l e = (s, some v) ∧ s'.value env' l' e' = (s', some v) := by
  obtain ⟨v, hv, hvalue⟩ := value_silent henv.failed he
  refine ⟨v, hvalue, ?_⟩
  rw [← henv.eval hagrees, ← h.sameAddress] at hv
  simp only [Emission.value, hv]

theorem Matches.datum {size : Nat} {encode : Int → Except EncodeError (List UInt8)} {e e' : Expr}
    (hagrees : e.Agrees known e') (he : (s.datum env l size encode e).1.errors = #[]) :
    ∃ bs, s.datum env l size encode e = (s, bs) ∧ s'.datum env' l' size encode e' = (s', bs) := by
  obtain ⟨v, bs, hv, hbs, hdatum⟩ := datum_silent henv.failed he
  refine ⟨bs, hdatum, ?_⟩
  rw [← henv.eval hagrees, ← h.sameAddress] at hv
  simp only [Emission.datum, Emission.value, hv, Option.getD_some, hbs]

theorem Matches.item {i i' : DataItem} (hagrees : i.Related (Expr.Agrees known) i')
    (he : (s.item env l i).1.errors = #[]) :
    ∃ bs, s.item env l i = (s, bs) ∧ s'.item env' l' i' = (s', bs) := by
  cases hagrees with
  | text bs => exact ⟨bs, rfl, rfl⟩
  | value hexpr => exact h.datum henv l l' hexpr he

theorem Matches.word {e e' : Expr} (hagrees : e.Agrees known e') (he : (s.word env l e).1.errors = #[]) :
    ∃ bs, s.word env l e = (s, bs) ∧ s'.word env' l' e' = (s', bs) :=
  h.datum henv l l' hagrees he

variable {l l'}

theorem Matches.setOrigin {e e' : Expr} (hagrees : e.Agrees known e') (he : (s.setOrigin env l e).errors = #[]) :
    (s.setOrigin env l e).Matches N (s'.setOrigin env' l' e') := by
  obtain ⟨v, hv, horigin⟩ := setOrigin_silent henv.failed he
  rw [← henv.eval hagrees, ← h.sameAddress] at hv
  rw [horigin]
  simp only [Emission.setOrigin, Emission.value, hv, valueAddress?_word]
  exact { h with cursor := rfl, origin := rfl }

theorem Matches.labelled (hlabel : l'.label = l.label) (he : (s.labelled env l).errors = #[]) :
    (s.labelled env l).Matches N (s'.labelled env' l') := by
  unfold Emission.labelled Emission.label at he ⊢
  rw [hlabel]
  split
  · rename_i name hname
    simp only [hname] at he
    rw [h.cursor]
    split
    · exact h
    · rename_i hcursor
      simp only [hcursor] at he
      exact absurd he (report_ne henv.failed _ _ _ _)
  · exact h

theorem Matches.checkSize {plan : Plan} {name : String} {begin : Nat}
    (he : (s.checkSize env l plan name begin).errors = #[]) :
    (s.checkSize env l plan name begin).Matches N (s'.checkSize env' l' plan name begin) := by
  unfold Emission.checkSize at he ⊢
  split
  · dsimp only at he
    rw [h.cursor]
    split
    · exact h
    · rename_i hsize
      rw [if_neg hsize] at he
      exact absurd he (report_ne henv.failed _ _ _ _)
  · exact h

theorem Matches.instruction (hl : N l.number l'.number) {plan : Plan} {mnemonic : String} {shape : Shape}
    {operand operand' : Option Expr} (hagrees : Option.Rel (Expr.Agrees known) operand operand')
    (he : (s.instruction env l plan mnemonic shape operand).1.errors = #[]) :
    (s.instruction env l plan mnemonic shape operand).1.Matches N
        (s'.instruction env' l' plan mnemonic shape operand').1 ∧
      (s'.instruction env' l' plan mnemonic shape operand').2 =
        (s.instruction env l plan mnemonic shape operand).2 := by
  by_cases hplan : plan = .noInstruction
  · subst hplan
    exact ⟨h, rfl⟩
  have hchoice := choice_agrees plan mnemonic shape hagrees
  rw [instruction_eq hplan] at he ⊢
  rw [instruction_eq hplan, hchoice]
  cases hc : choice plan mnemonic shape operand with
  | error e =>
    simp only [hc] at he
    exact absurd he (report_ne henv.failed _ _ _ _)
  | ok c =>
    simp only [hc] at he
    cases hagrees with
    | none => exact h.chosen hl henv.failed he
    | @some e e' hexpr =>
      dsimp only at he ⊢
      have hvalue : (s.value env l e).1.errors = #[] := by
        split at he
        · rename_i heq
          rw [heq]
          exact he
        · rename_i heq
          rw [heq]
          exact noErrors_before ((steps_grows env).chosen _ _ _ _ _) he
      obtain ⟨v, hv, hv'⟩ := h.value henv l l' hexpr hvalue
      simp only [hv] at he
      simp only [hv, hv']
      exact h.chosen hl henv.failed he

end Matches

section Setting
variable (henv : env.Matches known N env')
include henv

/-- The lines of an expansion, if each of them does the same. -/
theorem Matches.splice {levels levels' : Nat}
    (hline : ∀ {s s' plan l l'}, s.Matches N s' → l.Matches known N l' → (line env levels s plan l).1.errors = #[] →
      (line env levels s plan l).1.Matches N (line env' levels' s' plan l').1 ∧
        (line env' levels' s' plan l').2 = (line env levels s plan l).2)
    {s s' : Emission} (h : s.Matches N s') {plan : Plan} {l l' : Line} (hl : N l.number l'.number) {name : String}
    {i : Nat} {texts : List (List Char)}
    (he : (s.splice env (line env levels) plan l name i texts).1.errors = #[]) :
    (s.splice env (line env levels) plan l name i texts).1.Matches N
        (s'.splice env' (line env' levels') plan l' name i texts).1 ∧
      (s'.splice env' (line env' levels') plan l' name i texts).2 =
        (s.splice env (line env levels) plan l name i texts).2 := by
  induction texts generalizing s s' i with
  | nil => exact ⟨h, rfl⟩
  | cons text texts ih =>
    have hread := Line.read_matches known text hl
    rw [splice_cons] at he ⊢
    rw [splice_cons]
    have hfirst := noErrors_before ((steps_grows env).splice ((steps_grows env).line levels) plan l name _ _ texts) he
    obtain ⟨hnext, hbytes⟩ : (s.textLine env (line env levels) plan l name i text).1.Matches N
        (s'.textLine env' (line env' levels') plan l' name i text).1 ∧
          (s'.textLine env' (line env' levels') plan l' name i text).2 =
            (s.textLine env (line env levels) plan l name i text).2 := by
      unfold textLine at hfirst ⊢
      generalize Line.read text l.number = x at hread hfirst
      generalize Line.read text l'.number = x' at hread
      cases hread with
      | ok hinner => exact hline h hinner hfirst
      | error e e' => exact absurd hfirst (report_ne henv.failed _ _ _ _)
    obtain ⟨hstate, hrest⟩ := ih hnext he
    exact ⟨hstate, by rw [hbytes, hrest]⟩

/-- An expansion, if its lines one level deeper do the same. -/
theorem Matches.expansion {levels levels' : Nat} (hlevels : levels ≤ levels')
    (ih : ∀ m < levels, ∀ m' ≥ m, ∀ {s s' plan l l'}, s.Matches N s' → l.Matches known N l' →
      (line env m s plan l).1.errors = #[] →
      (line env m s plan l).1.Matches N (line env' m' s' plan l').1 ∧
        (line env' m' s' plan l').2 = (line env m s plan l).2)
    {s s' : Emission} (h : s.Matches N s') {plan : Plan} {l l' : Line} (hl : N l.number l'.number)
    (name arguments : String) (he : (s.expansion env levels plan l name arguments).1.errors = #[]) :
    (s.expansion env levels plan l name arguments).1.Matches N
        (s'.expansion env' levels' plan l' name arguments).1 ∧
      (s'.expansion env' levels' plan l' name arguments).2 = (s.expansion env levels plan l name arguments).2 := by
  have hexpand := henv.registry name arguments (s.context env) (s'.context env') .second (h.context henv)
  cases hx : env.registry.expand name arguments (s.context env) .second with
  | error e =>
    simp only [Emission.expansion, hx] at he
    exact absurd he (report_ne henv.failed _ _ _ _)
  | ok r =>
    rw [hx] at hexpand
    cases r with
    | nothing =>
      simp only [Emission.expansion, hx, hexpand]
      exact ⟨h, trivial⟩
    | bytes bs =>
      simp only [Emission.expansion, hx] at he
      simp only [Emission.expansion, hx, hexpand]
      exact ⟨h.write l l' henv.failed he, rfl⟩
    | source text =>
      cases levels with
      | zero =>
        simp only [Emission.expansion, hx] at he
        exact absurd he (report_ne henv.failed _ _ _ _)
      | succ levels =>
        obtain ⟨levels', rfl⟩ : ∃ m, levels' = m + 1 := ⟨levels' - 1, by omega⟩
        rw [expansion_source env hx] at he ⊢
        rw [expansion_source env' hexpand]
        exact h.splice henv (ih levels (Nat.lt_succ_self _) levels' (Nat.le_of_succ_le_succ hlevels)) hl he

/-- A line that the first assembly writes without an error gives the same bytes in the second. -/
theorem line_matches {levels levels' : Nat} (hlevels : levels ≤ levels') {s s' : Emission} (h : s.Matches N s')
    {plan : Plan} {l l' : Line} (hl : l.Matches known N l') (he : (line env levels s plan l).1.errors = #[]) :
    (line env levels s plan l).1.Matches N (line env' levels' s' plan l').1 ∧
      (line env' levels' s' plan l').2 = (line env levels s plan l).2 := by
  -- the lines of an expansion are taken one level deeper
  induction levels using Nat.strongRecOn generalizing levels' s s' plan l l' with
  | ind levels ih =>
    have hlabel := h.labelled henv hl.label (noErrors_before ((steps_grows env).statement levels s plan l) he)
    have hstatement := hl.statement
    rw [line_eq] at he ⊢
    rw [line_eq]
    generalize s.labelled env l = s at hlabel he
    generalize s'.labelled env' l' = s' at hlabel
    dsimp only at he ⊢
    generalize hst : l.statement = st at hstatement he
    generalize hst' : l'.statement = st' at hstatement
    cases hstatement with
    | none => exact ⟨hlabel, rfl⟩
    | some hagrees =>
      cases hagrees with
      | instruction mnemonic shape hoperand => exact hlabel.instruction henv hl.number hoperand he
      | origin hexpr => exact ⟨hlabel.setOrigin henv hexpr he, rfl⟩
      | bytes hitems =>
        dsimp only at he ⊢
        obtain ⟨bs, hbs, hbs'⟩ := collect_matches (item_reports env l) (hlabel.item henv l l') hitems
          (noErrors_before ((steps_grows env).bytes l _ _) he)
        rw [hbs] at he ⊢
        rw [hbs']
        exact ⟨hlabel.write l l' henv.failed he, rfl⟩
      | words hitems =>
        dsimp only at he ⊢
        obtain ⟨bs, hbs, hbs'⟩ := collect_matches (word_reports env l) (hlabel.word henv l l') hitems
          (noErrors_before ((steps_grows env).bytes l _ _) he)
        rw [hbs] at he ⊢
        rw [hbs']
        exact ⟨hlabel.write l l' henv.failed he, rfl⟩
      | equate name hexpr => exact ⟨hlabel, rfl⟩
      | invocation name arguments =>
        dsimp only at he ⊢
        obtain ⟨hstate, hbytes⟩ := Matches.expansion henv hlevels
          (fun m hm m' hm' {s s' plan l l'} hs hl he => ih m hm hm' hs hl he) hlabel hl.number name arguments
          ((checkSize_reports env l plan name s.cursor _).noErrors he)
        rw [hlabel.cursor]
        exact ⟨hstate.checkSize henv he, hbytes⟩

end Setting

/-! ### Listings -/

/-- The state after more lines, and what the listing shows of them. -/
def listed (env : Setting) (s : Emission) : List (SourceLine × Plan) → Emission × List ListingLine
  | [] => (s, [])
  | ((_, .error e), _) :: rest => listed env (s.report env e.line e.column (.unreadable e.cause)) rest
  | ((text, .ok l), plan) :: rest =>
    let (t, shown) := listed env (s.line env env.limit plan l).1 rest
    (t, ⟨l.number, cursorAddress? s.cursor, (s.line env env.limit plan l).2, String.ofList (Blank.trimEnd text)⟩ ::
      shown)

theorem listed_append (env : Setting) (s : Emission) (ls more : List (SourceLine × Plan)) :
    s.listed env (ls ++ more) =
      (((s.listed env ls).1.listed env more).1, (s.listed env ls).2 ++ ((s.listed env ls).1.listed env more).2) := by
  fun_induction listed env s ls with
  | case1 => rfl
  | case2 s text e plan rest ih => exact ih
  | case3 s text l plan rest t shown heq ih =>
    rw [heq] at ih
    rw [List.cons_append, listed, ih]
    rfl

theorem run_eq_listed (env : Setting) (ls : List (SourceLine × Plan)) :
    run env ls = ((start.listed env ls).1, ⟨(start.listed env ls).2⟩) := by
  induction ls using List.reverseRecOn with
  | nil => rfl
  | append_singleton ls x ih =>
    obtain ⟨⟨text, l⟩, plan⟩ := x
    rw [listed_append]
    cases l with
    | ok l =>
      rw [run_concat, ih]
      rfl
    | error e =>
      rw [run_concat_error, ih]
      simp [listed]

theorem Steps.listed {R : Emission → Emission → Prop} (h : Steps env R) (s : Emission) (ls : List (SourceLine × Plan)) :
    R s (s.listed env ls).1 := by
  fun_induction Emission.listed env s ls with
  | case1 s => exact h.refl s
  | case2 s text e plan rest ih => exact h.trans (h.report _ _ _ _) ih
  | case3 s text l plan rest t shown heq ih =>
    rw [heq] at ih
    exact h.trans (h.line _ _ _ _) ih

/-- The lines match, and their texts go together. -/
structure SourceLine.Matches (known : SymbolTable) (N : Nat → Nat → Prop) (T : String → String → Prop)
    (x x' : SourceLine) : Prop where
  text : T (String.ofList (Blank.trimEnd x.1)) (String.ofList (Blank.trimEnd x'.1))
  line : Line.ReadsMatch known N x.2 x'.2

/-- What holds of one line holds of a stretch of lines with the same plans. -/
theorem listed_matches (henv : env.Matches known N env') {T : String → String → Prop} {ls ls' : List SourceLine}
    (hls : List.Forall₂ (SourceLine.Matches known N T) ls ls') (plans : List Plan) {s s' : Emission}
    (h : s.Matches N s') (he : (s.listed env (ls.zip plans)).1.errors = #[]) :
    (s.listed env (ls.zip plans)).1.Matches N (s'.listed env' (ls'.zip plans)).1 ∧
      List.Forall₂ (ListingLine.Matches N T) (s.listed env (ls.zip plans)).2
        (s'.listed env' (ls'.zip plans)).2 := by
  induction hls generalizing plans s s' with
  | nil => exact ⟨h, .nil⟩
  | @cons x x' ls ls' hx _ ih =>
    cases plans with
    | nil => exact ⟨h, .nil⟩
    | cons plan plans =>
      obtain ⟨text, x⟩ := x
      obtain ⟨text', x'⟩ := x'
      obtain ⟨htext, hline⟩ := hx
      rw [List.zip_cons_cons] at he ⊢
      rw [List.zip_cons_cons]
      cases hline with
      | error e e' =>
        have hfirst := noErrors_before ((steps_grows env).listed _ (ls.zip plans)) he
        exact absurd hfirst (report_ne henv.failed _ _ _ _)
      | @ok l l' hl =>
        have hfirst := noErrors_before ((steps_grows env).listed _ (ls.zip plans)) he
        obtain ⟨hstate, hbytes⟩ := line_matches henv henv.limit h hl hfirst
        obtain ⟨hrest, hshown⟩ := ih plans hstate he
        refine ⟨hrest, .cons ⟨hl.number, ?_, hbytes, htext⟩ hshown⟩
        rw [h.cursor]

end Emission

/-! ## Whole sources -/

/-- The outputs are the same but for the numbers of lines and the texts of the listing. -/
structure Output.Matches (N : Nat → Nat → Prop) (T : String → String → Prop) (out out' : Output) : Prop where
  image : out'.image = out.image
  symbols : out.symbols.Matches N out'.symbols
  listing : List.Forall₂ (ListingLine.Matches N T) out.listing.lines out'.listing.lines
  warnings : List.Forall₂ (Warning.Matches N) out.warnings out'.warnings

theorem Output.Matches.warnings_eq {T : String → String → Prop} {out out' : Output}
    (h : out.Matches (· = ·) T out') : out.warnings = out'.warnings :=
  eq_of_forall₂ (fun _ _ => Warning.Matches.eq) h.warnings

theorem Output.Matches.eq {out out' : Output} (h : out.Matches (· = ·) (· = ·) out') : out = out' := by
  have hwarnings := h.warnings_eq
  have hsymbols := h.symbols.eq
  have himage := h.image
  have hlisting := eq_of_forall₂ (fun _ _ => ListingLine.Matches.eq) h.listing
  obtain ⟨image, symbols, ⟨lines⟩, warnings⟩ := out
  obtain ⟨image', symbols', ⟨lines'⟩, warnings'⟩ := out'
  simp_all

section Lines
variable (registry registry' : Macro.Registry) (limit limit' : Nat) (ls ls' : List Emission.SourceLine)

/-- The first pass over lines, without its end. -/
def followed : Layout × List Plan :=
  Layout.start.follow registry limit (ls.map (·.2))

/-- The end of the first pass over lines. -/
def finished : Layout :=
  (followed registry limit ls).1.settle.reportPending

/-- What the second pass over lines starts from. -/
def setting : Emission.Setting :=
  ⟨registry, limit, (finished registry limit ls).symbols,
    ((finished registry limit ls).errors.toList.map (·.line)).eraseReps⟩

/-- The second pass over lines. -/
def shown : Emission × List ListingLine :=
  Emission.start.listed (setting registry limit ls) (ls.zip (followed registry limit ls).2)

def written : Output :=
  ⟨(shown registry limit ls).1.image, (finished registry limit ls).symbols, ⟨(shown registry limit ls).2⟩,
    (shown registry limit ls).1.warnings.toList⟩

/-- Neither pass over the lines reports an error. -/
structure Clean : Prop where
  first : (finished registry limit ls).errors = #[]
  second : (shown registry limit ls).1.errors = #[]

variable {registry registry' limit limit' ls ls'}

theorem Clean.failed (h : Clean registry limit ls) : (setting registry limit ls).failed = [] := by
  rw [setting, h.first]
  rfl

theorem Clean.followed_errors (h : Clean registry limit ls) : (followed registry limit ls).1.errors = #[] :=
  (Layout.settle_extends _).noErrors ((Layout.reportPending_extends _).noErrors h.first)

section Alike
variable {T : String → String → Prop} (h : Clean registry limit ls) (hregistry : registry.Alike N registry')
  (hlimit : limit ≤ limit')
include h hregistry hlimit

/-- If one list of lines is accepted and another matches it, the other is accepted too and has the same output. -/
theorem Clean.alike (hls : List.Forall₂ (Emission.SourceLine.Matches known N T) ls ls')
    (hfirst : (followed registry limit ls).1.Matches known N (followed registry' limit' ls').1 ∧
      (followed registry' limit' ls').2 = (followed registry limit ls).2) :
    Clean registry' limit' ls' ∧ (written registry limit ls).Matches N T (written registry' limit' ls') := by
  obtain ⟨hstate, hplans⟩ := hfirst
  have hend := hstate.finish h.first
  have henv : (setting registry limit ls).Matches known N (setting registry' limit' ls') :=
    ⟨hregistry, hlimit, hend.symbols, hend.knows, h.failed⟩
  have hstart : Emission.start.Matches N Emission.start := ⟨rfl, rfl, rfl, .nil, rfl⟩
  have hshown := Emission.listed_matches henv hls (followed registry limit ls).2 hstart h.second
  have hother : shown registry' limit' ls' =
      Emission.start.listed (setting registry' limit' ls') (ls'.zip (followed registry limit ls).2) := by
    rw [shown, hplans]
  rw [← hother] at hshown
  obtain ⟨hstate, hlisting⟩ := hshown
  exact ⟨⟨hend.silent, hstate.silent⟩, hstate.image, hend.symbols, hlisting, hstate.warnings⟩

/-- The same if the lines match before any symbol is known. -/
theorem Clean.alike_from_start (hls : List.Forall₂ (Emission.SourceLine.Matches .empty N T) ls ls') :
    Clean registry' limit' ls' ∧ (written registry limit ls).Matches N T (written registry' limit' ls') := by
  refine h.alike hregistry hlimit hls (Layout.follow_matches hregistry limit limit' hlimit ?_ ?_ h.followed_errors)
  · rw [List.forall₂_map_left_iff, List.forall₂_map_right_iff]
    exact hls.imp fun _ _ hx => hx.line
  · exact ⟨rfl, rfl, .nil, .refl _, .nil, rfl⟩

end Alike

end Lines

theorem finished_readSource (registry : Macro.Registry) (limit : Nat) (source : String) :
    Layout.run registry limit (parsed source) =
      (finished registry limit (readSource source), (followed registry limit (readSource source)).2) := by
  obtain ⟨hfst, hsnd⟩ := Layout.pass_eq_follow registry limit (parsed source)
  exact Prod.ext (by rw [Layout.run_fst, hfst]; rfl) (by rw [Layout.run_snd, hsnd]; rfl)

theorem run_readSource (settings : Settings) (registry : Macro.Registry) (source : String) :
    run settings registry source = ⟨written registry settings.maxDepth (readSource source),
      (finished registry settings.maxDepth (readSource source)).errors.toList ++
        (shown registry settings.maxDepth (readSource source)).1.errors.toList⟩ := by
  rw [run_eq, environment, planned, finished_readSource, Emission.run_eq_listed]
  rfl

theorem assemble_eq_ok {a : Assembler} {source : String} {out : Output} :
    (a.assemble source).1 = .ok out ↔
      Clean a.registry a.settings.maxDepth (readSource source) ∧
        written a.registry a.settings.maxDepth (readSource source) = out := by
  rw [assemble_fst, run_readSource, Result.toExcept]
  dsimp only
  split
  · rename_i hnone
    rw [List.isEmpty_iff, List.append_eq_nil_iff, Array.toList_eq_nil_iff, Array.toList_eq_nil_iff] at hnone
    exact ⟨fun h => ⟨⟨hnone.1, hnone.2⟩, Except.ok.inj h⟩, fun h => congrArg _ h.2⟩
  · rename_i hsome
    constructor
    · intro h
      cases h
    · rintro ⟨hclean, -⟩
      refine absurd ?_ hsome
      rw [hclean.first, hclean.second]
      rfl

/-- Both assemblies succeed or neither, and what holds of accepted lines holds of the outputs. -/
theorem assemble_alike {a a' : Assembler} {source source' : String} {P : Output → Output → Prop}
    (forth : Clean a.registry a.settings.maxDepth (readSource source) →
      Clean a'.registry a'.settings.maxDepth (readSource source') ∧
        P (written a.registry a.settings.maxDepth (readSource source))
          (written a'.registry a'.settings.maxDepth (readSource source')))
    (back : Clean a'.registry a'.settings.maxDepth (readSource source') →
      Clean a.registry a.settings.maxDepth (readSource source)) :
    ((∃ out, (a.assemble source).1 = .ok out) ↔ ∃ out', (a'.assemble source').1 = .ok out') ∧
      ∀ out out', (a.assemble source).1 = .ok out → (a'.assemble source').1 = .ok out' → P out out' := by
  simp only [assemble_eq_ok]
  refine ⟨⟨?_, ?_⟩, ?_⟩
  · rintro ⟨out, h, -⟩
    exact ⟨_, (forth h).1, rfl⟩
  · rintro ⟨out', h', -⟩
    exact ⟨_, back h', rfl⟩
  · rintro out out' ⟨h, rfl⟩ ⟨-, rfl⟩
    exact (forth h).2

end Assembly

end Mos6502
