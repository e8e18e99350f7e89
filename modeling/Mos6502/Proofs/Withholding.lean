import Mos6502.Proofs.Emission

/-!
# Withheld errors

The second pass leaves out the errors of lines that failed in the first. Nothing
else depends on which lines those are: it writes the same bytes, warnings and
listing as a pass that leaves out nothing, and its errors are the errors of that
pass without those that carry a failed number.

Main statement: `Emission.run_withhold`.
-/
namespace Mos6502.Assembly.Emission

/-- The setting of a pass that leaves out nothing. -/
def Setting.unfiltered (env : Setting) : Setting :=
  { env with failed := [] }

/-- The state without the errors that carry one of the numbers. -/
def withhold (failed : List Nat) (s : Emission) : Emission :=
  { s with errors := s.errors.filter fun e => !failed.contains e.line }

variable (env : Setting)

theorem report_withhold (s : Emission) (line column : Nat) (cause : Cause) :
    (s.withhold env.failed).report env line column cause =
      (s.report env.unfiltered line column cause).withhold env.failed := by
  have hall : s.report env.unfiltered line column cause =
      { s with errors := s.errors.push ⟨cause, line, column, .second⟩ } := rfl
  rw [hall]
  unfold report withhold
  simp only [Array.filter_push]
  cases env.failed.contains line <;> rfl

/-! ## Bytes and values -/

theorem byte_withhold (l : Line) (s : Emission) (b : UInt8) :
    (s.withhold env.failed).byte env l b = (s.byte env.unfiltered l b).withhold env.failed := by
  have himage : (s.withhold env.failed).image.get? (s.withhold env.failed).address = s.image.get? s.address := rfl
  unfold byte
  rw [himage]
  cases s.image.get? s.address with
  | none => rfl
  | some old => exact congrArg (advance · 1) (report_withhold env s _ _ _)

theorem bytes_withhold (l : Line) (s : Emission) (bs : List UInt8) :
    (s.withhold env.failed).bytes env l bs = (s.bytes env.unfiltered l bs).withhold env.failed := by
  have hfold (bs : List UInt8) : bs.foldl (byte env l) (s.withhold env.failed) =
      (bs.foldl (byte env.unfiltered l) s).withhold env.failed :=
    List.foldl_hom (withhold env.failed) (fun s b => byte_withhold env l s b)
  have hroom : 65536 - (s.withhold env.failed).cursor = 65536 - s.cursor := rfl
  unfold bytes
  simp only [hroom, hfold]
  split
  · rfl
  · exact congrArg (advance · _) (report_withhold env _ _ _ _)

theorem value_withhold (l : Line) (s : Emission) (e : Expr) :
    (s.withhold env.failed).value env l e =
      ((s.value env.unfiltered l e).1.withhold env.failed, (s.value env.unfiltered l e).2) := by
  have heval : e.eval env.symbols (s.withhold env.failed).address = e.eval env.unfiltered.symbols s.address := rfl
  unfold value
  rw [heval]
  cases e.eval env.unfiltered.symbols s.address with
  | ok v => rfl
  | error u => exact congrArg (·, none) (report_withhold env s _ _ _)

theorem datum_withhold (l : Line) (size : Nat) (encode : Int → Except EncodeError (List UInt8)) (s : Emission)
    (e : Expr) :
    (s.withhold env.failed).datum env l size encode e =
      ((s.datum env.unfiltered l size encode e).1.withhold env.failed,
        (s.datum env.unfiltered l size encode e).2) := by
  unfold datum
  rw [value_withhold]
  dsimp only
  cases encode ((s.value env.unfiltered l e).2.getD 0) with
  | ok bs => rfl
  | error err => exact congrArg (·, _) (report_withhold env _ _ _ _)

theorem item_withhold (l : Line) (s : Emission) (i : DataItem) :
    (s.withhold env.failed).item env l i =
      ((s.item env.unfiltered l i).1.withhold env.failed, (s.item env.unfiltered l i).2) := by
  cases i with
  | text bs => rfl
  | value e => exact datum_withhold env l 1 (fun v => (Encoding.byte v).map ([·])) s e

theorem word_withhold (l : Line) (s : Emission) (e : Expr) :
    (s.withhold env.failed).word env l e =
      ((s.word env.unfiltered l e).1.withhold env.failed, (s.word env.unfiltered l e).2) :=
  datum_withhold env l _ _ s e

variable {env}

theorem collect_withhold {α : Type} {f g : Emission → α → Emission × List UInt8}
    (h : ∀ s i, f (s.withhold env.failed) i = ((g s i).1.withhold env.failed, (g s i).2)) (s : Emission)
    (items : List α) :
    (s.withhold env.failed).collect f items = ((s.collect g items).1.withhold env.failed, (s.collect g items).2) := by
  induction items generalizing s with
  | nil => rfl
  | cons i items ih => rw [collect_cons, collect_cons, h, ih]

variable (env)

/-! ## Statements -/

theorem labelled_withhold (s : Emission) (l : Line) :
    (s.withhold env.failed).labelled env l = (s.labelled env.unfiltered l).withhold env.failed := by
  have hcursor : cursorAddress? (s.withhold env.failed).cursor = cursorAddress? s.cursor := rfl
  unfold labelled label
  rw [hcursor]
  cases l.label with
  | none => rfl
  | some name =>
    cases cursorAddress? s.cursor with
    | some a => rfl
    | none => exact report_withhold env s _ _ _

theorem setOrigin_withhold (l : Line) (s : Emission) (e : Expr) :
    (s.withhold env.failed).setOrigin env l e = (s.setOrigin env.unfiltered l e).withhold env.failed := by
  unfold setOrigin
  rw [value_withhold]
  rcases s.value env.unfiltered l e with ⟨t, _ | v⟩
  · rfl
  · dsimp only
    cases valueAddress? v with
    | some origin => rfl
    | none => exact report_withhold env t _ _ _

theorem chosen_withhold (l : Line) (s : Emission) (c : Choice) (shape : Shape) (v : Option Int) :
    (s.withhold env.failed).chosen env l c shape v =
      ((s.chosen env.unfiltered l c shape v).1.withhold env.failed, (s.chosen env.unfiltered l c shape v).2) := by
  have haddress : (s.withhold env.failed).address = s.address := rfl
  unfold chosen
  rw [haddress]
  cases c.opcode.encode v s.address with
  | error e => exact congrArg (fun t : Emission => (t.advance _, [])) (report_withhold env s _ _ _)
  | ok bs => exact congrArg (·, bs) (bytes_withhold env l { s with warnings := _ } bs)

theorem instruction_withhold (l : Line) (plan : Plan) (s : Emission) (mnemonic : String) (shape : Shape)
    (operand : Option Expr) :
    (s.withhold env.failed).instruction env l plan mnemonic shape operand =
      ((s.instruction env.unfiltered l plan mnemonic shape operand).1.withhold env.failed,
        (s.instruction env.unfiltered l plan mnemonic shape operand).2) := by
  unfold instruction
  split
  · rfl
  · cases choice plan mnemonic shape operand with
    | error e => exact congrArg (·, []) (report_withhold env s _ _ _)
    | ok c =>
      cases operand with
      | none => exact chosen_withhold env l s c shape none
      | some e =>
        simp only [value_withhold]
        rcases s.value env.unfiltered l e with ⟨t, _ | v⟩
        · rfl
        · exact chosen_withhold env l t c shape (some v)

theorem checkSize_withhold (l : Line) (plan : Plan) (name : String) (begin : Nat) (s : Emission) :
    (s.withhold env.failed).checkSize env l plan name begin =
      (s.checkSize env.unfiltered l plan name begin).withhold env.failed := by
  have hcursor : (s.withhold env.failed).cursor = s.cursor := rfl
  unfold checkSize
  rw [hcursor]
  split
  · split
    · rfl
    · exact report_withhold env s _ _ _
  · rfl

/-! ## Lines -/

variable {env} in
theorem splice_withhold {α : Type} {f g : Emission → Plan → Line → Emission × List α}
    (h : ∀ s plan l, f (s.withhold env.failed) plan l = ((g s plan l).1.withhold env.failed, (g s plan l).2))
    (plan : Plan) (l : Line) (name : String) (s : Emission) (i : Nat) (texts : List (List Char)) :
    (s.withhold env.failed).splice env f plan l name i texts =
      ((s.splice env.unfiltered g plan l name i texts).1.withhold env.failed,
        (s.splice env.unfiltered g plan l name i texts).2) := by
  induction texts generalizing s i with
  | nil => rfl
  | cons text texts ih =>
    have htext : (s.withhold env.failed).textLine env f plan l name i text =
        ((s.textLine env.unfiltered g plan l name i text).1.withhold env.failed,
          (s.textLine env.unfiltered g plan l name i text).2) := by
      unfold textLine
      cases Line.read text l.number with
      | ok inner => exact h s _ _
      | error e => exact congrArg (·, []) (report_withhold env s _ _ _)
    rw [splice_cons, htext, ih, splice_cons]

theorem expansion_withhold {levels : Nat} (ih : ∀ m < levels, ∀ s plan l,
      line env m (s.withhold env.failed) plan l =
        ((line env.unfiltered m s plan l).1.withhold env.failed, (line env.unfiltered m s plan l).2))
    (s : Emission) (plan : Plan) (l : Line) (name arguments : String) :
    (s.withhold env.failed).expansion env levels plan l name arguments =
      ((s.expansion env.unfiltered levels plan l name arguments).1.withhold env.failed,
        (s.expansion env.unfiltered levels plan l name arguments).2) := by
  have hexpand : env.registry.expand name arguments ((s.withhold env.failed).context env) .second =
      env.unfiltered.registry.expand name arguments (s.context env.unfiltered) .second := rfl
  rcases hx : env.unfiltered.registry.expand name arguments (s.context env.unfiltered) .second with e | r
  · simp only [expansion, hexpand.trans hx, hx]
    exact congrArg (·, []) (report_withhold env s _ _ _)
  · cases r with
    | nothing => simp only [expansion, hexpand.trans hx, hx]
    | bytes bs =>
      simp only [expansion, hexpand.trans hx, hx]
      exact congrArg (·, bs) (bytes_withhold env l s bs)
    | source text =>
      cases levels with
      | zero =>
        simp only [expansion, hexpand.trans hx, hx]
        exact congrArg (·, []) (report_withhold env s _ _ _)
      | succ levels =>
        rw [expansion_source env (hexpand.trans hx), expansion_source env.unfiltered hx]
        exact splice_withhold (ih levels (Nat.lt_succ_self _)) plan l name s 0 _

theorem line_withhold (levels : Nat) (s : Emission) (plan : Plan) (l : Line) :
    line env levels (s.withhold env.failed) plan l =
      ((line env.unfiltered levels s plan l).1.withhold env.failed, (line env.unfiltered levels s plan l).2) := by
  -- the lines of an expansion are taken one level deeper
  induction levels using Nat.strongRecOn generalizing s plan l with
  | ind levels ih =>
    rw [line_eq, line_eq, labelled_withhold]
    generalize s.labelled env.unfiltered l = s
    dsimp only
    split
    · rfl
    · exact congrArg (·, []) (setOrigin_withhold env l s _)
    · rfl
    · rw [collect_withhold (item_withhold env l)]
      exact congrArg (·, _) (bytes_withhold env l _ _)
    · rw [collect_withhold (word_withhold env l)]
      exact congrArg (·, _) (bytes_withhold env l _ _)
    · exact instruction_withhold env l plan s _ _ _
    · rw [expansion_withhold env ih]
      exact congrArg (·, _) (checkSize_withhold env l plan _ s.cursor _)

/-- A pass that withholds errors is the pass that withholds none, without them. -/
theorem run_withhold (lines : List (SourceLine × Plan)) :
    run env lines = ((run env.unfiltered lines).1.withhold env.failed, (run env.unfiltered lines).2) := by
  induction lines using List.reverseRecOn with
  | nil => rfl
  | append_singleton lines l ih =>
    obtain ⟨⟨text, l⟩, plan⟩ := l
    cases l with
    | ok l =>
      rw [run_concat, run_concat, ih, line_withhold]
      rfl
    | error e =>
      rw [run_concat_error, run_concat_error, ih, report_withhold]

end Mos6502.Assembly.Emission
