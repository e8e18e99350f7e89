import Mos6502.Proofs.BuiltinMacros
import Mos6502.Proofs.ErrorLines
import Mos6502.Proofs.Meaning
import Mos6502.Proofs.Names

/-!
# Statements that shift their successors

With the built-in macros a line leaves both passes at the same place, also if it
fails, but for two kinds of statements. An origin whose symbols come later is
refused by the first pass and obeyed by the second. A table of words with a name
that never gets a value takes its place in the first pass and none in the second.
From such a line on, addresses differ from those that the labels were given.

Main statement: `cursors_agree_iff_no_shift`.
-/
namespace Mos6502

namespace Macro

/-! ## How many bytes a macro gives -/

namespace Builtin

section AddressTable
variable {name : String} {entry : Int → List UInt8} {args : List String} {context : Context} {pass : Pass}

/-- A table of addresses has two bytes for each argument. -/
theorem answerSize_resolved (hentry : ∀ n, (entry n).length = 2) (h : ∀ arg ∈ args, Resolves context pass arg) :
    answerSize (addressTable name entry args context pass) = 2 * args.length := by
  cases args with
  | nil => rfl
  | cons arg args =>
    obtain ⟨values, hvalues⟩ := exists_mapM_eq_ok.2 h
    rw [addressTable_cons, hvalues, ← length_mapM hvalues]
    exact length_entries hentry values

/-- A table of addresses has no bytes at all if one of them is missing. -/
theorem answerSize_refused (h : ¬ ∀ arg ∈ args, Resolves context pass arg) :
    answerSize (addressTable name entry args context pass) = 0 := by
  cases args with
  | nil => rfl
  | cons arg args =>
    rw [addressTable_cons]
    cases hvalues : (arg :: args).mapM (address · context pass) with
    | error e => rfl
    | ok values => exact absurd (exists_mapM_eq_ok.1 ⟨values, hvalues⟩) h

end AddressTable

theorem answerSize_expand {registry : Registry} {name : String} {handler : Handler}
    (h : registry.find? name = some handler) (arguments : String) (context : Context) (pass : Pass) :
    answerSize (registry.expand name arguments context pass) =
      answerSize (handler (splitArguments arguments) context pass) := by
  unfold Registry.expand
  rw [h]
  dsimp only
  split
  · rename_i output houtput
    rw [houtput]
    cases output <;> rfl
  · rename_i hmessage
    rw [hmessage]
    rfl

/-! ## Both passes -/

/-- The macro makes a table whose arguments are numbers and words, and one of the words never gets a value. -/
structure LosesTable (symbols : SymbolTable) (name arguments : String) : Prop where
  table : IsTable name
  written : ∀ arg ∈ splitArguments arguments, number? arg ≠ none ∨ isWord arg = true
  missing : ∃ arg ∈ splitArguments arguments, number? arg = none ∧ symbols.address? arg = none

section BothPasses
variable {context context' : Context} (hwords : HasWords context'.symbols)
  (hextends : context.symbols.Extends context'.symbols)
include hwords hextends

theorem answerSize_table {name arguments : String} (htable : IsTable name) {entry : Int → List UInt8}
    (hentry : ∀ n, (entry n).length = 2) :
    answerSize (addressTable name entry (splitArguments arguments) context .first) =
        answerSize (addressTable name entry (splitArguments arguments) context' .second) ↔
      ¬ LosesTable context'.symbols name arguments := by
  by_cases hsecond : ∀ arg ∈ splitArguments arguments, Resolves context' .second arg
  · -- both passes have a value for every argument
    have hfirst : ∀ arg ∈ splitArguments arguments, Resolves context .first arg :=
      fun arg harg => resolves_of_second hwords hextends (hsecond arg harg)
    rw [answerSize_resolved hentry hfirst, answerSize_resolved hentry hsecond]
    refine ⟨fun _ hloses => ?_, fun _ => rfl⟩
    obtain ⟨arg, harg, hnumber, hsymbol⟩ := hloses.missing
    rcases resolves_second.1 (hsecond arg harg) with h | h
    · exact h hsymbol
    · exact h hnumber
  · rw [answerSize_refused hsecond]
    by_cases hfirst : ∀ arg ∈ splitArguments arguments, Resolves context .first arg
    · -- the first pass reserves a place that the second does not fill
      simp only [not_forall] at hsecond
      obtain ⟨arg, harg, hmissing⟩ := hsecond
      rw [resolves_second, not_or, not_not, not_not] at hmissing
      rw [answerSize_resolved hentry hfirst]
      have hpos := List.length_pos_of_mem harg
      refine ⟨fun h => by omega, fun h => absurd ⟨htable, fun arg harg => ?_, arg, harg, hmissing.2, hmissing.1⟩ h⟩
      exact (resolves_first_iff hwords hextends).1 (hfirst arg harg)
    · rw [answerSize_refused hfirst]
      refine ⟨fun _ hloses => hfirst fun arg harg => ?_, fun _ => rfl⟩
      exact (resolves_first_iff hwords hextends).2 (hloses.written arg harg)

/-- The bytes of a built-in macro are as many in both passes, unless it loses a table. -/
theorem answerSize_builtin (name arguments : String) :
    answerSize (Registry.builtin.expand name arguments context .first) =
        answerSize (Registry.builtin.expand name arguments context' .second) ↔
      ¬ LosesTable context'.symbols name arguments := by
  cases hfind : Registry.builtin.find? name with
  | none =>
    have hunknown (context : Context) (pass : Pass) :
        Registry.builtin.expand name arguments context pass = .error (.unknown name) := by
      unfold Registry.expand
      rw [hfind]
    rw [hunknown, hunknown]
    refine ⟨fun _ hloses => ?_, fun _ => rfl⟩
    rcases hloses.table with rfl | rfl <;> cases hfind
  | some handler =>
    rw [answerSize_expand hfind, answerSize_expand hfind]
    rcases builtin_handler hfind with ⟨htable, entry, hentry, rfl⟩ | ⟨hother, hsame⟩
    · exact answerSize_table hwords hextends htable hentry
    · rw [hsame _ context context' .first .second]
      exact ⟨fun _ hloses => hother hloses.table, fun _ => rfl⟩

end BothPasses

end Builtin

end Macro

namespace Assembly

open Macro.Builtin (LosesTable)

/-! ## One line -/

/-- The origin has no value for the first pass, and another place as its value for the second. -/
structure LateOrigin (symbols : SymbolTable) (s : Layout) (e : Expr) : Prop where
  undefined : ∃ u, e.eval s.symbols s.address = .error u
  moves : ∃ a : UInt16, e.eval symbols s.address = .ok a.toNat ∧ a.toNat ≠ s.cursor

/-- The line leaves the passes at different places if both come to it at the place of the layout, and the
second pass has the symbols. -/
inductive Shifts (symbols : SymbolTable) (s : Layout) (l : Line) : Prop
  | origin {e : Expr} : l.statement = some (.origin e) → LateOrigin symbols (s.labelled l) e → Shifts symbols s l
  | table {name arguments : String} : l.statement = some (.invocation name arguments) →
    LosesTable symbols name arguments → Shifts symbols s l

theorem setOrigin_cursor_iff {env : Emission.Setting} {s : Layout} {t : Emission} {l : Line} {e : Expr}
    (hc : s.cursor = t.cursor) (hs : s.symbols.Extends env.symbols) :
    (s.setOrigin e l).cursor = (t.setOrigin env l e).cursor ↔ ¬ LateOrigin env.symbols s e := by
  cases hv : e.eval s.symbols s.address with
  | ok v =>
    refine ⟨fun _ hlate => ?_, fun _ => setOrigin_cursor hc hs hv⟩
    obtain ⟨u, hu⟩ := hlate.undefined
    cases hv.symm.trans hu
  | error u =>
    -- the first pass stays, so all depends on where the second goes
    have hstay : (s.setOrigin e l).cursor = s.cursor := by simp only [Layout.setOrigin, hv, Layout.report]
    have hreport (cause : Cause) : s.cursor = (t.report env l.number l.column cause).cursor :=
      hc.trans ((Emission.Reports.refl t).report _ _ _).cursor.symm
    have ha : s.address = t.address := by rw [Layout.address, Emission.address, hc]
    rw [hstay]
    cases hv' : e.eval env.symbols s.address with
    | error u' =>
      simp only [Emission.setOrigin, Emission.value, ← ha, hv']
      refine ⟨fun _ hlate => ?_, fun _ => hreport _⟩
      obtain ⟨a, hmoves, -⟩ := hlate.moves
      cases hv'.symm.trans hmoves
    | ok w =>
      simp only [Emission.setOrigin, Emission.value, ← ha, hv']
      cases hw : valueAddress? w with
      | none =>
        refine ⟨fun _ hlate => ?_, fun _ => hreport _⟩
        obtain ⟨a, hmoves, -⟩ := hlate.moves
        cases hv'.symm.trans hmoves
        cases hw.symm.trans (valueAddress?_word a)
      | some a =>
        obtain rfl := valueAddress?_eq_some.1 hw
        constructor
        · intro heq hlate
          obtain ⟨b, hmoves, hne⟩ := hlate.moves
          have hab : (a.toNat : Int) = b.toNat := Except.ok.inj (hv'.symm.trans hmoves)
          exact hne (by rw [heq]; exact (Int.ofNat.inj hab).symm)
        · intro hlate
          by_contra hne
          exact hlate ⟨⟨u, hv⟩, a, hv', fun heq => hne heq.symm⟩

/-- A line that both passes start at the same place leaves them at different places if and only if it shifts. -/
theorem line_cursor_iff {env : Emission.Setting} (hregistry : env.registry = .builtin) {limit levels levels' : Nat}
    {s : Layout} {t : Emission} {l : Line} (hc : s.cursor = t.cursor)
    (hs : (s.labelled l).symbols.Extends env.symbols) (hwords : Macro.Builtin.HasWords env.symbols) :
    (s.line .builtin limit levels l).1.cursor =
        (t.line env levels' (s.line .builtin limit levels l).2 l).1.cursor ↔
      ¬ Shifts env.symbols s l := by
  have hcl : (s.labelled l).cursor = (t.labelled env l).cursor := by
    rw [Layout.labelled_cursor, Emission.labelled_cursor, hc]
  by_cases horigin : ∃ e, l.statement = some (.origin e)
  · obtain ⟨e, hst⟩ := horigin
    simp only [Layout.line_eq, Emission.line_eq, hst]
    rw [setOrigin_cursor_iff hcl hs]
    refine not_congr ⟨.origin hst, ?_⟩
    rintro (⟨hst', hlate⟩ | ⟨hst', -⟩)
    · cases hst.symm.trans hst'
      exact hlate
    · cases hst.symm.trans hst'
  by_cases hcall : ∃ name arguments, l.statement = some (.invocation name arguments)
  · obtain ⟨name, arguments, hst⟩ := hcall
    have hplain : ∀ name arguments context pass text,
        env.registry.expand name arguments context pass ≠ .ok (.source text) :=
      hregistry ▸ Macro.expand_builtin
    have hsizes := Macro.Builtin.answerSize_builtin
      (show Macro.Builtin.HasWords ((t.labelled env l).context env).symbols from hwords)
      (show (s.labelled l).context.symbols.Extends ((t.labelled env l).context env).symbols from hs) name arguments
    simp only [Layout.line_eq, Emission.line_eq, hst]
    rw [(Emission.checkSize_reports env _ _ _ _ _).cursor, Layout.expansion_cursor Macro.expand_builtin,
      Emission.expansion_cursor hplain, hcl, Nat.add_left_cancel_iff, hregistry, hsizes]
    refine not_congr ⟨.table hst, ?_⟩
    rintro (⟨hst', -⟩ | ⟨hst', hloses⟩)
    · cases hst.symm.trans hst'
    · cases hst.symm.trans hst'
      exact hloses
  · constructor
    · rintro - (⟨hst, -⟩ | ⟨hst, -⟩)
      · exact horigin ⟨_, hst⟩
      · exact hcall ⟨_, _, hst⟩
    · intro _
      exact line_cursor_steady hc (fun e hst => horigin ⟨e, hst⟩) fun name arguments hst => hcall ⟨name, arguments, hst⟩

/-! ## Whole sources -/

section Source
variable (settings : Settings) (source : String)

/-- The line with the index `k` shifts. -/
def ShiftsAt (k : Nat) : Prop :=
  ∃ l, (parsed source)[k]? = some (.ok l) ∧
    Shifts (environment settings .builtin source).symbols (laidOut settings .builtin source k) l

variable {settings source}

/-- What the first pass knows after the label of a line, it knows at the end. -/
theorem labelled_extends_run {k : Nat} {text : List Char} {l : Line}
    (hl : (readSource source)[k]? = some (text, .ok l)) :
    ((laidOut settings .builtin source k).labelled l).symbols.Extends
      (environment settings .builtin source).symbols := by
  have hline := (Layout.labelled_extends .builtin settings.maxDepth settings.maxDepth
    (laidOut settings .builtin source k) l).symbols
  have hrun := (pass_extends_run settings .builtin source (k + 1)).symbols
  rw [pass_take_succ hl] at hrun
  exact hline.trans hrun

/-- One more line keeps the passes together if and only if it does not shift. -/
theorem cursor_succ_iff {k : Nat}
    (hc : firstCursor settings .builtin source k = secondCursor settings .builtin source k) :
    firstCursor settings .builtin source (k + 1) = secondCursor settings .builtin source (k + 1) ↔
      ¬ ShiftsAt settings source k := by
  cases hread : (readSource source)[k]? with
  | none =>
    -- behind the last line nothing moves
    have hlength := List.getElem?_eq_none_iff.1 hread
    have hfirst : firstCursor settings .builtin source (k + 1) = firstCursor settings .builtin source k := by
      rw [firstCursor, firstCursor, List.take_of_length_le (by simp [parsed]; omega),
        List.take_of_length_le (by simp [parsed]; omega)]
    have hsecond : secondCursor settings .builtin source (k + 1) = secondCursor settings .builtin source k := by
      rw [secondCursor, secondCursor, List.take_of_length_le (by simp [planned]; omega),
        List.take_of_length_le (by simp [planned]; omega)]
    refine ⟨?_, fun _ => hfirst.trans (hc.trans hsecond.symm)⟩
    rintro - ⟨l, hl, -⟩
    rw [parsed, List.getElem?_map, hread] at hl
    cases hl
  | some line =>
    obtain ⟨text, x⟩ := line
    have hparsed := parsed_getElem? hread
    cases x with
    | error e =>
      -- both passes report what cannot be read, and stay
      have hfirst : firstCursor settings .builtin source (k + 1) = firstCursor settings .builtin source k := by
        rw [firstCursor, pass_take_succ hread]
        rfl
      have hsecond : secondCursor settings .builtin source (k + 1) = secondCursor settings .builtin source k := by
        rw [secondCursor, take_succ_of_getElem? (planned_getElem? hread), Emission.run_concat_error]
        exact ((Emission.Reports.refl _).report _ _ _).cursor
      refine ⟨?_, fun _ => hfirst.trans (hc.trans hsecond.symm)⟩
      rintro - ⟨l, hl, -⟩
      cases hparsed.symm.trans hl
    | ok l =>
      have hwords := hasWords_of_labels (isLabel_symbols .builtin settings.maxDepth source)
      have hiff := @line_cursor_iff (environment settings .builtin source) rfl settings.maxDepth settings.maxDepth
        settings.maxDepth _ _ l hc (labelled_extends_run hread) hwords
      rw [firstCursor, secondCursor, pass_take_succ hread, run_take_succ hread]
      refine hiff.trans (not_congr ⟨fun h => ⟨l, hparsed, h⟩, ?_⟩)
      rintro ⟨l', hl', h⟩
      cases hparsed.symm.trans hl'
      exact h

theorem cursors_eq_iff (n : Nat) :
    (∀ k ≤ n, firstCursor settings .builtin source k = secondCursor settings .builtin source k) ↔
      ∀ k < n, ¬ ShiftsAt settings source k := by
  induction n with
  | zero =>
    refine ⟨fun _ k hk => absurd hk (Nat.not_lt_zero k), fun _ k hk => ?_⟩
    obtain rfl : k = 0 := by omega
    rfl
  | succ n ih =>
    constructor
    · intro h k hk
      exact (cursor_succ_iff (h k (by omega))).1 (h (k + 1) hk)
    · intro h k hk
      have hbefore := ih.2 fun k hk => h k (by omega)
      rcases Nat.lt_or_ge n k with hlt | hle
      · obtain rfl : k = n + 1 := by omega
        exact (cursor_succ_iff (hbefore n (Nat.le_refl n))).2 (h n (by omega))
      · exact hbefore k hle

/-- A label without a value gets the address at which the first pass comes to its line. -/
theorem label_address {k : Nat} {l : Line} (hl : (parsed source)[k]? = some (.ok l)) {name : String}
    (hlabel : l.label = some name) (hnew : (laidOut settings .builtin source k).symbols.address? name = none)
    {a : UInt16} (ha : cursorAddress? (firstCursor settings .builtin source k) = some a) :
    (environment settings .builtin source).symbols.address? name = some a := by
  obtain ⟨text, hread⟩ := getElem?_parsed hl
  refine labelled_extends_run hread name a ?_
  obtain ⟨symbols, hdefine⟩ := @SymbolTable.define_of_none _ ⟨name, a, l.number⟩ hnew
  have ha' : cursorAddress? (laidOut settings .builtin source k).cursor = some a := ha
  simp only [Layout.labelled, hlabel, Layout.label, ha', Layout.define, hdefine]
  rw [SymbolTable.address?_define hdefine, if_pos rfl]

end Source

end Assembly

open Assembly

/-- Up to any line, both passes come to the same places if and only if no line before it shifts, be it an
origin whose value comes late or a table of words with a name that never gets a value. Then the second pass
works on each line at the address that its label was given, whatever errors the lines have. -/
theorem cursors_agree_iff_no_shift (settings : Settings) (source : String) (n : Nat) :
    ((∀ k ≤ n, firstCursor settings .builtin source k = secondCursor settings .builtin source k) ↔
      ∀ k < n, ¬ ShiftsAt settings source k) ∧
    ((∀ k < n, ¬ ShiftsAt settings source k) → ∀ k ≤ n, ∀ l name a, (parsed source)[k]? = some (.ok l) →
      l.label = some name → (laidOut settings .builtin source k).symbols.address? name = none →
      cursorAddress? (secondCursor settings .builtin source k) = some a →
      (environment settings .builtin source).symbols.address? name = some a) := by
  refine ⟨cursors_eq_iff n, fun hshifts k hk l name a hl hlabel hnew ha => ?_⟩
  rw [← (cursors_eq_iff n).2 hshifts k hk] at ha
  exact label_address hl hlabel hnew ha

/-- An origin whose value comes later, before a branch to itself. -/
def lateOrigin : String :=
  "ORG there\nstart: BNE start\nthere = $0200"

/-- A table with a name that has no value, before a branch that just reaches its target. -/
def lostTable : String :=
  "@word_table nowhere\nBNE far\n@repeat_byte 0, 127\nfar: NOP"

/-- A jump to a name without a value, before a branch to itself. -/
def failingJump : String :=
  "JMP nowhere\nstart: BNE start"

/-- The first line of two sources has an error and shifts, and then the second pass finds a branch out of range
that is within reach of its label. In the third it has an error too and does not shift, so the label behind it
has the address that the second pass comes to. -/
theorem cursors_agree_iff_no_shift_failing :
    ((run {} .builtin lateOrigin).errors.map (fun e => (e.line, e.kind)) =
        [(1, .undefinedSymbol), (2, .branchRange)] ∧ ∃ k < 1, ShiftsAt {} lateOrigin k) ∧
      ((run {} .builtin lostTable).errors.map (fun e => (e.line, e.kind)) =
        [(1, .macroExpansion), (1, .macroExpansion), (2, .branchRange)] ∧ ∃ k < 1, ShiftsAt {} lostTable k) ∧
      (run {} .builtin failingJump).errors.map (fun e => (e.line, e.kind)) = [(1, .undefinedSymbol)] ∧
        (environment {} .builtin failingJump).symbols.address? "start" = some 3 := by
  have hshift {source : String} (h : firstCursor {} .builtin source 1 ≠ secondCursor {} .builtin source 1) :
      ∃ k < 1, ShiftsAt {} source k := by
    by_contra hnone
    refine h ((cursors_agree_iff_no_shift {} source 1).1.2 (fun k hk hshifts => hnone ⟨k, hk, hshifts⟩) 1 ?_)
    exact Nat.le_refl 1
  refine ⟨⟨by decide +kernel, hshift ?_⟩, ⟨by decide +kernel, hshift ?_⟩, by decide +kernel, ?_⟩
  · decide +kernel
  · decide +kernel
  · obtain ⟨hiff, hlabels⟩ := cursors_agree_iff_no_shift {} failingJump 1
    have hsteady : ∀ k < 1, ¬ ShiftsAt {} failingJump k := hiff.1 (by decide +kernel)
    have hline : (parsed failingJump)[1]? = some (.ok ⟨2, some "start",
        some (.instruction "BNE" (.direct none false) (some (.symbol "start"))), 7⟩) := by
      decide +kernel
    exact hlabels hsteady 1 (Nat.le_refl 1) _ "start" 3 hline rfl (by decide +kernel) (by decide +kernel)

end Mos6502
