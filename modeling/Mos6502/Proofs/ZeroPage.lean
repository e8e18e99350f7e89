import Mos6502.Proofs.Decoded
import Mos6502.Proofs.Meaning

/-!
# Zero page or absolute

A direct operand can be written in one byte or in two. The first pass decides,
with the symbols it knows when it comes to the instruction, and the second pass
keeps to that; where the value turns out to fit in one byte after all it leaves
a warning.

Main statement: `direct_operands_exact`.
-/
namespace Mos6502

/-! ## Ranges of operands -/

namespace Encoding

theorem range_zeroPageMode {index : Option Index} {v : Int} {a : UInt16} {bs : List UInt8}
    (h : operand (Opcode.zeroPageMode index) v a = .ok bs) : 0 ≤ v ∧ v ≤ 0xFF := by
  match index with
  | none | some .x | some .y =>
    obtain ⟨w, hw, -⟩ := bind_eq_ok.1 h
    exact (check_eq_ok.1 hw).2

theorem range_absoluteMode {index : Option Index} {v : Int} {a : UInt16} {bs : List UInt8}
    (h : operand (Opcode.absoluteMode index) v a = .ok bs) : 0 ≤ v ∧ v ≤ 0xFFFF := by
  match index with
  | none | some .x | some .y =>
    obtain ⟨w, hw, -⟩ := bind_eq_ok.1 h
    exact (check_eq_ok.1 hw).2

end Encoding

/-! ## Rows of the table -/

namespace Opcode

/-- A row that is found has the mode and the name, or it is the row of an alias. -/
theorem find?_eq_some {name : String} {mode : Mode} {o : Opcode} (h : find? name mode = some o) :
    (o.mode = mode ∧ o.mnemonic = Text.upper name) ∨ ∃ a ∈ aliases, a.mode = mode ∧ ofCode? a.code = some o := by
  rcases (Option.orElse_eq_some _ _ _).1 h with h | ⟨-, h⟩
  · left
    simpa using List.find?_some h
  · right
    obtain ⟨a, ha, hcode⟩ := Option.bind_eq_some_iff.1 h
    have hmode := List.find?_some ha
    simp only [decide_eq_true_eq] at hmode
    exact ⟨a, List.mem_of_find?_eq_some ha, hmode.1, hcode⟩

theorem alias_mode : ∀ a ∈ aliases, a.mode = .implied ∨ a.mode = .relative := by
  decide +kernel

theorem alias_zeroPageForm : ∀ a ∈ aliases, ∀ o ∈ ofCode? a.code, o.mode.zeroPageForm = none := by
  decide +kernel

/-- The two modes of a direct operand have no aliases. -/
theorem find?_direct {name : String} {mode : Mode} {index : Option Index} {o : Opcode}
    (hm : mode = zeroPageMode index ∨ mode = absoluteMode index) (h : find? name mode = some o) :
    o.mode = mode ∧ o.mnemonic = Text.upper name := by
  rcases find?_eq_some h with h | ⟨a, ha, hmode, -⟩
  · exact h
  · exfalso
    have hdirect : mode ≠ .implied ∧ mode ≠ .relative := by
      rcases hm with rfl | rfl <;> rcases index with _ | _ | _ <;> decide
    rcases alias_mode a ha with halias | halias
    · exact hdirect.1 (hmode.symm.trans halias)
    · exact hdirect.2 (hmode.symm.trans halias)

theorem find?_mnemonic {name : String} {o : Opcode} (h : o.mnemonic = Text.upper name) (mode : Mode) :
    find? o.mnemonic mode = find? name mode := by
  have hupper : Text.upper o.mnemonic = Text.upper name := (upper_mnemonic o).trans h
  simp only [find?, hupper]

theorem find?_zeroPageForm {name : String} {mode : Mode} {o : Opcode} (hm : mode.zeroPageForm = none)
    (h : find? name mode = some o) : o.mode.zeroPageForm = none := by
  rcases find?_eq_some h with ⟨hmode, -⟩ | ⟨a, ha, -, hcode⟩
  · rw [hmode, hm]
  · exact alias_zeroPageForm a ha o hcode

/-- The row is the one for a direct operand. The suffix asks for the absolute form. Without it `narrow` decides
where both forms exist, and a form that exists alone is taken. -/
def DirectRow (name : String) (index : Option Index) (forced : Bool) (narrow : Prop) (o : Opcode) : Prop :=
  match forced, find? name (zeroPageMode index), find? name (absoluteMode index) with
  | true, _, absolute => absolute = some o
  | false, some zeroPage, some absolute => (narrow → o = zeroPage) ∧ (¬ narrow → o = absolute)
  | false, some zeroPage, none => o = zeroPage
  | false, none, some absolute => o = absolute
  | false, none, none => False

section Direct
variable {name : String} {index : Option Index} {forced : Bool} {narrow : Prop} {o : Opcode}

theorem selectDirect_row {value : Option UInt16} (h : selectDirect name index forced value = some o)
    (hnarrow : value.any (· ≤ 0xFF) = true ↔ narrow) : DirectRow name index forced narrow o := by
  unfold selectDirect at h
  unfold DirectRow
  cases forced with
  | true => exact h
  | false =>
    by_cases hv : value.any (· ≤ 0xFF) = true
    · have hn := hnarrow.1 hv
      cases hz : find? name (zeroPageMode index) <;> cases ha : find? name (absoluteMode index) <;>
        simp_all
    · have hn := mt hnarrow.2 hv
      cases hz : find? name (zeroPageMode index) <;> cases ha : find? name (absoluteMode index) <;>
        simp_all

/-- The row has one of the two modes, and it is the one found for that mode. -/
theorem DirectRow.found (h : DirectRow name index forced narrow o) :
    find? name (zeroPageMode index) = some o ∧ o.mode = zeroPageMode index ∨
      find? name (absoluteMode index) = some o ∧ o.mode = absoluteMode index := by
  have hfound : find? name (zeroPageMode index) = some o ∨ find? name (absoluteMode index) = some o := by
    unfold DirectRow at h
    by_cases hn : narrow <;> split at h <;> simp_all
  rcases hfound with h | h
  · exact .inl ⟨h, (find?_direct (.inl rfl) h).1⟩
  · exact .inr ⟨h, (find?_direct (.inr rfl) h).1⟩

theorem zeroPageForm_zeroPageMode (index : Option Index) : (zeroPageMode index).zeroPageForm = none := by
  match index with
  | none | some .x | some .y => rfl

/-- Text needs the suffix if it would have a shorter form without it. -/
theorem DirectRow.needsForce_iff (h : DirectRow name index forced narrow o) (w : UInt16) :
    o.needsForce w = true ↔
      w ≤ 0xFF ∧ find? name (absoluteMode index) = some o ∧ (find? name (zeroPageMode index)).isSome := by
  rcases h.found with ⟨hfind, hmode⟩ | ⟨hfind, hmode⟩
  · constructor
    · intro hforce
      simp [needsForce, hmode, zeroPageForm_zeroPageMode] at hforce
    · rintro ⟨-, habsolute, -⟩
      have := (find?_direct (.inr rfl) habsolute).1
      rw [hmode] at this
      rcases index with _ | _ | _ <;> cases this
  · have hname := (find?_direct (.inr rfl) hfind).2
    simp [needsForce, hmode, (absoluteMode_two index).2, find?_mnemonic hname, hfind]

/-- An operand that was encoded is an address, and in zero page if it takes one byte. -/
theorem DirectRow.encode_value (h : DirectRow name index forced narrow o) {v : Option Int} {a : UInt16}
    {bs : List UInt8} (hbs : o.encode v a = .ok bs) :
    ∃ w : UInt16, v = some (w.toNat : Int) ∧ (0x100 ≤ w → bs.length = 3) := by
  have hlength := length_encode hbs
  unfold encode at hbs
  split at hbs
  · rename_i hzero
    rcases h.found with ⟨-, hmode⟩ | ⟨-, hmode⟩
    · rw [hmode, (zeroPageMode_one index).1] at hzero
      cases hzero
    · rw [hmode, (absoluteMode_two index).1] at hzero
      cases hzero
  · cases v with
    | none => cases hbs
    | some v =>
      obtain ⟨operand, hoperand, -⟩ := map_eq_ok.1 hbs
      rcases h.found with ⟨-, hmode⟩ | ⟨-, hmode⟩
      · rw [hmode] at hoperand
        obtain ⟨hmin, hmax⟩ := Encoding.range_zeroPageMode hoperand
        obtain ⟨w, rfl⟩ : ∃ w : UInt16, v = w.toNat := ⟨UInt16.ofNat v.toNat, by simp; omega⟩
        refine ⟨w, rfl, fun hw => ?_⟩
        have := UInt16.le_iff_toNat_le.1 hw
        simp at this
        omega
      · rw [hmode] at hoperand
        obtain ⟨hmin, hmax⟩ := Encoding.range_absoluteMode hoperand
        obtain ⟨w, rfl⟩ : ∃ w : UInt16, v = w.toNat := ⟨UInt16.ofNat v.toNat, by simp; omega⟩
        refine ⟨w, rfl, fun _ => ?_⟩
        rw [hlength, size, Mode.size, hmode, (absoluteMode_two index).1]

end Direct

theorem select_direct {name : String} {index : Option Index} {forced : Bool} {value : Option UInt16} {o : Opcode}
    (hb : isBranch name = false) (h : select name (.direct index forced) value = .ok o) :
    selectDirect name index forced value = some o := by
  unfold select at h
  split at h
  · cases h
  · simp only [hb, selectPlain] at h
    split at h
    · rename_i hfound
      cases h
      simpa using hfound
    · cases h

/-- Only a direct operand of an instruction that is no branch leads to an absolute row. -/
theorem direct_of_select {name : String} {shape : Shape} {value : Option UInt16} {o : Opcode}
    (h : select name shape value = .ok o) (ho : o.mode.zeroPageForm ≠ none) :
    isBranch name = false ∧ ∃ index forced, shape = .direct index forced := by
  unfold select at h
  split at h
  · cases h
  · dsimp only at h
    split at h
    · rename_i hfound
      cases h
      split at hfound
      · split at hfound
        · exact absurd (find?_zeroPageForm rfl hfound) ho
        · cases hfound
      · rename_i hb
        refine ⟨by simpa using hb, ?_⟩
        cases shape with
        | direct index forced => exact ⟨index, forced, rfl⟩
        | _ => exact absurd (find?_zeroPageForm rfl hfound) ho
    · cases h

end Opcode

/-! ## Values in the first pass -/

theorem Expr.isByteSelect_le {t : SymbolTable} {a : UInt16} {e : Expr} {v : Int} (he : e.isByteSelect = true)
    (hv : e.eval t a = .ok v) : v ≤ 0xFF := by
  cases e with
  | low e | high e =>
    obtain ⟨w, -, hw⟩ := bind_eq_ok.1 hv
    cases hw
    omega
  | _ => cases he

namespace Assembly

/-- The first pass knows the operand's value, or it knows only whether that is one byte of another value. -/
theorem Layout.operandValue_some {s : Layout} {t : SymbolTable} {e : Expr} {w : UInt16} (hs : s.symbols.Extends t)
    (hw : e.eval t s.address = .ok w.toNat) :
    ((s.operandValue (some e)).2 = true ↔ ¬ e.Known s.symbols) ∧
      ((s.operandValue (some e)).1.any (· ≤ 0xFF) = true ↔
        e.isByteSelect = true ∨ w ≤ 0xFF ∧ e.Known s.symbols) := by
  cases hv : e.eval s.symbols s.address with
  | ok v =>
    have hknown : e.Known s.symbols := Expr.eval_ok_iff.1 ⟨v, hv⟩
    obtain rfl : v = w.toNat := Except.ok.inj ((Expr.eval_extends hs hv).symm.trans hw)
    have hbyte : e.isByteSelect = true → w ≤ 0xFF := by
      intro he
      have := Expr.isByteSelect_le he hw
      rw [UInt16.le_iff_toNat_le]
      simp
      omega
    simp only [operandValue, hv, valueAddress?_word, hknown, Option.any_some, decide_eq_true_eq]
    simp
    exact hbyte
  | error u =>
    have hunknown : ¬ e.Known s.symbols := by
      intro hknown
      obtain ⟨v, hv'⟩ := Expr.eval_ok_iff.2 hknown
      cases hv.symm.trans hv'
    simp only [operandValue, hv]
    cases e.isByteSelect <;> simp [hunknown]

/-! ## Warnings -/

/-- The warning on a direct operand. -/
theorem Emission.warning?_direct {mnemonic : String} {index : Option Index} {forced : Bool} {narrow : Prop}
    {o : Opcode} (h : Opcode.DirectRow mnemonic index forced narrow o) (forward : Bool) (l : Line) (w : UInt16) :
    warning? ⟨o, forward, mnemonic, .direct index forced⟩ (.direct index forced) l (some (w.toNat : Int)) =
      if forced = false ∧ forward = true ∧ w ≤ 0xFF ∧ Opcode.find? mnemonic (Opcode.absoluteMode index) = some o ∧
        (Opcode.find? mnemonic (Opcode.zeroPageMode index)).isSome then
        some ⟨l.number, w.toUInt8, o.mnemonic⟩
      else none := by
  have hword : UInt16.ofInt w.toNat = w := Encoding.ofInt_word w
  have hbyte : UInt8.ofInt w.toNat = w.toUInt8 := by
    apply UInt8.toNat_inj.1
    simp [UInt8.ofInt]
    omega
  have hle : (w.toNat : Int) ≤ 0xFF ↔ w ≤ 0xFF := by
    rw [UInt16.le_iff_toNat_le]
    simp
  simp only [warning?, hword, hbyte, h.needsForce_iff, hle]
  refine if_congr ?_ rfl rfl
  cases forced <;> simp +contextual

/-- A warning is about a row that has a shorter form, for an operand that does not ask for the longer one. -/
theorem Emission.of_warning? {c : Choice} {shape : Shape} {l : Line} {v : Option Int} {w : Warning}
    (h : warning? c shape l v = some w) :
    w.line = l.number ∧ c.opcode.mode.zeroPageForm ≠ none ∧ ∀ index, shape ≠ .direct index true := by
  cases v with
  | none => cases h
  | some v =>
    obtain ⟨⟨-, -, -, hforced, hforce⟩, hw⟩ := Option.ite_none_right_eq_some.1 h
    cases hw
    refine ⟨rfl, ?_, ?_⟩
    · intro hnone
      simp [Opcode.needsForce, hnone] at hforce
    · rintro index rfl
      cases hforced

/-- The line is an instruction with a direct operand, no branch and without the suffix. -/
def IsOpen (l : Line) : Prop :=
  ∃ mnemonic index operand, l.statement = some (.instruction mnemonic (.direct index false) operand) ∧
    Opcode.isBranch mnemonic = false

section Line
variable {env : Emission.Setting} (hf : env.failed = [])
  (hp : ∀ name arguments context pass text, env.registry.expand name arguments context pass ≠ .ok (.source text))
  {t : Emission} {l : Line}
include hf

include hp in
/-- Lines without an instruction leave no warnings. -/
theorem Emission.line_warnings {levels : Nat} {plan : Plan} (he : (t.line env levels plan l).1.errors = #[])
    (hst : ∀ mnemonic shape operand, l.statement ≠ some (.instruction mnemonic shape operand)) :
    (t.line env levels plan l).1.warnings = t.warnings := by
  have hlabel := labelled_silent hf he
  cases hstatement : l.statement with
  | none => simp only [line_eq, hstatement, hlabel]
  | some st =>
    cases st with
    | instruction mnemonic shape operand => exact absurd hstatement (hst _ _ _)
    | equate name e => simp only [line_eq, hstatement, hlabel]
    | origin e =>
      simp only [line_eq, hstatement, hlabel] at he ⊢
      obtain ⟨v, -, heq⟩ := setOrigin_silent hf he
      rw [heq]
    | bytes items =>
      simp only [line_eq, hstatement, hlabel] at he ⊢
      obtain ⟨parts, -, heq⟩ := data_silent hf (item_reports env l) (fun i => item_silent hf) he
      rw [heq]
    | words items =>
      simp only [line_eq, hstatement, hlabel] at he ⊢
      obtain ⟨parts, -, heq⟩ := data_silent hf (word_reports env l) (fun e => word_silent hf) he
      rw [heq]
    | invocation name arguments =>
      simp only [line_eq, hstatement, hlabel] at he ⊢
      have hcheck := checkSize_reports env l plan name t.cursor (t.expansion env levels plan l name arguments).1
      have hstate := hcheck.eq_of_noErrors hf he
      rw [hstate] at he ⊢
      unfold expansion at he ⊢
      split at he
      · exact absurd he (report_ne hf _ _ _ _)
      · rfl
      · rw [write_silent hf he]
      · rename_i heq
        exact absurd heq (hp _ _ _ _ _)

variable {registry : Macro.Registry} {limit levels levels' : Nat} {s : Layout}
  (he : (s.line registry limit levels l).1.errors = #[])
  (he' : (t.line env levels' (s.line registry limit levels l).2 l).1.errors = #[])
include he he'

include hp in
theorem line_adds_warnings :
    ∃ ws : List Warning,
      (t.line env levels' (s.line registry limit levels l).2 l).1.warnings.toList = t.warnings.toList ++ ws ∧
      ∀ w ∈ ws, w.line = l.number ∧ IsOpen l := by
  by_cases hst : ∃ mnemonic shape operand, l.statement = some (.instruction mnemonic shape operand)
  · obtain ⟨mnemonic, shape, operand, hst⟩ := hst
    obtain ⟨o, v, hselect, -, -, hwarnings⟩ := line_instruction hf he he' hst
    refine ⟨_, by rw [hwarnings, Array.toList_append], fun w hw => ?_⟩
    rw [Option.toList_toArray, Option.mem_toList] at hw
    obtain ⟨hnumber, hshort, hforced⟩ := Emission.of_warning? hw
    obtain ⟨hbranch, index, forced, rfl⟩ := Opcode.direct_of_select hselect hshort
    cases forced with
    | false => exact ⟨hnumber, mnemonic, index, operand, hst, hbranch⟩
    | true => exact absurd rfl (hforced index)
  · refine ⟨[], ?_, by simp⟩
    rw [Emission.line_warnings hf hp he' fun mnemonic shape operand h => hst ⟨mnemonic, shape, operand, h⟩,
      List.append_nil]

end Line

/-! ## Whole sources -/

section Source
variable {settings : Settings} {registry : Macro.Registry} {source : String}

theorem readSource_number {k : Nat} {text : List Char} {l : Line}
    (hl : (readSource source)[k]? = some (text, .ok l)) : l.number = k + 1 := by
  rw [readSource, List.getElem?_mapIdx] at hl
  obtain ⟨text', -, heq⟩ := Option.map_eq_some_iff.1 hl
  exact Line.read_number (Prod.mk.inj heq).2

theorem warnings_of_ok {out : Output} (h : (run settings registry source).toExcept = .ok out) :
    out.warnings = (Emission.run (environment settings registry source)
      ((planned settings registry source).take (readSource source).length)).1.warnings.toList := by
  have hlength : (planned settings registry source).length ≤ (readSource source).length := by
    rw [planned, List.length_zip]
    exact Nat.min_le_left _ _
  rw [List.take_of_length_le hlength]
  rw [run_eq, Result.toExcept] at h
  split at h
  · cases h
    rfl
  · cases h

/-- The warnings after the first `k` lines. -/
def warningsAfter (settings : Settings) (registry : Macro.Registry) (source : String) (k : Nat) : List Warning :=
  (Emission.run (environment settings registry source)
    ((planned settings registry source).take k)).1.warnings.toList

namespace Accepted
variable (h : Accepted settings registry source)
  (hp : ∀ name arguments context pass text, registry.expand name arguments context pass ≠ .ok (.source text))
include h hp

theorem warningsAfter_succ {k : Nat} {text : List Char} {l : Line}
    (hl : (readSource source)[k]? = some (text, .ok l)) :
    ∃ ws : List Warning,
      warningsAfter settings registry source (k + 1) = warningsAfter settings registry source k ++ ws ∧
      ∀ w ∈ ws, w.line = k + 1 ∧ IsOpen l := by
  have he := h.pass_errors (k + 1)
  have he' := h.run_errors (k + 1)
  rw [pass_take_succ hl] at he
  rw [run_take_succ hl] at he'
  unfold warningsAfter
  rw [run_take_succ hl, ← readSource_number hl]
  exact line_adds_warnings h.failed hp he he'

/-- Every warning is about one of the lines so far. -/
theorem warningsAfter_line {k : Nat} (hk : k ≤ (readSource source).length) :
    ∀ w ∈ warningsAfter settings registry source k, ∃ j text l, j < k ∧
      (readSource source)[j]? = some (text, .ok l) ∧ w.line = j + 1 ∧ IsOpen l := by
  induction k with
  | zero => simp [warningsAfter, Emission.run, Emission.start]
  | succ k ih =>
    obtain ⟨text, l, hl⟩ := h.line_ok (show k < (readSource source).length by omega)
    obtain ⟨ws, hws, hlines⟩ := h.warningsAfter_succ hp hl
    rw [hws]
    intro w hw
    rcases List.mem_append.1 hw with hw | hw
    · obtain ⟨j, text, l, hj, hl, hline⟩ := ih (by omega) w hw
      exact ⟨j, text, l, by omega, hl, hline⟩
    · exact ⟨k, text, l, Nat.lt_succ_self k, hl, hlines w hw⟩

/-- The warnings about a line are those that it adds. -/
theorem warningsAfter_filter {k n : Nat} {ws : List Warning} (hkn : k < n) (hn : n ≤ (readSource source).length)
    (hws : warningsAfter settings registry source (k + 1) = warningsAfter settings registry source k ++ ws) :
    (warningsAfter settings registry source n).filter (·.line = k + 1) = ws := by
  induction n, hkn using Nat.le_induction with
  | base =>
    obtain ⟨text, l, hl⟩ := h.line_ok (show k < (readSource source).length by omega)
    obtain ⟨ws', hws', hlines⟩ := h.warningsAfter_succ hp hl
    obtain rfl : ws = ws' := List.append_cancel_left (hws.symm.trans hws')
    rw [hws, List.filter_append]
    have hbefore : (warningsAfter settings registry source k).filter (·.line = k + 1) = [] := by
      refine List.filter_eq_nil_iff.2 fun w hw => ?_
      obtain ⟨j, -, -, hj, -, hline, -⟩ := h.warningsAfter_line hp (by omega) w hw
      simp
      omega
    have hown : ws.filter (·.line = k + 1) = ws :=
      List.filter_eq_self.2 fun w hw => by simp [(hlines w hw).1]
    rw [hbefore, hown, List.nil_append]
  | succ n hkn ih =>
    obtain ⟨text, l, hl⟩ := h.line_ok (show n < (readSource source).length by omega)
    obtain ⟨ws', hws', hlines⟩ := h.warningsAfter_succ hp hl
    have hafter : ws'.filter (·.line = k + 1) = [] := by
      refine List.filter_eq_nil_iff.2 fun w hw => ?_
      have := (hlines w hw).1
      simp
      omega
    rw [hws', List.filter_append, hafter, List.append_nil]
    exact ih (by omega)

end Accepted

/-- The symbols that the first pass knows when it comes to the statement of a line. -/
def knownAt (settings : Settings) (registry : Macro.Registry) (source : String) (k : Nat) (l : Line) : SymbolTable :=
  ((Layout.pass registry settings.maxDepth ((parsed source).take k)).1.labelled l).symbols

/-- How a direct operand of an accepted source comes out, and what warning it leaves. -/
theorem Accepted.direct_operand (h : Accepted settings registry source) {k : Nat} {text : List Char} {l : Line}
    {mnemonic : String} {index : Option Index} {forced : Bool} {operand : Option Expr}
    (hl : (readSource source)[k]? = some (text, .ok l))
    (hst : l.statement = some (.instruction mnemonic (.direct index forced) operand))
    (hb : Opcode.isBranch mnemonic = false) :
    let symbols := (Layout.run registry settings.maxDepth (parsed source)).1.symbols
    let address := UInt16.ofNat (secondCursor settings registry source k)
    let known := knownAt settings registry source k l
    ∃ (e : Expr) (v : UInt16) (o : Opcode) (listed : ListingLine),
      operand = some e ∧ e.eval symbols address = .ok v.toNat ∧
      (Emission.run (environment settings registry source) (planned settings registry source)).2.lines[k]? =
        some listed ∧
      o.encode (some (v.toNat : Int)) address = .ok listed.bytes ∧
      Opcode.DirectRow mnemonic index forced (e.isByteSelect ∨ v ≤ 0xFF ∧ e.Known known) o ∧
      (0x100 ≤ v → listed.bytes.length = 3) ∧
      warningsAfter settings registry source (k + 1) = warningsAfter settings registry source k ++
        if forced = false ∧ ¬ e.Known known ∧ v ≤ 0xFF ∧
            Opcode.find? mnemonic (Opcode.absoluteMode index) = some o ∧
            (Opcode.find? mnemonic (Opcode.zeroPageMode index)).isSome then
          [⟨l.number, v.toUInt8, o.mnemonic⟩]
        else [] := by
  intro symbols address known
  have hk : k < (readSource source).length := (List.getElem?_eq_some_iff.1 hl).1
  have he := h.pass_errors (k + 1)
  have he' := h.run_errors (k + 1)
  rw [pass_take_succ hl] at he
  rw [run_take_succ hl] at he'
  obtain ⟨o, v, hselect, hv, hbs, hwarnings⟩ := line_instruction h.failed he he' hst
  have hselect := Opcode.select_direct hb hselect
  obtain ⟨w, rfl, hlong⟩ := (Opcode.selectDirect_row hselect Iff.rfl).encode_value hbs
  cases hv with
  | @some e _ hv =>
    -- both passes see the operand at the same address
    have haddress : ((Layout.pass registry settings.maxDepth ((parsed source).take k)).1.labelled l).address =
        address := by
      rw [Layout.address, Layout.labelled_cursor]
      exact congrArg UInt16.ofNat (cursors_agree h (Nat.le_of_lt hk))
    have hknown : known.Extends symbols := by
      have hrun := (pass_extends_run settings registry source (k + 1)).symbols
      rw [pass_take_succ hl] at hrun
      exact (Layout.labelled_extends registry _ _ _ l).symbols.trans hrun
    have hv' : e.eval symbols
        ((Layout.pass registry settings.maxDepth ((parsed source).take k)).1.labelled l).address = .ok w.toNat := by
      rw [haddress]
      exact hv
    obtain ⟨hforward, hnarrow⟩ := Layout.operandValue_some hknown hv'
    have hrow := Opcode.selectDirect_row hselect hnarrow
    refine ⟨e, w, o, _, rfl, hv, h.listing_line hl, hbs, hrow, hlong, ?_⟩
    unfold warningsAfter
    rw [run_take_succ hl]
    dsimp only
    rw [hwarnings, Array.toList_append, Emission.warning?_direct hrow]
    change _ ↔ ¬ e.Known known at hforward
    simp only [hforward]
    split
    · rfl
    · rfl

end Source

/-- In a source that assembles, a direct operand of an instruction that is no branch takes the absolute form if
it has the suffix. Without it, where both forms exist, it takes the zero page form if it is one byte of a value
or if it is in zero page and its symbols were known when the first pass came to it, and the absolute form
otherwise; a form that exists alone is taken. The line has one warning if the symbols were not known, the value
is in zero page and the absolute form was taken over the other one, and none otherwise. There are no other
warnings. -/
theorem direct_operands_exact (source : String) (out : Output) (h : assemble source = .ok out) :
    (∀ (k : Nat) (text : List Char) (l : Line) (mnemonic : String) (index : Option Index) (forced : Bool)
      (operand : Option Expr), (readSource source)[k]? = some (text, .ok l) →
      l.statement = some (.instruction mnemonic (.direct index forced) operand) → Opcode.isBranch mnemonic = false →
      let address := UInt16.ofNat (secondCursor {} .builtin source k)
      let known := knownAt {} .builtin source k l
      ∃ (e : Expr) (v : UInt16) (o : Opcode) (listed : ListingLine),
        operand = some e ∧ e.eval out.symbols address = .ok v.toNat ∧ out.listing.lines[k]? = some listed ∧
        o.encode (some (v.toNat : Int)) address = .ok listed.bytes ∧
        Opcode.DirectRow mnemonic index forced (e.isByteSelect ∨ v ≤ 0xFF ∧ e.Known known) o ∧
        (0x100 ≤ v → listed.bytes.length = 3) ∧
        out.warnings.filter (·.line = l.number) =
          if forced = false ∧ ¬ e.Known known ∧ v ≤ 0xFF ∧
              Opcode.find? mnemonic (Opcode.absoluteMode index) = some o ∧
              (Opcode.find? mnemonic (Opcode.zeroPageMode index)).isSome then
            [⟨l.number, v.toUInt8, o.mnemonic⟩]
          else []) ∧
    ∀ w ∈ out.warnings, ∃ (k : Nat) (text : List Char) (l : Line),
      (readSource source)[k]? = some (text, .ok l) ∧ w.line = l.number ∧ IsOpen l := by
  rw [assemble] at h
  obtain ⟨hacc, -, hsymbols, hlisting⟩ := accepted_of_ok h
  have hp := Macro.expand_builtin
  have hwarnings : out.warnings = warningsAfter {} .builtin source (readSource source).length := warnings_of_ok h
  rw [hsymbols, hlisting, hwarnings]
  constructor
  · intro k text l mnemonic index forced operand hl hst hb
    have hk : k < (readSource source).length := (List.getElem?_eq_some_iff.1 hl).1
    obtain ⟨e, v, o, listed, hoperand, hv, hlisted, hbytes, hrow, hlong, hadds⟩ := hacc.direct_operand hl hst hb
    refine ⟨e, v, o, listed, hoperand, hv, hlisted, hbytes, hrow, hlong, ?_⟩
    rw [← hacc.warningsAfter_filter hp hk (Nat.le_refl _) hadds, readSource_number hl]
  · intro w hw
    obtain ⟨k, text, l, -, hl, hline, hopen⟩ := hacc.warningsAfter_line hp (Nat.le_refl _) w hw
    exact ⟨k, text, l, hl, hline.trans (readSource_number hl).symm, hopen⟩

/-- A load before its equate is wide and has a warning, and the same load after the equate is short. -/
theorem direct_operands_exact_late :
    let source := "LDA late\nlate = $12\nLDA late"
    ∃ out, assemble source = .ok out ∧ out.warnings = [⟨1, 0x12, "LDA"⟩] ∧
      (∃ (v : UInt16) (o : Opcode) (listed : ListingLine), out.listing.lines[0]? = some listed ∧
        o.encode (some (v.toNat : Int)) 0 = .ok listed.bytes ∧ listed.bytes = [0xAD, 0x12, 0x00]) ∧
      ∃ (v : UInt16) (o : Opcode) (listed : ListingLine), out.listing.lines[2]? = some listed ∧
        o.encode (some (v.toNat : Int)) 3 = .ok listed.bytes ∧ listed.bytes = [0xA5, 0x12] := by
  intro source
  have hok : assemble source = .ok (run {} .builtin source).output := toExcept_eq_ok (by decide +kernel)
  have hbytes : (run {} .builtin source).output.listing.lines.map (·.bytes) =
      [[0xAD, 0x12, 0x00], [], [0xA5, 0x12]] := by
    decide +kernel
  have hfirst : secondCursor {} .builtin source 0 = 0 := by decide +kernel
  have hlast : secondCursor {} .builtin source 2 = 3 := by decide +kernel
  have hdirect := (direct_operands_exact source _ hok).1
  refine ⟨_, hok, by decide +kernel, ?_, ?_⟩
  · obtain ⟨e, v, o, listed, -, -, hlisted, hencode, -⟩ := hdirect 0 "LDA late".toList
      ⟨1, none, some (.instruction "LDA" (.direct none false) (some (.symbol "late"))), 0⟩ "LDA" none false _
      (by decide +kernel) rfl (by decide +kernel)
    have hlist := congrArg (·[0]?) hbytes
    simp only [List.getElem?_map, hlisted] at hlist
    rw [hfirst] at hencode
    exact ⟨v, o, listed, hlisted, hencode, Option.some.inj hlist⟩
  · obtain ⟨e, v, o, listed, -, -, hlisted, hencode, -⟩ := hdirect 2 "LDA late".toList
      ⟨3, none, some (.instruction "LDA" (.direct none false) (some (.symbol "late"))), 0⟩ "LDA" none false _
      (by decide +kernel) rfl (by decide +kernel)
    have hlist := congrArg (·[2]?) hbytes
    simp only [List.getElem?_map, hlisted] at hlist
    rw [hlast] at hencode
    exact ⟨v, o, listed, hlisted, hencode, Option.some.inj hlist⟩

end Assembly

end Mos6502
