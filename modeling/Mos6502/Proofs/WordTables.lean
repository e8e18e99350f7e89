import Mos6502.Proofs.BuiltinMacros
import Mos6502.Proofs.Passes

/-!
# Words in tables and in lists of data

A list of words checks that every value has room in sixteen bits. The tables of
words take labels and numbers of any size, and keep the low sixteen bits of
each. So a table and a list of the same values have the same bytes if every
value has room. Where one has not, the list is refused and the table is made
all the same.

Main statement: `tables_cut_values`.
-/
namespace Mos6502

/-! ## Words -/

namespace Encoding

/-- The value has room in a word of data. -/
def FitsWord (v : Int) : Prop :=
  -32768 ≤ v ∧ v ≤ 65535

instance (v : Int) : Decidable (FitsWord v) :=
  inferInstanceAs (Decidable (_ ∧ _))

/-- The bytes of a list of words. -/
def words (values : List Int) : Except EncodeError (List UInt8) :=
  (values.mapM word).map List.flatten

/-- The bytes of the values with each of them cut to sixteen bits. -/
def cutWords (values : List Int) : List UInt8 :=
  values.flatMap fun v => littleEndian (UInt16.ofInt v)

theorem word_of_fits {v : Int} (h : FitsWord v) : word v = .ok (littleEndian (UInt16.ofInt v)) := by
  rw [word, check_of h.1 h.2]
  rfl

theorem word_of_not_fits {v : Int} (h : ¬ FitsWord v) : word v = .error (.range v .word) := by
  have hcheck : check .word v = .error (.range v .word) := if_neg h
  rw [word, hcheck]
  rfl

theorem words_of_fits {values : List Int} (h : ∀ v ∈ values, FitsWord v) : words values = .ok (cutWords values) := by
  have hparts : values.mapM word = .ok (values.map fun v => littleEndian (UInt16.ofInt v)) := by
    induction values with
    | nil => rfl
    | cons v values ih =>
      rw [List.forall_mem_cons] at h
      exact mapM_cons_eq_ok.2 ⟨_, _, word_of_fits h.1, ih h.2, rfl⟩
  rw [words, hparts, cutWords, List.flatMap_def]
  rfl

/-- A list is refused for a value without room. -/
theorem words_of_not_fits {values : List Int} (h : ∃ v ∈ values, ¬ FitsWord v) :
    ∃ v ∈ values, ¬ FitsWord v ∧ words values = .error (.range v .word) := by
  induction values with
  | nil => simp at h
  | cons v values ih =>
    by_cases hv : FitsWord v
    · -- the first value is taken, so the refusal comes from a later one
      obtain ⟨w, hw, hwide, hrest⟩ := ih (by simpa [hv] using h)
      refine ⟨w, List.mem_cons_of_mem v hw, hwide, ?_⟩
      unfold words at hrest ⊢
      rw [List.mapM_cons, word_of_fits hv]
      cases hparts : values.mapM word with
      | ok parts =>
        rw [hparts] at hrest
        cases hrest
      | error e =>
        rw [hparts] at hrest
        exact hrest
    · refine ⟨v, List.mem_cons_self, hv, ?_⟩
      rw [words, List.mapM_cons, word_of_not_fits hv]
      rfl

theorem words_eq_cutWords_iff {values : List Int} :
    words values = .ok (cutWords values) ↔ ∀ v ∈ values, FitsWord v := by
  refine ⟨fun h => ?_, words_of_fits⟩
  by_contra hwide
  push Not at hwide
  obtain ⟨v, -, -, hrefused⟩ := words_of_not_fits hwide
  cases h.symm.trans hrefused

theorem toNat_cut (v : Int) : ((UInt16.ofInt v).toNat : Int) = v % 65536 := by
  have h : (v % 65536).toNat % 65536 = (v % 65536).toNat := by omega
  simp [UInt16.ofInt, h]
  omega

/-- One more than the word of the value before is the word of the value. -/
theorem toNat_cut_pred (v : Int) : ((UInt16.ofInt (v - 1) + 1).toNat : Int) = v % 65536 := by
  have hsucc : UInt16.ofInt (v - 1) + 1 = UInt16.ofInt v := by
    rw [show (1 : UInt16) = UInt16.ofInt 1 from rfl, ← UInt16.ofInt_add, Int.sub_add_cancel]
  rw [hsucc, toNat_cut]

end Encoding

/-! ## A list of words in the second pass -/

namespace Assembly.Emission

open Encoding

/-- The words of a line that has not failed are written without a report if and only if they have room. -/
theorem collect_words_iff {env : Setting} {l : Line} {s : Emission} (hf : l.number ∉ env.failed) {items : List Expr}
    {values : List Int} (h : List.Forall₂ (fun e v => e.eval env.symbols s.address = .ok v) items values) :
    s.collect (word env l) items = (s, cutWords values) ↔ ∀ v ∈ values, FitsWord v := by
  induction h with
  | nil => exact ⟨fun _ => List.forall_mem_nil _, fun _ => rfl⟩
  | @cons e v items values hv _ ih =>
    have hvalue : s.value env l e = (s, some v) := by simp only [value, hv]
    rw [collect_cons, List.forall_mem_cons, ← ih]
    by_cases hfits : FitsWord v
    · have hword : s.word env l e = (s, littleEndian (UInt16.ofInt v)) := by
        simp only [word, datum, hvalue, Option.getD_some, word_of_fits hfits]
      simp [hword, hfits, cutWords, Prod.ext_iff]
    · -- the value is reported, and the report stays
      have hword : (s.word env l e).1 = s.report env l.number l.column (.encoding (.range v .word)) := by
        simp only [word, datum, hvalue, Option.getD_some, word_of_not_fits hfits]
      simp only [hfits, false_and, iff_false]
      intro heq
      have hgrows := (collect_reports env _ (word_reports env l) (s.word env l e).1 items).grows
      rw [(Prod.mk.inj heq).1, hword] at hgrows
      have hlength := hgrows.length_le
      simp only [report, List.contains_eq_mem, hf, decide_false, Bool.false_eq_true, if_false, Array.toList_push,
        List.length_append, List.length_singleton] at hlength
      omega

end Assembly.Emission

/-! ## Tables -/

namespace Macro.Builtin

open Encoding

/-- The value of a table's argument: the address of the symbol, or else the number. -/
def value? (symbols : SymbolTable) (argument : String) : Option Int :=
  match symbols.address? argument with
  | some a => some a.toNat
  | none => number? argument

theorem address_second {argument : String} {context : Context} {v : Int} :
    address argument context .second = .ok v ↔ value? context.symbols argument = some v := by
  unfold address value?
  cases context.symbols.address? argument with
  | some a => simp
  | none => cases number? argument <;> simp

/-- The arguments have values, and these are the values. -/
def HaveValues (symbols : SymbolTable) (args : List String) (values : List Int) : Prop :=
  List.Forall₂ (fun argument v => value? symbols argument = some v) args values

theorem mapM_address {args : List String} {context : Context} {values : List Int} :
    args.mapM (address · context .second) = .ok values ↔ HaveValues context.symbols args values := by
  induction args generalizing values with
  | nil =>
    constructor
    · intro h
      obtain rfl := Except.ok.inj h
      exact .nil
    · rintro (_ | _)
      rfl
  | cons argument args ih =>
    rw [mapM_cons_eq_ok]
    unfold HaveValues at ih ⊢
    constructor
    · rintro ⟨v, rest, hv, hrest, rfl⟩
      exact .cons (address_second.1 hv) (ih.1 hrest)
    · rintro (_ | ⟨hv, hrest⟩)
      exact ⟨_, _, address_second.2 hv, ih.2 hrest, rfl⟩

/-- A table of the second pass has an entry for each argument, and is made only if all of them have values. -/
theorem addressTable_second {name : String} {entry : Int → List UInt8} {args : List String} {context : Context}
    {output : Output} :
    addressTable name entry args context .second = .ok output ↔
      args ≠ [] ∧ ∃ values, HaveValues context.symbols args values ∧ output = .bytes (values.flatMap entry) := by
  cases args with
  | nil => simp [addressTable, first, bind, Except.bind]
  | cons argument args =>
    rw [addressTable_cons, bind_eq_ok]
    simp only [mapM_address, Except.ok.injEq, ne_eq, reduceCtorEq, not_false_eq_true, true_and, eq_comm (b := output)]

/-- The entry of a table is its value, cut to sixteen bits. -/
theorem wordBytes_eq (v : Int) : wordBytes v = littleEndian (UInt16.ofInt v) := by
  have hword : UInt16.ofInt v = (UInt8.ofInt v).toUInt16 ||| ((UInt8.ofInt (v / 256)).toUInt16 <<< 8) := by
    apply UInt16.toNat_inj.1
    have hcut := toNat_cut v
    have hlow := toNat_ofInt_byte v
    have hhigh := toNat_ofInt_byte (v / 256)
    rw [toNat_word]
    omega
  rw [hword, littleEndian_word, wordBytes]

theorem flatMap_wordBytes (values : List Int) : values.flatMap wordBytes = cutWords values := by
  rw [cutWords, funext wordBytes_eq]

theorem flatMap_wordBytes_pred (values : List Int) :
    values.flatMap (fun v => wordBytes (v - 1)) = cutWords (values.map (· - 1)) := by
  rw [← flatMap_wordBytes, List.flatMap_map]

/-- What a list of words makes of some values, beside their words cut to sixteen bits. -/
structure Compared (values : List Int) : Prop where
  /-- The list has these bytes if and only if every value has room. -/
  data : words values = .ok (cutWords values) ↔ ∀ v ∈ values, FitsWord v
  /-- It is refused for one that has not. -/
  refused : (∃ v ∈ values, ¬ FitsWord v) → ∃ v ∈ values, ¬ FitsWord v ∧ words values = .error (.range v .word)
  /-- It is the same with expressions of these values in a line that has not failed. -/
  line (env : Assembly.Emission.Setting) (l : Line) (s : Assembly.Emission) (items : List Expr) :
    l.number ∉ env.failed → List.Forall₂ (fun e v => e.eval env.symbols s.address = .ok v) items values →
    (s.collect (Assembly.Emission.word env l) items = (s, cutWords values) ↔ ∀ v ∈ values, FitsWord v)

theorem compared (values : List Int) : Compared values where
  data := words_eq_cutWords_iff
  refused := words_of_not_fits
  line _ _ _ _ hf h := Assembly.Emission.collect_words_iff hf h

/-- A table of words is made whenever its arguments have values, with each value cut to sixteen bits, and a
jump table in the same way with the values less one. The bytes are those of a list of words if and only if
every value has room. -/
theorem tables_cut_values (args : List String) (context : Context) :
    (∀ output, wordTable args context .second = .ok output ↔ args ≠ [] ∧ ∃ values,
      HaveValues context.symbols args values ∧ output = .bytes (cutWords values)) ∧
    (∀ output, jumpTable args context .second = .ok output ↔ args ≠ [] ∧ ∃ values,
      HaveValues context.symbols args values ∧ output = .bytes (cutWords (values.map (· - 1)))) ∧
    ∀ values, HaveValues context.symbols args values →
      Compared values ∧ ∀ v ∈ values, ((UInt16.ofInt (v - 1) + 1).toNat : Int) = v % 65536 := by
  refine ⟨fun output => ?_, fun output => ?_, fun values _ => ⟨compared values, fun v _ => toNat_cut_pred v⟩⟩
  · rw [wordTable_eq, addressTable_second]
    simp only [flatMap_wordBytes]
  · rw [jumpTable_eq, addressTable_second]
    simp only [flatMap_wordBytes_pred]

/-- A label, a number beyond sixteen bits and a negative one. -/
theorem tables_cut_values_wide :
    let context : Context := ⟨0, 0x0200, ⟨[⟨"start", 0x0300, 1⟩], List.pairwise_singleton _ _⟩⟩
    HaveValues context.symbols ["start", "70000", "-2"] [0x0300, 70000, -2] ∧
      wordTable ["start", "70000", "-2"] context .second = .ok (.bytes [0x00, 0x03, 0x70, 0x11, 0xFE, 0xFF]) ∧
      jumpTable ["start", "70000", "-2"] context .second = .ok (.bytes [0xFF, 0x02, 0x6F, 0x11, 0xFD, 0xFF]) ∧
      words [0x0300, 70000, -2] ≠ .ok [0x00, 0x03, 0x70, 0x11, 0xFE, 0xFF] := by
  intro context
  have hvalues : HaveValues context.symbols ["start", "70000", "-2"] [0x0300, 70000, -2] :=
    .cons (by decide +kernel) (.cons (by decide +kernel) (.cons (by decide +kernel) .nil))
  obtain ⟨hword, hjump, hcompared⟩ := tables_cut_values ["start", "70000", "-2"] context
  refine ⟨hvalues, (hword _).2 ⟨by simp, _, hvalues, congrArg _ (by decide +kernel)⟩,
    (hjump _).2 ⟨by simp, _, hvalues, congrArg _ (by decide +kernel)⟩, fun h => ?_⟩
  have hfits := (hcompared _ hvalues).1.data.1 (h.trans (by decide +kernel)) 70000 (by simp)
  revert hfits
  decide

end Macro.Builtin

end Mos6502
