import Mos6502.Proofs.Grammar

/-!
# Values fit in 32 bits

Every number, symbol and address is at most 65535, and each negation, sum or
difference in an expression adds up the bounds of its parts. So the value of an
expression that was read from tokens is bounded by the number of terms among
them, and with up to 32768 terms it can be computed in words of 32 bits without
an overflow.

Main statement: `Expr.values_in_range`.
-/
namespace Mos6502

/-- The lexeme is a term by itself. -/
def Lexeme.isTerm : Lexeme → Bool
  | hex _ | decimal _ | binary _ | character _ | identifier _ | star => true
  | _ => false

theorem Lexeme.ne_blank_of_isTerm {x : Lexeme} (h : x.isTerm = true) : x ≠ .blank := by
  rintro rfl
  cases h

/-- The number of tokens that are terms by themselves. -/
def Token.terms (ts : List Token) : Nat :=
  ts.countP (·.lexeme.isTerm)

namespace Expr

/-! ## Evaluation in words -/

/-- Why an evaluation in words of 32 bits stops. -/
inductive WordFault
  | undefined (u : Undefined)
  /-- A negation, sum or difference does not fit. -/
  | overflow
deriving DecidableEq

/-- The value is one of a word of 32 bits. -/
def Fits (v : Int) : Prop :=
  -0x80000000 ≤ v ∧ v ≤ 0x7FFFFFFF

instance (v : Int) : Decidable (Fits v) :=
  inferInstanceAs (Decidable (_ ∧ _))

/-- The word that an operation gives, as long as its exact value fits. -/
def checked (exact : Int) (word : Int32) : Except WordFault Int32 :=
  if Fits exact then .ok word else .error .overflow

/-- The value in words of 32 bits. -/
def evalWord (symbols : SymbolTable) (address : UInt16) : Expr → Except WordFault Int32
  | number n => .ok (Int32.ofInt n)
  | symbol name =>
    match symbols.address? name with
    | some a => .ok (Int32.ofInt a.toNat)
    | none => .error (.undefined ⟨name⟩)
  | here => .ok (Int32.ofInt address.toNat)
  | neg e => do
    let v ← e.evalWord symbols address
    checked (-v.toInt) (-v)
  | add l r => do
    let v ← l.evalWord symbols address
    let w ← r.evalWord symbols address
    checked (v.toInt + w.toInt) (v + w)
  | sub l r => do
    let v ← l.evalWord symbols address
    let w ← r.evalWord symbols address
    checked (v.toInt - w.toInt) (v - w)
  | low e => do
    let v ← e.evalWord symbols address
    .ok (v &&& 0xFF)
  | high e => do
    let v ← e.evalWord symbols address
    .ok ((v >>> 8) &&& 0xFF)

theorem toInt_ofInt {n : Int} (h : Fits n) : (Int32.ofInt n).toInt = n :=
  Int32.toInt_ofInt_of_le h.1 (by have := h.2; omega)

theorem fits_word (w : UInt16) : Fits w.toNat := by
  have := w.toNat_lt
  simp only [Fits]
  omega

theorem bmod_fits {n : Int} (h : Fits n) : n.bmod 4294967296 = n := by
  simp only [Fits] at h
  exact Int.bmod_eq_of_le (by omega) (by omega)

theorem toInt_low (v : Int32) : (v &&& 0xFF).toInt = v.toInt % 256 := by
  have hnat : (v &&& 0xFF).toBitVec.toNat = v.toBitVec.toNat % 256 := Nat.and_two_pow_sub_one_eq_mod _ 8
  have hlt := v.toBitVec.isLt
  rw [← Int32.toInt_toBitVec, ← Int32.toInt_toBitVec, BitVec.toInt_eq_toNat_cond, BitVec.toInt_eq_toNat_cond, hnat]
  omega

theorem toInt_shift (v : Int32) : (v >>> 8).toInt = v.toInt / 256 := by
  have hamount : ((8 : Int32).toBitVec.smod 32).toNat = 8 := by decide
  rw [← Int32.toInt_toBitVec, Int32.toBitVec_shiftRight, BitVec.sshiftRight', hamount, BitVec.toInt_sshiftRight,
    Int32.toInt_toBitVec, Int.shiftRight_eq_div_pow]
  rfl

/-! ## Parts of an expression -/

/-- The expression and all that it is built from. -/
def parts : Expr → List Expr
  | number n => [number n]
  | symbol name => [symbol name]
  | here => [here]
  | neg e => neg e :: e.parts
  | add l r => add l r :: (l.parts ++ r.parts)
  | sub l r => sub l r :: (l.parts ++ r.parts)
  | low e => low e :: e.parts
  | high e => high e :: e.parts

/-- How many numbers, symbols and addresses stand in the expression. -/
def leaves : Expr → Nat
  | number _ | symbol _ | here => 1
  | neg e | low e | high e => e.leaves
  | add l r | sub l r => l.leaves + r.leaves

theorem leaves_pos (e : Expr) : 0 < e.leaves := by
  induction e with
  | number | symbol | here => exact Nat.one_pos
  | neg _ ih | low _ ih | high _ ih => exact ih
  | add _ _ ihl _ | sub _ _ ihl _ => exact Nat.add_pos_left ihl _

theorem self_mem_parts (e : Expr) : e ∈ e.parts := by
  cases e <;> simp [parts]

theorem leaves_le {e part : Expr} (h : part ∈ e.parts) : part.leaves ≤ e.leaves ∧ part.parts ⊆ e.parts := by
  induction e with
  | number | symbol | here =>
    rw [List.mem_singleton.1 h]
    exact ⟨Nat.le_refl _, List.Subset.refl _⟩
  | neg e ih | low e ih | high e ih =>
    rcases List.mem_cons.1 h with rfl | h
    · exact ⟨Nat.le_refl _, List.Subset.refl _⟩
    · exact ⟨(ih h).1, List.Subset.trans (ih h).2 (List.subset_cons_self _ _)⟩
  | add l r ihl ihr | sub l r ihl ihr =>
    rcases List.mem_cons.1 h with rfl | h
    · exact ⟨Nat.le_refl _, List.Subset.refl _⟩
    · refine (List.mem_append.1 h).elim (fun h => ?_) fun h => ?_
      · refine ⟨Nat.le_add_right_of_le (ihl h).1, List.Subset.trans (ihl h).2 ?_⟩
        exact List.subset_cons_of_subset _ (List.subset_append_left _ _)
      · refine ⟨Nat.le_add_left_of_le (ihr h).1, List.Subset.trans (ihr h).2 ?_⟩
        exact List.subset_cons_of_subset _ (List.subset_append_right _ _)

/-! ## Bounds -/

/-- The numbers of the expression are words of 16 bits. -/
def Small (e : Expr) : Prop :=
  ∀ n, number n ∈ e.parts → 0 ≤ n ∧ n ≤ 65535

/-- The value is within the bound that a number of terms gives. -/
def Within (v : Int) (terms : Nat) : Prop :=
  -65535 * (terms : Int) ≤ v ∧ v ≤ 65535 * (terms : Int)

theorem Within.mono {v : Int} {m n : Nat} (h : Within v m) (hmn : m ≤ n) : Within v n := by
  simp only [Within] at h ⊢
  omega

theorem within_byte {v : Int} (h : 0 ≤ v ∧ v < 256) {n : Nat} (hn : 0 < n) : Within v n := by
  simp only [Within]
  omega

theorem within_word (w : UInt16) : Within w.toNat 1 := by
  have := w.toNat_lt
  simp only [Within]
  omega

section Evaluation
variable {symbols : SymbolTable} {address : UInt16}

/-- A value is within the bound that the leaves of its expression give. -/
theorem eval_within {e : Expr} (hsmall : e.Small) {v : Int} (h : e.eval symbols address = .ok v) :
    Within v e.leaves := by
  induction e generalizing v with
  | number n =>
    cases h
    have := hsmall n (by simp [parts])
    simp only [Within, leaves]
    omega
  | symbol name =>
    simp only [eval] at h
    split at h
    · cases h
      exact within_word _
    · cases h
  | here =>
    cases h
    exact within_word address
  | neg e ih =>
    obtain ⟨w, hw, hv⟩ := bind_eq_ok.1 h
    cases hv
    have := ih (fun n hn => hsmall n (by simp [parts, hn])) hw
    simp only [Within, leaves] at this ⊢
    omega
  | add l r ihl ihr | sub l r ihl ihr =>
    obtain ⟨w, hw, h⟩ := bind_eq_ok.1 h
    obtain ⟨u, hu, hv⟩ := bind_eq_ok.1 h
    cases hv
    have hl := ihl (fun n hn => hsmall n (by simp [parts, hn])) hw
    have hr := ihr (fun n hn => hsmall n (by simp [parts, hn])) hu
    simp only [Within, leaves] at hl hr ⊢
    omega
  | low e _ | high e _ =>
    -- a byte is within the bound of a single term, whatever it was selected from
    obtain ⟨w, hw, hv⟩ := bind_eq_ok.1 h
    cases hv
    exact within_byte (by omega) e.leaves_pos

theorem part_within {e part : Expr} (hsmall : e.Small) (hpart : part ∈ e.parts) {v : Int}
    (h : part.eval symbols address = .ok v) : Within v e.leaves := by
  obtain ⟨hleaves, hparts⟩ := leaves_le hpart
  exact (eval_within (fun n hn => hsmall n (hparts hn)) h).mono hleaves

/-- The evaluation in words gives the same value, or the same symbol is missing. -/
def Faithful (word : Except WordFault Int32) (exact : Except Undefined Int) : Prop :=
  word.map Int32.toInt = exact.mapError .undefined

theorem Faithful.bind {word : Except WordFault Int32} {exact : Except Undefined Int} (h : Faithful word exact)
    {f : Int32 → Except WordFault Int32} {g : Int → Except Undefined Int}
    (hfg : ∀ v, exact = .ok v.toInt → Faithful (f v) (g v.toInt)) : Faithful (word >>= f) (exact >>= g) := by
  cases word with
  | error fault =>
    cases exact with
    | error u =>
      cases h
      rfl
    | ok n => cases h
  | ok v =>
    cases exact with
    | error u => cases h
    | ok n =>
      cases h
      exact hfg v rfl

theorem faithful_ok {n : Int} {word : Int32} (h : word.toInt = n) : Faithful (.ok word) (.ok n) :=
  congrArg Except.ok h

/-- An operation on words is exact where its value fits. -/
theorem faithful_checked {n : Int} {word : Int32} (hfits : Fits n) (hword : word.toInt = n.bmod 4294967296) :
    Faithful (checked n word) (.ok n) := by
  rw [checked, if_pos hfits]
  exact faithful_ok (hword.trans (bmod_fits hfits))

theorem Faithful.join {wl wr : Except WordFault Int32} {l r : Except Undefined Int} (op : Int → Int → Int)
    (wordOp : Int32 → Int32 → Int32) (hl : Faithful wl l) (hr : Faithful wr r)
    (hop : ∀ v w, (wordOp v w).toInt = (op v.toInt w.toInt).bmod 4294967296)
    (hfits : ∀ v w, l = .ok v → r = .ok w → Fits (op v w)) :
    Faithful (wl >>= fun v => wr >>= fun w => checked (op v.toInt w.toInt) (wordOp v w))
      (l >>= fun v => r >>= fun w => .ok (op v w)) :=
  hl.bind fun v hv => hr.bind fun w hw => faithful_checked (hfits _ _ hv hw) (hop v w)

theorem faithful_evalWord {e : Expr} (h : ∀ part ∈ e.parts, ∀ v, part.eval symbols address = .ok v → Fits v) :
    Faithful (e.evalWord symbols address) (e.eval symbols address) := by
  induction e with
  | number n => exact faithful_ok (toInt_ofInt (h _ (self_mem_parts _) n rfl))
  | symbol name =>
    simp only [evalWord, eval]
    cases symbols.address? name with
    | none => rfl
    | some a => exact faithful_ok (toInt_ofInt (fits_word a))
  | here => exact faithful_ok (toInt_ofInt (fits_word address))
  | neg e ih =>
    refine (ih fun part hpart => h part (by simp [parts, hpart])).bind fun v hv => ?_
    refine faithful_checked (h _ (self_mem_parts _) _ ?_) (Int32.toInt_neg v)
    rw [eval, hv]
    rfl
  | add l r ihl ihr =>
    refine .join (· + ·) (· + ·) (ihl fun part hpart => h part (by simp [parts, hpart]))
      (ihr fun part hpart => h part (by simp [parts, hpart])) Int32.toInt_add fun v w hv hw => ?_
    refine h _ (self_mem_parts _) _ ?_
    rw [eval, hv, hw]
    rfl
  | sub l r ihl ihr =>
    refine .join (· - ·) (· - ·) (ihl fun part hpart => h part (by simp [parts, hpart]))
      (ihr fun part hpart => h part (by simp [parts, hpart])) Int32.toInt_sub fun v w hv hw => ?_
    refine h _ (self_mem_parts _) _ ?_
    rw [eval, hv, hw]
    rfl
  | low e ih =>
    refine (ih fun part hpart => h part (by simp [parts, hpart])).bind fun v _ => ?_
    exact faithful_ok (toInt_low v)
  | high e ih =>
    refine (ih fun part hpart => h part (by simp [parts, hpart])).bind fun v _ => ?_
    exact faithful_ok ((toInt_low _).trans (by rw [toInt_shift]))

end Evaluation

/-! ## Terms that were read -/

/-- The lexemes have one term for each leaf, and the numbers among them are small. -/
structure Counts (xs : List Lexeme) (e : Expr) : Prop where
  leaves : e.leaves = xs.countP (·.isTerm)
  small : e.Small

theorem counts_number {x : Lexeme} (hx : x.isTerm = true) {n : Nat} (hn : n ≤ 65535) : Counts [x] (.number n) := by
  refine ⟨by simp [hx, Expr.leaves], fun m hm => ?_⟩
  cases List.mem_singleton.1 hm
  omega

theorem Small.join {e l r : Expr} (hl : l.Small) (hr : r.Small) (he : ∀ n, e ≠ .number n)
    (hparts : e.parts = e :: (l.parts ++ r.parts)) : e.Small := by
  intro n hn
  rw [hparts, List.mem_cons, List.mem_append] at hn
  exact (hn.resolve_left fun h => he n h.symm).elim (hl n) (hr n)

theorem Small.wrap {e inner : Expr} (h : inner.Small) (he : ∀ n, e ≠ .number n) (hparts : e.parts = e :: inner.parts) :
    e.Small := by
  intro n hn
  rw [hparts, List.mem_cons] at hn
  exact h n (hn.resolve_left fun h => he n h.symm)

theorem IsTerm.counts {xs : List Lexeme} {e : Expr} (h : IsTerm xs e) : Counts xs e := by
  induction h with
  | hex n | decimal n | binary n => exact counts_number rfl (Nat.le_of_lt_succ n.toNat_lt)
  | character b => exact counts_number rfl (by have := b.toNat_lt; omega)
  | symbol name => exact ⟨rfl, by simp [Small, parts]⟩
  | here => exact ⟨rfl, by simp [Small, parts]⟩
  | neg _ ih =>
    refine ⟨?_, ih.small.wrap (by simp) rfl⟩
    rw [List.countP_cons_of_neg (by decide)]
    exact ih.leaves

theorem IsSum.counts {xs : List Lexeme} {e : Expr} (h : IsSum xs e) : Counts xs e := by
  induction h with
  | term hterm => exact hterm.counts
  | add _ hr ih | sub _ hr ih =>
    refine ⟨?_, ih.small.join hr.counts.small (by simp) rfl⟩
    rw [List.countP_append, List.countP_cons_of_neg (by decide), ← ih.leaves, ← hr.counts.leaves]
    rfl

theorem Written.counts {xs : List Lexeme} {e : Expr} (h : Written xs e) : Counts xs e := by
  cases h with
  | sum hsum => exact hsum.counts
  | low hsum | high hsum =>
    refine ⟨?_, hsum.counts.small.wrap (by simp) rfl⟩
    rw [List.countP_cons_of_neg (by decide)]
    exact hsum.counts.leaves

/-- An expression that was read has one leaf for each term among the tokens it was read from. -/
theorem read_counts {ts rest : List Token} {e : Expr} (h : read ts = .ok (e, rest)) :
    ∃ row, ts = row ++ rest ∧ e.leaves = Token.terms row ∧ e.Small := by
  obtain ⟨xs, ⟨row, hrow, -, hxs⟩, hwritten⟩ := read_written h
  refine ⟨row, hrow, ?_, hwritten.counts.small⟩
  rw [hwritten.counts.leaves, ← hxs, List.countP_filter, Token.terms, List.countP_map]
  refine List.countP_congr fun t _ => ?_
  simp only [Function.comp_apply, Bool.and_eq_true, decide_eq_true_eq, and_iff_left_iff_imp]
  exact Lexeme.ne_blank_of_isTerm

/-- The value of each part of an expression that was read is within the bound that the terms among the tokens of the
expression give. With up to 32768 terms the evaluation in words of 32 bits meets no overflow and gives the same value,
unless a symbol is missing. -/
theorem values_in_range {ts rest : List Token} {e : Expr} (h : read ts = .ok (e, rest)) (symbols : SymbolTable)
    (address : UInt16) :
    ∃ row, ts = row ++ rest ∧ Token.terms row ≤ Token.terms ts ∧
      (∀ part ∈ e.parts, ∀ v, part.eval symbols address = .ok v →
        -65535 * (Token.terms row : Int) ≤ v ∧ v ≤ 65535 * (Token.terms row : Int)) ∧
      (Token.terms row ≤ 32768 →
        (e.evalWord symbols address).map Int32.toInt = (e.eval symbols address).mapError .undefined) := by
  obtain ⟨row, rfl, hleaves, hsmall⟩ := read_counts h
  have hwithin (part : Expr) (hpart : part ∈ e.parts) (v : Int) (hv : part.eval symbols address = .ok v) :
      Within v (Token.terms row) := hleaves ▸ part_within hsmall hpart hv
  refine ⟨row, rfl, ?_, hwithin, fun hterms => faithful_evalWord fun part hpart v hv => ?_⟩
  · rw [Token.terms, Token.terms, List.countP_append]
    exact Nat.le_add_right _ _
  · have := hwithin part hpart v hv
    simp only [Within, Fits] at this ⊢
    omega

/-- The high byte of the least value that two terms can have. -/
theorem values_in_range_negative :
    let tokens : List Token := [⟨.greater, 1, 0, 1⟩, ⟨.minus, 1, 1, 1⟩, ⟨.hex 0xFFFF, 1, 2, 5⟩, ⟨.minus, 1, 7, 1⟩,
      ⟨.identifier "top", 1, 8, 3⟩, ⟨.endOfText, 1, 11, 0⟩]
    let table : SymbolTable := ⟨[⟨"top", 0xFFFF, 1⟩], List.pairwise_singleton _ _⟩
    let sum := Expr.sub (.neg (.number 0xFFFF)) (.symbol "top")
    read tokens = .ok (.high sum, [⟨.endOfText, 1, 11, 0⟩]) ∧ sum.eval table 0 = .ok (-131070) ∧
      -65535 * 2 ≤ (-131070 : Int) ∧ (evalWord table 0 (.high sum)).map Int32.toInt = .ok 0 := by
  intro tokens table sum
  have hread : read tokens = .ok (.high sum, [⟨.endOfText, 1, 11, 0⟩]) := by decide +kernel
  have hsum : sum.eval table 0 = .ok (-131070) := by decide +kernel
  have hhigh : (Expr.high sum).eval table 0 = .ok 0 := by decide +kernel
  obtain ⟨row, hrow, -, hrange, hword⟩ := values_in_range hread table 0
  have hterms : Token.terms row = 2 := by
    have hcut : tokens = tokens.take 5 ++ [⟨.endOfText, 1, 11, 0⟩] := rfl
    rw [List.append_cancel_right (hrow.symm.trans hcut)]
    rfl
  rw [hterms, hhigh] at hword
  have hbound := (hrange sum (by simp [parts, self_mem_parts]) _ hsum).1
  rw [hterms] at hbound
  exact ⟨hread, hsum, hbound, hword (by decide)⟩

end Expr

end Mos6502
