import Mathlib.Data.Nat.Digits.Defs
import Mathlib.Tactic.LinearCombination
import Mos6502.Machine.Effect
import Mos6502.Proofs.Encoding

/-!
# Numbers of many bytes

A number of many bytes is added or subtracted byte by byte, the lowest first,
and the carry goes on from byte to byte. In binary a byte is a digit in base
256. In decimal mode it is two decimal digits, so a digit in base 100.

Main statement: `Arithmetic.long_numbers_exact`.
-/
namespace Mos6502.Arithmetic

/-! ## Digits -/

/-- The base in which a byte is one digit. -/
def base (decimal : Bool) : Nat :=
  if decimal then 100 else 256

/-- The number that a byte stands for; in decimal mode each half of it is a decimal digit. -/
def digit (decimal : Bool) (b : UInt8) : Nat :=
  if decimal then 10 * (b.toNat / 16) + b.toNat % 16 else b.toNat

/-- The byte is a digit: in decimal mode neither half of it is above nine. -/
def IsDigit (decimal : Bool) (b : UInt8) : Prop :=
  decimal = true → b.toNat / 16 ≤ 9 ∧ b.toNat % 16 ≤ 9

instance (decimal : Bool) (b : UInt8) : Decidable (IsDigit decimal b) :=
  inferInstanceAs (Decidable (_ → _))

/-- The number that bytes stand for, the lowest first. -/
def number (decimal : Bool) (bs : List UInt8) : Nat :=
  Nat.ofDigits (base decimal) (bs.map (digit decimal))

theorem digit_lt {decimal : Bool} {b : UInt8} (h : IsDigit decimal b) : digit decimal b < base decimal := by
  cases decimal with
  | false => exact b.toNat_lt
  | true =>
    have := h rfl
    simp only [digit, base, if_true]
    omega

theorem number_nil (decimal : Bool) : number decimal [] = 0 :=
  rfl

theorem number_cons (decimal : Bool) (b : UInt8) (bs : List UInt8) :
    number decimal (b :: bs) = digit decimal b + base decimal * number decimal bs := by
  simp [number, Nat.ofDigits_cons]

theorem number_lt {decimal : Bool} {bs : List UInt8} (h : ∀ b ∈ bs, IsDigit decimal b) :
    number decimal bs < base decimal ^ bs.length := by
  have hbase : 1 < base decimal := by cases decimal <;> decide
  have hdigits : ∀ n ∈ bs.map (digit decimal), n < base decimal := by
    intro n hn
    obtain ⟨b, hb, rfl⟩ := List.mem_map.1 hn
    exact digit_lt (h b hb)
  simpa [number] using Nat.ofDigits_lt_base_pow_length hbase hdigits

/-! ## One byte -/

theorem carryIn_le (f : Flags) : carryIn f ≤ 1 := by
  unfold carryIn
  split <;> omega

/-- A byte with two decimal digits as its halves. -/
theorem isDigit_of_halves {b : UInt8} {h l : Nat} (hb : b.toNat = 16 * h + l) (hh : h ≤ 9) (hl : l ≤ 9) :
    IsDigit true b ∧ digit true b = 10 * h + l := by
  have hhigh : b.toNat / 16 = h := by omega
  have hlow : b.toNat % 16 = l := by omega
  refine ⟨fun _ => by omega, ?_⟩
  simp only [digit, if_true, hhigh, hlow]

/-- The correction makes a sum of two decimal digits one digit and a carry. -/
theorem adjustUp_digits {n : Nat} (h : n ≤ 19) :
    adjustUp n % 16 = n % 10 ∧ (if adjustUp n > 15 then 1 else 0) = n / 10 := by
  unfold adjustUp
  split <;> split <;> omega

theorem decimalSum_digit {a b : UInt8} {c : Nat} (ha : IsDigit true a) (hb : IsDigit true b) (hc : c ≤ 1) :
    IsDigit true (decimalSum a b c).1 ∧
      digit true (decimalSum a b c).1 + 100 * (if (decimalSum a b c).2 then 1 else 0) =
        digit true a + digit true b + c := by
  obtain ⟨hah, hal⟩ := ha rfl
  obtain ⟨hbh, hbl⟩ := hb rfl
  unfold decimalSum
  generalize hs : a.toNat % 16 + b.toNat % 16 + c = s
  obtain ⟨hlow, hcarry⟩ := adjustUp_digits (show s ≤ 19 by omega)
  simp only [hlow, hcarry, decide_eq_true_eq]
  generalize ht : a.toNat / 16 + b.toNat / 16 + s / 10 = t
  obtain ⟨hhigh, hout⟩ := adjustUp_digits (show t ≤ 19 by omega)
  have hbyte : (UInt8.ofNat (adjustUp t * 16 + s % 10)).toNat = 16 * (t % 10) + s % 10 := by
    rw [UInt8.toNat_ofNat', ← hhigh]
    omega
  obtain ⟨hdigit, hvalue⟩ := isDigit_of_halves hbyte (by omega) (by omega)
  refine ⟨hdigit, ?_⟩
  rw [hvalue, hout]
  simp only [digit, if_true]
  omega

/-- The correction makes a difference of two decimal digits one digit. -/
theorem adjustDown_digit {d : Int} (hmin : -10 ≤ d) (hmax : d ≤ 9) :
    (if d < 0 then d - 6 else d) % 16 = d % 10 := by
  split <;> omega

/-- The accumulator after a decimal subtraction, with the borrow between the halves taken out. -/
theorem decimalDifference_eq (a b : UInt8) (c s t : Int) (hs : s = (a.toNat % 16 : Nat) - (b.toNat % 16 : Nat) - c)
    (ht : t = (a.toNat / 16 : Nat) - (b.toNat / 16 : Nat) - if s < 0 then 1 else 0) :
    decimalDifference a b c =
      UInt8.ofInt ((if t < 0 then t - 6 else t) * 16 + (if s < 0 then s - 6 else s) % 16) := by
  unfold decimalDifference
  rw [← hs]
  by_cases hneg : s < 0
  · simp [hneg, ht]
  · simp [hneg, ht]

theorem decimalDifference_digit {a b : UInt8} {c : Int} (ha : IsDigit true a) (hb : IsDigit true b) (hmin : 0 ≤ c)
    (hmax : c ≤ 1) :
    IsDigit true (decimalDifference a b c) ∧
      (digit true (decimalDifference a b c) : Int) = (digit true a - digit true b - c) % 100 := by
  obtain ⟨hah, hal⟩ := ha rfl
  obtain ⟨hbh, hbl⟩ := hb rfl
  rw [decimalDifference_eq a b c _ _ rfl rfl]
  generalize hs : ((a.toNat % 16 : Nat) : Int) - (b.toNat % 16 : Nat) - c = s
  generalize ht : ((a.toNat / 16 : Nat) : Int) - (b.toNat / 16 : Nat) - (if s < 0 then 1 else 0) = t
  have hborrow : -(if s < 0 then 1 else 0) = s / 10 := by
    split <;> omega
  have hlow := adjustDown_digit (show -10 ≤ s by omega) (show s ≤ 9 by omega)
  have hhigh := adjustDown_digit (show -10 ≤ t by omega) (show t ≤ 9 by omega)
  have hbyte : (UInt8.ofInt ((if t < 0 then t - 6 else t) * 16 + (if s < 0 then s - 6 else s) % 16)).toNat =
      16 * (t % 10).toNat + (s % 10).toNat := by
    have hmod := Encoding.toNat_ofInt_byte ((if t < 0 then t - 6 else t) * 16 + (if s < 0 then s - 6 else s) % 16)
    omega
  obtain ⟨hdigit, hvalue⟩ := isDigit_of_halves hbyte (by omega) (by omega)
  refine ⟨hdigit, ?_⟩
  rw [hvalue]
  simp only [digit, if_true]
  omega

section Step
variable {r : Registers} {b : UInt8}

theorem carryIn_of_carry {f : Flags} {c : Bool} (h : f.carry = c) : carryIn f = if c then 1 else 0 := by
  rw [carryIn, h]

/-- An addition gives the sum as a digit and a carry. -/
theorem add_digit (ha : IsDigit r.flags.decimal r.a) (hb : IsDigit r.flags.decimal b) :
    IsDigit r.flags.decimal (add r b).a ∧
      digit r.flags.decimal (add r b).a + base r.flags.decimal * carryIn (add r b).flags =
        digit r.flags.decimal r.a + digit r.flags.decimal b + carryIn r.flags := by
  have hc := carryIn_le r.flags
  cases hd : r.flags.decimal with
  | false =>
    have hresult : (add r b).a = UInt8.ofNat (r.a.toNat + b.toNat + carryIn r.flags) := by
      simp [add, hd]
    have hcarry : (add r b).flags.carry = decide (r.a.toNat + b.toNat + carryIn r.flags > 0xFF) := by
      simp [add, hd]
    have := r.a.toNat_lt
    have := b.toNat_lt
    refine ⟨nofun, ?_⟩
    simp only [digit, base, Bool.false_eq_true, if_false, hresult, carryIn_of_carry hcarry, UInt8.toNat_ofNat',
      decide_eq_true_eq]
    split <;> omega
  | true =>
    rw [hd] at ha hb
    have hresult : (add r b).a = (decimalSum r.a b (carryIn r.flags)).1 := by
      simp [add, hd]
    have hcarry : (add r b).flags.carry = (decimalSum r.a b (carryIn r.flags)).2 := by
      simp [add, hd]
    rw [hresult, carryIn_of_carry hcarry]
    exact decimalSum_digit ha hb hc

/-- A subtraction sets the carry if it does not borrow, in decimal mode too. -/
theorem carryIn_subtract (r : Registers) (b : UInt8) :
    carryIn (subtract r b).flags = if b.toNat + (1 - carryIn r.flags) ≤ r.a.toNat then 1 else 0 := by
  have hc := carryIn_le r.flags
  have hb := b.toNat_lt
  have hnot : (~~~b).toNat = 255 - b.toNat := UInt8.toNat_not b
  have hcarry : (subtract r b).flags.carry = decide (b.toNat + (1 - carryIn r.flags) ≤ r.a.toNat) := by
    simp only [subtract, decide_eq_decide]
    omega
  simp only [carryIn_of_carry hcarry, decide_eq_true_eq]

/-- A subtraction gives the difference as a digit, less a borrow. -/
theorem subtract_digit (ha : IsDigit r.flags.decimal r.a) (hb : IsDigit r.flags.decimal b) :
    IsDigit r.flags.decimal (subtract r b).a ∧
      (digit r.flags.decimal (subtract r b).a : Int) + base r.flags.decimal * (carryIn (subtract r b).flags - 1) =
        digit r.flags.decimal r.a - digit r.flags.decimal b + (carryIn r.flags - 1) := by
  have hc := carryIn_le r.flags
  have := r.a.toNat_lt
  have := b.toNat_lt
  rw [carryIn_subtract]
  cases hd : r.flags.decimal with
  | false =>
    have hnot : (~~~b).toNat = 255 - b.toNat := UInt8.toNat_not b
    have hresult : (subtract r b).a = UInt8.ofNat (r.a.toNat + (~~~b).toNat + carryIn r.flags) := by
      simp [subtract, hd]
    refine ⟨nofun, ?_⟩
    simp only [digit, base, Bool.false_eq_true, if_false, hresult, UInt8.toNat_ofNat']
    split <;> omega
  | true =>
    rw [hd] at ha hb
    have hborrow : (if r.flags.carry then 0 else 1 : Int) = 1 - carryIn r.flags := by
      unfold carryIn
      split <;> rfl
    have hresult : (subtract r b).a = decimalDifference r.a b (1 - carryIn r.flags) := by
      simp [subtract, hd, hborrow]
    obtain ⟨hdigit, hvalue⟩ := decimalDifference_digit (c := 1 - carryIn r.flags) ha hb (by omega) (by omega)
    have hx := ha rfl
    have hy := hb rfl
    rw [hresult]
    refine ⟨hdigit, ?_⟩
    rw [hvalue]
    -- bytes of decimal digits are in the order of the numbers they stand for
    simp only [digit, base, if_true]
    split <;> omega

end Step

/-! ## One byte after another -/

/-- A place of two numbers: the byte of the first goes to the accumulator, and the byte of the second is the one
that the operand stands for. -/
structure Column where
  first : UInt8
  operand : Operand

/-- The byte of the second number. -/
def Column.second (c : Column) (m : Memory) : UInt8 :=
  Effect.load c.operand { a := c.first } m

/-- The registers after an operation on one column. -/
def column (op : Operation) (m : Memory) (r : Registers) (c : Column) : Registers :=
  (Effect.ofOperation op c.operand { r with a := c.first } m).registers

/-- Executes an operation on one column after another. Answers with the bytes it leaves in the accumulator and the
registers at the end. -/
def columns (op : Operation) (m : Memory) (r : Registers) : List Column → List UInt8 × Registers
  | [] => ([], r)
  | c :: cs =>
    let r := column op m r c
    let (bytes, last) := columns op m r cs
    (r.a :: bytes, last)

/-- On a column of digits the operation keeps the mode and gives a digit. The digit and what is carried on make up
what came in: the first byte, the second one with its sign and what was carried on to the column. -/
def ExactOn (op : Operation) (m : Memory) (decimal : Bool) (sign offset : Int) : Prop :=
  ∀ (r : Registers) (c : Column), r.flags.decimal = decimal → IsDigit decimal c.first → IsDigit decimal (c.second m) →
    (column op m r c).flags.decimal = decimal ∧ IsDigit decimal (column op m r c).a ∧
      (digit decimal (column op m r c).a : Int) + base decimal * (carryIn (column op m r c).flags + offset) =
        digit decimal c.first + sign * digit decimal (c.second m) + (carryIn r.flags + offset)

theorem load_column (c : Column) (r : Registers) (m : Memory) :
    Effect.load c.operand { r with a := c.first } m = c.second m := by
  cases h : c.operand <;> simp [Column.second, h, Effect.load]

theorem exactOn_adc (m : Memory) (decimal : Bool) : ExactOn .adc m decimal 1 0 := by
  rintro r c rfl hx hy
  have hcolumn : column .adc m r c = add { r with a := c.first } (c.second m) := by
    rw [← load_column c r m]
    rfl
  obtain ⟨hdigit, hvalue⟩ := add_digit (r := { r with a := c.first }) hx hy
  rw [hcolumn]
  refine ⟨rfl, hdigit, ?_⟩
  zify at hvalue
  linear_combination hvalue

theorem exactOn_sbc (m : Memory) (decimal : Bool) : ExactOn .sbc m decimal (-1) (-1) := by
  rintro r c rfl hx hy
  have hcolumn : column .sbc m r c = subtract { r with a := c.first } (c.second m) := by
    rw [← load_column c r m]
    rfl
  obtain ⟨hdigit, hvalue⟩ := subtract_digit (r := { r with a := c.first }) hx hy
  rw [hcolumn]
  refine ⟨rfl, hdigit, ?_⟩
  linear_combination hvalue

/-- What holds on one column holds on all of them. -/
theorem ExactOn.columns {op : Operation} {m : Memory} {decimal : Bool} {sign offset : Int}
    (hop : ExactOn op m decimal sign offset) {r : Registers} (hr : r.flags.decimal = decimal) {cs : List Column}
    (h : ∀ c ∈ cs, IsDigit decimal c.first ∧ IsDigit decimal (c.second m)) :
    (columns op m r cs).1.length = cs.length ∧ (∀ z ∈ (columns op m r cs).1, IsDigit decimal z) ∧
      (number decimal (columns op m r cs).1 : Int) +
          (base decimal ^ cs.length : Nat) * (carryIn (columns op m r cs).2.flags + offset) =
        number decimal (cs.map (·.first)) + sign * number decimal (cs.map (·.second m)) +
          (carryIn r.flags + offset) := by
  induction cs generalizing r with
  | nil => simp [Arithmetic.columns, number_nil]
  | cons c cs ih =>
    obtain ⟨hx, hy⟩ := h c (by simp)
    obtain ⟨hmode, hdigit, hvalue⟩ := hop r c hr hx hy
    obtain ⟨hlength, hdigits, hrest⟩ := ih hmode fun d hd => h d (by simp [hd])
    refine ⟨by simp [Arithmetic.columns, hlength], ?_, ?_⟩
    · intro z hz
      rcases List.mem_cons.1 hz with rfl | hz
      · exact hdigit
      · exact hdigits z hz
    · simp only [Arithmetic.columns, List.map_cons, number_cons, List.length_cons, pow_succ]
      push_cast at hrest ⊢
      linear_combination hvalue + (base decimal : Int) * hrest

/-- Additions and subtractions byte by byte are exact, in binary and, on decimal digits, in decimal mode. The bytes
of an addition and its last carry hold the sum. The bytes of a subtraction hold the difference, modulo the numbers
that fit, and the last carry says that it does not go below zero. -/
theorem long_numbers_exact (m : Memory) (r : Registers) (cs : List Column)
    (h : ∀ c ∈ cs, IsDigit r.flags.decimal c.first ∧ IsDigit r.flags.decimal (c.second m)) :
    let decimal := r.flags.decimal
    let x := number decimal (cs.map (·.first))
    let y := number decimal (cs.map (·.second m))
    let limit := base decimal ^ cs.length
    let sum := columns .adc m r cs
    let difference := columns .sbc m r cs
    (sum.1.length = cs.length ∧ (∀ z ∈ sum.1, IsDigit decimal z) ∧
      number decimal sum.1 + limit * carryIn sum.2.flags = x + y + carryIn r.flags) ∧
    (difference.1.length = cs.length ∧ (∀ z ∈ difference.1, IsDigit decimal z) ∧
      (number decimal difference.1 : Int) = (x - y - (1 - carryIn r.flags)) % limit ∧
      (difference.2.flags.carry = true ↔ y + (1 - carryIn r.flags) ≤ x)) := by
  intro decimal x y limit sum difference
  obtain ⟨hlength, hdigits, hsum⟩ := (exactOn_adc m decimal).columns rfl h
  obtain ⟨hlength', hdigits', hdifference⟩ := (exactOn_sbc m decimal).columns rfl h
  refine ⟨⟨hlength, hdigits, ?_⟩, hlength', hdigits', ?_⟩
  · zify
    linear_combination hsum
  -- the difference is below zero exactly if the last column borrows
  have hlt : number decimal difference.1 < limit := by
    have := number_lt hdigits'
    rwa [hlength'] at this
  have hc := carryIn_le r.flags
  have hwhole : (x - y - (1 - carryIn r.flags) : Int) =
      number decimal difference.1 + limit * (carryIn difference.2.flags - 1) := by
    linear_combination -hdifference
  constructor
  · rw [hwhole, Int.add_mul_emod_self_left]
    exact (Int.emod_eq_of_lt (by omega) (by omega)).symm
  · cases hcarry : difference.2.flags.carry with
    | true =>
      have hone : carryIn difference.2.flags = 1 := carryIn_of_carry hcarry
      rw [hone] at hwhole
      simp only [true_iff]
      omega
    | false =>
      have hzero : carryIn difference.2.flags = 0 := carryIn_of_carry hcarry
      rw [hzero] at hwhole
      simp only [Bool.false_eq_true, false_iff]
      omega

/-- 1000 and 1001 in decimal mode with the carry clear: the difference, less the borrow, is two below zero. -/
theorem long_numbers_exact_borrow :
    let r : Registers := { flags := { decimal := true } }
    let cs : List Column := [⟨0x00, .immediate 0x01⟩, ⟨0x10, .immediate 0x10⟩]
    (∀ c ∈ cs, IsDigit true c.first ∧ IsDigit true (c.second .zero)) ∧
      (columns .adc .zero r cs).1 = [0x01, 0x20] ∧ number true (columns .adc .zero r cs).1 = 2001 ∧
      (columns .sbc .zero r cs).1 = [0x98, 0x99] ∧ (number true (columns .sbc .zero r cs).1 : Int) = -2 % 10000 ∧
      (columns .sbc .zero r cs).2.flags.carry = false := by
  intro r cs
  have hdigits : ∀ c ∈ cs, IsDigit true c.first ∧ IsDigit true (c.second .zero) := by decide
  have hx : number true (cs.map (·.first)) = 1000 := by decide
  have hy : number true (cs.map (·.second .zero)) = 1001 := by decide
  have hin : carryIn r.flags = 0 := rfl
  have hout : carryIn (columns .adc .zero r cs).2.flags = 0 := by decide
  have hlimit : base true ^ cs.length = 10000 := rfl
  obtain ⟨⟨-, -, hsum⟩, -, -, hdifference, hcarry⟩ := long_numbers_exact .zero r cs hdigits
  simp only [show r.flags.decimal = true from rfl, hx, hy, hin, hout, hlimit] at hsum hdifference hcarry
  refine ⟨hdigits, by decide, ?_, by decide, ?_, ?_⟩
  · simpa only [Nat.mul_zero, Nat.add_zero] using hsum
  · simpa using hdifference
  · simpa using hcarry

end Mos6502.Arithmetic
