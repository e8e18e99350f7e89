import Mos6502.Isa.Encoding
import Mos6502.Proofs.Basic

/-!
# Encodings

An instruction that can be encoded takes as many bytes as its mode says, and
items of data take one or two. Bytes and words that are encoded as numbers are
stored as they are, and a branch is stored as the distance it was read from.
-/
namespace Mos6502

namespace Encoding

theorem length_byte {v : Int} {bs : List UInt8} (h : (byte v).map ([·]) = .ok bs) : bs.length = 1 := by
  obtain ⟨b, -, rfl⟩ := map_eq_ok.1 h
  rfl

theorem length_word {v : Int} {bs : List UInt8} (h : word v = .ok bs) : bs.length = 2 := by
  obtain ⟨w, -, rfl⟩ := map_eq_ok.1 h
  rfl

theorem length_operand {mode : Mode} {v : Int} {a : UInt16} {bs : List UInt8}
    (h : operand mode v a = .ok bs) : bs.length = mode.operandBytes := by
  cases mode with
  | implied | accumulator => cases h; rfl
  | relative =>
    obtain ⟨t, -, h⟩ := bind_eq_ok.1 h
    split at h <;> cases h
    rfl
  | immediate | zeroPage | zeroPageX | zeroPageY | indirectX | indirectY | absolute | absoluteX | absoluteY
  | indirect =>
    obtain ⟨w, -, h⟩ := bind_eq_ok.1 h
    cases h
    rfl

end Encoding

theorem Opcode.length_encode {o : Opcode} {v : Option Int} {a : UInt16} {bs : List UInt8}
    (h : o.encode v a = .ok bs) : bs.length = o.size := by
  unfold encode at h
  unfold size Mode.size
  split at h
  · rename_i hn
    cases h
    rw [hn]
    rfl
  · cases v with
    | none => cases h
    | some v =>
      obtain ⟨ops, hops, rfl⟩ := map_eq_ok.1 h
      rw [List.length_cons, Encoding.length_operand hops]
      omega

/-! ## Stored values -/

namespace Encoding

theorem ofInt_byte (b : UInt8) : UInt8.ofInt b.toNat = b := by
  have h : ((b.toNat : Int) % 256).toNat = b.toNat := by
    have := b.toNat_lt
    omega
  simp [UInt8.ofInt, h]

theorem ofInt_word (w : UInt16) : UInt16.ofInt w.toNat = w := by
  have h : ((w.toNat : Int) % 65536).toNat = w.toNat := by
    have := w.toNat_lt
    omega
  simp [UInt16.ofInt, h]

theorem toNat_word (low high : UInt8) :
    (low.toUInt16 ||| (high.toUInt16 <<< 8)).toNat = 256 * high.toNat + low.toNat := by
  have hl := low.toNat_lt
  have hh := high.toNat_lt
  have hshift : (high.toUInt16 <<< 8).toNat = high.toNat <<< 8 := by
    rw [UInt16.toNat_shiftLeft, UInt8.toNat_toUInt16, Nat.shiftLeft_eq, Nat.shiftLeft_eq]
    exact Nat.mod_eq_of_lt (show high.toNat * 256 < 65536 by omega)
  rw [UInt16.toNat_or, Nat.or_comm, hshift, UInt8.toNat_toUInt16, ← Nat.shiftLeft_add_eq_or_of_lt hl,
    Nat.shiftLeft_eq]
  omega

/-- A word read low byte first is stored low byte first. -/
theorem littleEndian_word (low high : UInt8) :
    littleEndian (low.toUInt16 ||| (high.toUInt16 <<< 8)) = [low, high] := by
  have h := toNat_word low high
  have hl := low.toNat_lt
  have hh := high.toNat_lt
  generalize low.toUInt16 ||| (high.toUInt16 <<< 8) = w at h
  have hlow : w.toUInt8 = low := by
    apply UInt8.toNat_inj.1
    simp [h]
  have hhigh : (w >>> 8).toUInt8 = high := by
    apply UInt8.toNat_inj.1
    simp [h, Nat.shiftRight_eq_div_pow]
    omega
  rw [littleEndian, hlow, hhigh]

/-- A word stored low byte first is read low byte first. -/
theorem word_littleEndian (w : UInt16) : w.toUInt8.toUInt16 ||| ((w >>> 8).toUInt8.toUInt16 <<< 8) = w := by
  apply UInt16.toNat_inj.1
  have hw := w.toNat_lt
  rw [toNat_word]
  simp [Nat.shiftRight_eq_div_pow]
  omega

theorem toNat_ofInt_byte (v : Int) : ((UInt8.ofInt v).toNat : Int) = v % 256 := by
  have h : (v % 256).toNat % 256 = (v % 256).toNat := by omega
  simp [UInt8.ofInt, h]
  omega

theorem toNat_ofInt_word {v : Int} (hmin : 0 ≤ v) (hmax : v ≤ 0xFFFF) : ((UInt16.ofInt v).toNat : Int) = v := by
  have h : (v % 65536).toNat % 65536 = v.toNat := by omega
  simp [UInt16.ofInt, h]
  omega

theorem check_eq_ok {field : Field} {v w : Int} :
    check field v = .ok w ↔ w = v ∧ field.min ≤ v ∧ v ≤ field.max := by
  unfold check
  split
  · rename_i hin
    simp [hin, eq_comm]
  · rename_i hout
    simp [hout]

theorem check_of {field : Field} {v : Int} (hmin : field.min ≤ v) (hmax : v ≤ field.max) :
    check field v = .ok v :=
  if_pos ⟨hmin, hmax⟩

end Encoding

/-- The distance to the target of a branch is the distance it was computed from. -/
theorem Branch.displacement_target (a : UInt16) (d : Int8) : displacement a (target a d) = .ok d := by
  have hd : distance a (target a d) = d.toInt16 := by
    unfold distance target
    rw [UInt16.add_comm (a + 2), UInt16.add_sub_cancel]
    rfl
  have hlo := d.le_toInt
  have hhi := d.toInt_lt
  simp only [displacement, hd, Int8.toInt_toInt16]
  rw [if_pos (by omega)]
  simp

end Mos6502
