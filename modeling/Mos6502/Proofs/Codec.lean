import Mos6502.Proofs.Branches
import Mos6502.Proofs.Region

/-!
# Decoding undoes encoding

An instruction that was encoded is decoded from its bytes again, whatever bytes
follow them, and with the operand that was encoded. In the other direction the
operand of a decoded instruction gives back the bytes it was decoded from. An
instruction without operand bytes stores no operand, so one that is given to the
encoder is lost.

Main statement: `encode_decode_inverse`.
-/
namespace Mos6502

/-- The number that an operand is stored as. Only an immediate operand may be negative. -/
def Mode.stored (mode : Mode) (v : Int) : Int :=
  if mode = .immediate ∧ v < 0 then v % 256 else v

namespace Instruction

/-- The operand as the encoder takes it: for a branch the target, else the number that is stored. -/
def operand? (i : Instruction) : Option Int :=
  (if i.mode = .relative then i.target? else some i.value).map fun w => (w.toNat : Int)

/-! ## Operands -/

section Operand
variable {a : UInt16} {o : Opcode}

theorem operand?_ofRow (h : o.mode ≠ .relative) (ops : List UInt8) :
    (ofRow a o ops).operand? = some ((ofRow a o ops).value.toNat : Int) := by
  have hmode : (ofRow a o ops).mode = o.mode := rfl
  rw [operand?, hmode, if_neg h]
  rfl

theorem operand?_branch (h : o.mode = .relative) (d : Int8) :
    (ofRow a o [d.toUInt8]).operand? = some ((Branch.target a d).toNat : Int) := by
  have hmode : (ofRow a o [d.toUInt8]).mode = o.mode := rfl
  have htarget : (ofRow a o [d.toUInt8]).target? = some (Branch.target a d) := by
    simp [target?, ofRow, h, value]
  rw [operand?, hmode, if_pos h, htarget]
  rfl

theorem toNat_value_byte (v : Int) : ((ofRow a o [UInt8.ofInt v]).value.toNat : Int) = v % 256 := by
  simp [value, ofRow, Encoding.toNat_ofInt_byte]

/-- The operand bytes hold the operand that was encoded. -/
theorem operand?_encoded {v : Int} {ops : List UInt8} (h : Encoding.operand o.mode v a = .ok ops)
    (hm : o.mode.operandBytes ≠ 0) : (ofRow a o ops).operand? = some (o.mode.stored v) := by
  cases hmode : o.mode with
  | implied | accumulator =>
    rw [hmode] at hm
    exact absurd rfl hm
  | relative =>
    rw [hmode] at h
    obtain ⟨t, ht, hops⟩ := bind_eq_ok.1 h
    obtain ⟨rfl, hmin, hmax⟩ := Encoding.check_eq_ok.1 ht
    cases hd : Branch.displacement a (UInt16.ofInt t) with
    | error e => simp [hd] at hops
    | ok d =>
      simp only [hd, Except.ok.injEq] at hops
      rw [← hops, operand?_branch hmode, Branch.target_of_displacement hd, Encoding.toNat_ofInt_word hmin hmax]
      simp [Mode.stored]
  | immediate =>
    rw [hmode] at h
    obtain ⟨b, hb, hops⟩ := bind_eq_ok.1 h
    obtain ⟨w, hw, rfl⟩ := map_eq_ok.1 hb
    obtain ⟨rfl, hmin, hmax⟩ := Encoding.check_eq_ok.1 hw
    cases hops
    simp only [Field.min, Field.max] at hmin hmax
    rw [operand?_ofRow (by simp [hmode]), toNat_value_byte]
    by_cases hneg : w < 0
    · simp [Mode.stored, hneg]
    · rw [Int.emod_eq_of_lt (by omega) (by omega)]
      simp [Mode.stored, hneg]
  | zeroPage | zeroPageX | zeroPageY | indirectX | indirectY =>
    rw [hmode] at h
    obtain ⟨w, hw, hops⟩ := bind_eq_ok.1 h
    obtain ⟨rfl, hmin, hmax⟩ := Encoding.check_eq_ok.1 hw
    cases hops
    simp only [Field.min, Field.max] at hmin hmax
    rw [operand?_ofRow (by simp [hmode]), toNat_value_byte, Int.emod_eq_of_lt (by omega) (by omega)]
    simp [Mode.stored]
  | absolute | absoluteX | absoluteY | indirect =>
    rw [hmode] at h
    obtain ⟨w, hw, hops⟩ := bind_eq_ok.1 h
    obtain ⟨rfl, hmin, hmax⟩ := Encoding.check_eq_ok.1 hw
    cases hops
    have hvalue : (ofRow a o (Encoding.littleEndian (UInt16.ofInt w))).value = UInt16.ofInt w :=
      Encoding.word_littleEndian _
    rw [operand?_ofRow (by simp [hmode]), hvalue, Encoding.toNat_ofInt_word hmin hmax]
    simp [Mode.stored]

end Operand

/-! ## Both directions -/

/-- What was encoded is the opcode and operand bytes that hold the operand. -/
theorem exists_ofRow_of_encode {o : Opcode} {v : Option Int} {a : UInt16} {bs : List UInt8}
    (h : o.encode v a = .ok bs) :
    ∃ ops, bs = o.code :: ops ∧ ops.length = o.mode.operandBytes ∧
      (ofRow a o ops).operand? = if o.mode.operandBytes = 0 then some 0 else v.map o.mode.stored := by
  unfold Opcode.encode at h
  split at h
  · rename_i hzero
    have hplain : o.mode ≠ .relative := by
      intro hm
      rw [hm] at hzero
      cases hzero
    cases h
    refine ⟨[], rfl, hzero.symm, ?_⟩
    rw [if_pos hzero, operand?_ofRow hplain]
    rfl
  · rename_i hsome
    cases v with
    | none => cases h
    | some v =>
      obtain ⟨ops, hops, rfl⟩ := map_eq_ok.1 h
      refine ⟨ops, rfl, Encoding.length_operand hops, ?_⟩
      rw [if_neg hsome, operand?_encoded hops hsome]
      rfl

theorem Decoded.operand?_eq {i : Instruction} {o : Opcode} (h : i.Decoded o) :
    i.operand? = some (i.operandValue.toNat : Int) := by
  have hmode : i.mode = o.mode := by simp [mode, h.opcode]
  by_cases hm : o.mode = .relative
  · have htarget : i.target? = some (Branch.target i.address i.value.toUInt8.toInt8) := by
      simp [target?, h.opcode, hm]
    simp [operand?, operandValue, hmode, hm, htarget]
  · simp [operand?, operandValue_plain h.opcode hm, hmode, hm]

end Instruction

open Instruction

/-- What is encoded has the size of its row, and it is decoded as the row with the same bytes and the operand that
was encoded, whatever bytes follow. A row without operand bytes takes any operand and stores none. In the other
direction the operand of what was decoded is encoded to the bytes that the decoder used up. -/
theorem encode_decode_inverse :
    (∀ o ∈ Opcode.documented, ∀ v a bs, o.encode v a = .ok bs →
      bs.length = o.size ∧ ∀ suffix, ∃ i, decode? (bs ++ suffix) a = some i ∧
        i.code = o.code ∧ i.mnemonic = o.mnemonic ∧ i.mode = o.mode ∧ i.bytes = bs ∧
        i.operand? = if o.mode.operandBytes = 0 then some 0 else v.map o.mode.stored) ∧
    (∀ bs a i, decode? bs a = some i →
      ∃ o ∈ Opcode.documented, o.code = i.code ∧ o.encode i.operand? a = .ok (bs.take o.size)) := by
  constructor
  · intro o ho v a bs h
    refine ⟨Opcode.length_encode h, fun suffix => ?_⟩
    obtain ⟨ops, rfl, hlen, hoperand⟩ := exists_ofRow_of_encode h
    exact ⟨ofRow a o ops, decode?_ofRow o ho ops hlen a suffix, rfl, rfl, rfl, rfl, hoperand⟩
  · intro bs a i h
    obtain ⟨rfl, ⟨o, ho⟩, hprefix⟩ := decode?_eq_some h
    obtain ⟨hrow, hcode⟩ := Opcode.ofCode?_eq_some ho.code
    have hbytes : i.bytes = bs.take o.size := by
      rw [← ho.size_eq]
      exact List.prefix_iff_eq_take.1 hprefix
    refine ⟨o, hrow, hcode, ?_⟩
    rw [← hbytes]
    exact ho.encode fun _ => ho.operand?_eq

/-- The lowest immediate operand comes back modulo 256, and a branch in the last two bytes of memory is encoded
from the target it is decoded with. -/
theorem encode_decode_inverse_edges :
    (∃ i, decode? [0xA9, 0x80, 0xD0] 0 = some i ∧ i.operand? = some 0x80 ∧
      Opcode.encode ⟨0xA9, .lda, .immediate, 2⟩ (some (-128)) 0 = .ok i.bytes) ∧
    ∃ i, decode? [0xD0, 0x80, 0xA9] 0xFFFE = some i ∧ i.operand? = some 0xFF80 ∧
      ∃ o ∈ Opcode.documented, o.code = 0xD0 ∧
        o.encode (some 0xFF80) 0xFFFE = .ok ([0xD0, 0x80, 0xA9].take o.size) := by
  obtain ⟨hencode, hdecode⟩ := encode_decode_inverse
  constructor
  · have hlda : Opcode.encode ⟨0xA9, .lda, .immediate, 2⟩ (some (-128)) 0 = .ok [0xA9, 0x80] := by decide
    obtain ⟨i, hi, -, -, -, hbytes, hoperand⟩ := (hencode _ (by decide +kernel) _ _ _ hlda).2 [0xD0]
    exact ⟨i, hi, hoperand, hbytes ▸ hlda⟩
  · have hi := decode?_ofRow ⟨0xD0, .bne, .relative, 2⟩ (by decide +kernel) [0x80] rfl 0xFFFE [0xA9]
    exact ⟨_, hi, by decide, hdecode _ _ _ hi⟩

/-- A `NOP` with the operand five is encoded as one without, so the operand does not come back. -/
theorem implied_operand_lost :
    let nop : Opcode := ⟨0xEA, .nop, .implied, 2⟩
    nop ∈ Opcode.documented ∧ nop.encode (some 5) 0 = .ok [0xEA] ∧
      ∃ i, decode? [0xEA] 0 = some i ∧ i.value = 0 ∧ i.operand? ≠ some 5 := by
  intro nop
  have hrow : nop ∈ Opcode.documented := by decide +kernel
  exact ⟨hrow, rfl, _, decode?_ofRow nop hrow [] rfl 0 [], rfl, by decide⟩

end Mos6502
