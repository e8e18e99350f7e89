import Mos6502.Disassembly.Instruction
import Mos6502.Proofs.Footprint

/-!
# Branches

The assembler stores the distance of a branch, the disassembler adds it to the
address of the branch, and the machine adds it to the address after. All three
work modulo 2^16, so they agree on the target at both ends of the range and
around the top of memory.

Main statement: `branches_agree`.
-/
namespace Mos6502

/-! ## Distances -/

namespace Branch

/-- How far the target is from the address after the branch, the shorter way round the memory. -/
def gap (address target : UInt16) : Int :=
  ((target.toNat : Int) - (address.toNat + 2)).bmod 65536

/-- The target is near enough for a signed byte. -/
def InReach (address target : UInt16) : Prop :=
  -128 ≤ gap address target ∧ gap address target ≤ 127

instance (address target : UInt16) : Decidable (InReach address target) :=
  inferInstanceAs (Decidable (_ ∧ _))

theorem toInt_distance (a t : UInt16) : (distance a t).toInt = gap a t := by
  have hmod : ((t - (a + 2)).toNat : Int) % (65536 : Nat) = ((t.toNat : Int) - (a.toNat + 2)) % (65536 : Nat) := by
    have := t.toNat_lt
    have := a.toNat_lt
    simp only [UInt16.toNat_sub, UInt16.toNat_add, UInt16.reduceToNat]
    omega
  calc (distance a t).toInt = ((t - (a + 2)).toNat : Int).bmod 65536 := BitVec.toInt_eq_toNat_bmod _
    _ = gap a t := by simp only [gap, Int.bmod, hmod]

theorem displacement_of_inReach {a t : UInt16} (h : InReach a t) :
    displacement a t = .ok (distance a t).toInt8 := by
  unfold InReach at h
  rw [← toInt_distance] at h
  exact if_pos h

theorem displacement_of_not_inReach {a t : UInt16} (h : ¬ InReach a t) :
    displacement a t = .error ⟨distance a t⟩ := by
  unfold InReach at h
  rw [← toInt_distance] at h
  exact if_neg h

theorem displacement_ok_iff {a t : UInt16} : (∃ d, displacement a t = .ok d) ↔ InReach a t := by
  constructor
  · rintro ⟨d, hd⟩
    by_contra hfar
    rw [displacement_of_not_inReach hfar] at hd
    cases hd
  · intro h
    exact ⟨_, displacement_of_inReach h⟩

/-- A distance that fits in a byte leads from the branch to its target. -/
theorem target_distance {a t : UInt16} (h : InReach a t) : target a (distance a t).toInt8 = t := by
  unfold InReach at h
  rw [← toInt_distance] at h
  have hextend : (distance a t).toInt8.toInt16 = distance a t := by
    apply Int16.toInt_inj.1
    rw [Int8.toInt_toInt16, Int16.toInt_toInt8]
    exact Int.bmod_eq_of_le_mul_two (by omega) (by omega)
  have hword : (distance a t).toUInt16 = t - (a + 2) := rfl
  rw [target, hextend, hword, UInt16.add_comm, UInt16.sub_add_cancel]

theorem target_of_displacement {a t : UInt16} {d : Int8} (h : displacement a t = .ok d) : target a d = t := by
  have hreach : InReach a t := displacement_ok_iff.1 ⟨d, h⟩
  rw [displacement_of_inReach hreach] at h
  cases h
  exact target_distance hreach

end Branch

/-! ## Conditions -/

/-- The flag that a branch looks at, and the value with which the branch is taken. -/
def Operation.test? : Operation → Option (Flag × Bool)
  | bpl => some (.negative, false)
  | bmi => some (.negative, true)
  | bvc => some (.overflow, false)
  | bvs => some (.overflow, true)
  | bcc => some (.carry, false)
  | bcs => some (.carry, true)
  | bne => some (.zero, false)
  | beq => some (.zero, true)
  | _ => none

/-- The flags let the branch be taken. -/
def Operation.taken (op : Operation) (flags : Flags) : Bool :=
  op.test?.any fun (flag, value) => flags.get flag == value

theorem Opcode.test?_of_relative : ∀ o ∈ documented, o.mode = .relative → o.operation.test?.isSome := by
  decide +kernel

theorem Effect.ofOperation_test {op : Operation} (h : op.test?.isSome) (o : Operand) (r : Registers) (m : Memory) :
    ofOperation op o r m = branch o r (op.taken r.flags) := by
  cases op with
  | bpl | bmi | bvc | bvs | bcc | bcs | bne | beq => simp [ofOperation, Operation.taken, Operation.test?, Flags.get]
  | _ => cases h

/-! ## The three parts -/

section Relative
variable {o : Opcode} (ho : o ∈ Opcode.documented) (hmode : o.mode = .relative)

theorem Encoding.check_target (t : UInt16) : check .branchTarget t.toNat = .ok t.toNat := by
  have := t.toNat_lt
  exact check_of (by simp [Field.min]) (by simp [Field.max]; omega)

include hmode in
/-- A branch is encoded as its opcode and its displacement. -/
theorem Opcode.encode_relative (a t : UInt16) :
    o.encode (some t.toNat) a =
      match Branch.displacement a t with
      | .ok d => .ok [o.code, d.toUInt8]
      | .error e => .error (.branch e) := by
  simp only [encode, hmode, Mode.operandBytes, Encoding.operand, Encoding.check_target, bind, Except.bind,
    Encoding.ofInt_word]
  cases Branch.displacement a t <;> rfl

include ho hmode

theorem Instruction.decode?_relative (a : UInt16) (b : UInt8) (rest : List UInt8) :
    decode? (o.code :: b :: rest) a = some ⟨a, o.code, some o, [b]⟩ :=
  decode?_ofRow o ho [b] (by rw [hmode]; rfl) a rest

/-- A branch goes to its target or to the next instruction, and nothing else changes. -/
theorem Machine.step_relative {m : Machine} (hpc : m.registers.pc ≤ 0xFFFE) (hcode : m.code = o.code) :
    m.step = .ok { m with
      registers.pc := if o.operation.taken m.registers.flags then
          Branch.target m.registers.pc (m.memory.read (m.registers.pc + 1)).toInt8
        else m.registers.pc + 2
      cycles := m.cycles + o.cycles } := by
  have hsize : o.size = 2 := by rw [Opcode.size, hmode]; rfl
  have hfetch : m.fetch = .ok o := by
    have := UInt16.le_iff_toNat_le.1 hpc
    refine fetch_eq_ok.2 ⟨hcode ▸ Opcode.ofCode?_code o ho, ?_⟩
    simp only [UInt16.reduceToNat] at this
    omega
  refine step_eq_ok.2 ⟨o, hfetch, ?_⟩
  have htest := Opcode.test?_of_relative o ho hmode
  simp only [effect, Effect.ofOperation_test htest, Effect.branch, apply, List.foldl_nil, hmode, hsize, Effect.operand,
    Effect.jump]
  cases o.operation.taken m.registers.flags <;> rfl

end Relative

/-- The parts agree on branches. A displacement exists for the targets in reach and for no others. For such a
target the branch is encoded in two bytes, these are decoded as the same branch to the same target, and a machine
that comes to them goes to the target if the condition holds, and to the address after them if not. For any other
target the encoding fails. -/
theorem branches_agree (o : Opcode) (ho : o ∈ Opcode.documented) (hmode : o.mode = .relative) (p t : UInt16)
    (hp : p ≤ 0xFFFE) :
    ((∃ d, Branch.displacement p t = .ok d) ↔ Branch.InReach p t) ∧
    (Branch.InReach p t → ∃ b, o.encode (some t.toNat) p = .ok [o.code, b] ∧
      (∀ rest, ∃ i, Instruction.decode? (o.code :: b :: rest) p = some i ∧ i.mnemonic = o.mnemonic ∧
        i.bytes = [o.code, b] ∧ i.target? = some t) ∧
      ∀ m : Machine, m.registers.pc = p → m.memory.read p = o.code → m.memory.read (p + 1) = b →
        m.step = .ok { m with
          registers.pc := if o.operation.taken m.registers.flags then t else p + 2
          cycles := m.cycles + o.cycles }) ∧
    (¬ Branch.InReach p t → ∃ e, o.encode (some t.toNat) p = .error (.branch e)) := by
  refine ⟨Branch.displacement_ok_iff, fun h => ?_, fun h => ?_⟩
  · have hbyte : (Branch.distance p t).toInt8.toUInt8.toInt8 = (Branch.distance p t).toInt8 := rfl
    refine ⟨(Branch.distance p t).toInt8.toUInt8, ?_, fun rest => ?_, ?_⟩
    · rw [Opcode.encode_relative hmode, Branch.displacement_of_inReach h]
    · refine ⟨_, Instruction.decode?_relative ho hmode p _ rest, rfl, rfl, ?_⟩
      simp only [Instruction.target?, hmode, Instruction.value, UInt8.toUInt8_toUInt16, hbyte, Branch.target_distance h]
    · rintro m rfl hcode hoperand
      rw [Machine.step_relative ho hmode hp hcode, hoperand, hbyte, Branch.target_distance h]
  · rw [Opcode.encode_relative hmode, Branch.displacement_of_not_inReach h]
    exact ⟨_, rfl⟩

/-- `BNE $FF80` in the last two bytes of memory: the address after it is zero, and the target is as far back as
a branch can go. -/
def farthest : Machine where
  registers := { pc := 0xFFFE }
  memory := (Memory.zero.write 0xFFFE 0xD0).write 0xFFFF 0x80

theorem branches_agree_farthest :
    let bne : Opcode := ⟨0xD0, .bne, .relative, 2⟩
    Branch.InReach 0xFFFE 0xFF80 ∧ bne.encode (some 0xFF80) 0xFFFE = .ok [0xD0, 0x80] ∧
      farthest.step = .ok { farthest with registers.pc := 0xFF80, cycles := 2 } ∧
      ¬ Branch.InReach 0xFFFE 0xFF7F ∧ ∃ e, bne.encode (some 0xFF7F) 0xFFFE = .error (.branch e) := by
  intro bne
  have hrow : bne ∈ Opcode.documented := by decide +kernel
  have hreach : Branch.InReach 0xFFFE 0xFF80 := by decide
  have hfar : ¬ Branch.InReach 0xFFFE 0xFF7F := by decide
  have hbytes : bne.encode (some 0xFF80) 0xFFFE = .ok [0xD0, 0x80] := by decide
  obtain ⟨b, hb, -, hstep⟩ := (branches_agree bne hrow rfl 0xFFFE 0xFF80 (by decide)).2.1 hreach
  obtain rfl : b = 0x80 := by
    have hsame := hbytes.symm.trans hb
    simp only [Except.ok.injEq, List.cons.injEq, and_true] at hsame
    exact hsame.2.symm
  refine ⟨hreach, hbytes, hstep farthest rfl ?_ ?_, hfar,
    (branches_agree bne hrow rfl 0xFFFE 0xFF7F (by decide)).2.2 hfar⟩
  · simp [farthest, Memory.read_write, bne]
  · simp [farthest, Memory.read_write]

end Mos6502
