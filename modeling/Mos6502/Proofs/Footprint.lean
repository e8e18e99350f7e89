import Mos6502.Machine.Step
import Mos6502.Proofs.Decoded

/-!
# What a step changes

Each instruction has a footprint: the registers, the flags and the cells of
memory that it may change. A step changes nothing outside the footprint of the
instruction at the program counter.

Main statement: `Machine.step_footprint`.
-/
namespace Mos6502

/-! ## Footprints -/

inductive Flag
  | negative | overflow | brk | decimal | interrupt | zero | carry
deriving DecidableEq

def Flags.get (f : Flags) : Flag → Bool
  | .negative => f.negative
  | .overflow => f.overflow
  | .brk => f.brk
  | .decimal => f.decimal
  | .interrupt => f.interrupt
  | .zero => f.zero
  | .carry => f.carry

namespace Operation

/-- The operations that may go on elsewhere than at the next instruction. -/
def redirecting : List Operation :=
  [bcc, bcs, beq, bmi, bne, bpl, bvc, bvs, jmp, jsr, rts, rti, brk]

/-- Shifts and rotations. -/
def shifting : List Operation :=
  [asl, lsr, rol, ror]

/-- The operations that put a byte where their operand stands for. -/
def storing : List Operation :=
  [sta, stx, sty, inc, dec] ++ shifting

/-- The operations that change the accumulator in every mode. -/
def changingA : List Operation :=
  [lda, adc, sbc, and, ora, eor, pla, txa, tya]

def changingX : List Operation :=
  [ldx, tax, tsx, inx, dex]

def changingY : List Operation :=
  [ldy, tay, iny, dey]

/-- The operations that push or pull, and the transfer to the stack pointer. -/
def changingSp : List Operation :=
  [txs, pha, php, pla, plp, jsr, rts, brk, rti]

/-- The flags that an operation may change. -/
def flags : Operation → List Flag
  | lda | ldx | ldy | and | ora | eor | inc | dec | inx | iny | dex | dey | pla
  | tax | tay | txa | tya | tsx => [.negative, .zero]
  | cmp | cpx | cpy | asl | lsr | rol | ror => [.negative, .zero, .carry]
  | adc | sbc => [.negative, .overflow, .zero, .carry]
  | bit => [.negative, .overflow, .zero]
  | brk => [.brk, .interrupt]
  | plp | rti => [.negative, .overflow, .brk, .decimal, .interrupt, .zero, .carry]
  | clc | sec => [.carry]
  | cli | sei => [.interrupt]
  | clv => [.overflow]
  | cld | sed => [.decimal]
  | _ => []

/-- The number of bytes that an operation pushes. -/
def pushes : Operation → Nat
  | pha | php => 1
  | jsr => 2
  | brk => 3
  | _ => 0

end Operation

namespace Opcode

/-- The instruction puts a byte into the memory cell that its operand stands for. -/
def Stores (o : Opcode) : Prop :=
  o.operation ∈ Operation.storing ∧ o.mode ≠ .accumulator

instance (o : Opcode) : Decidable o.Stores :=
  inferInstanceAs (Decidable (_ ∧ _))

/-- The instruction may change the accumulator. -/
def ChangesA (o : Opcode) : Prop :=
  o.operation ∈ Operation.changingA ∨ o.operation ∈ Operation.shifting ∧ o.mode = .accumulator

end Opcode

def Mode.IsZeroPage (mode : Mode) : Prop :=
  mode ∈ [zeroPage, zeroPageX, zeroPageY]

namespace Machine

/-- The memory cell that an operand of the mode stands for. The operands of jumps and branches are
places to go to and stand for no cell. -/
def effectiveAddress? (m : Machine) (mode : Mode) : Option Nat :=
  let r := m.registers
  let cell (n : Nat) : Nat := (m.memory.read (UInt16.ofNat n)).toNat
  let byte := cell (r.pc.toNat + 1)
  let word := byte + 256 * cell (r.pc.toNat + 2)
  let pointer (n : Nat) : Nat := cell (n % 256) + 256 * cell ((n + 1) % 256)
  match mode with
  | .zeroPage => some byte
  | .zeroPageX => some ((byte + r.x.toNat) % 256)
  | .zeroPageY => some ((byte + r.y.toNat) % 256)
  | .absolute => some word
  | .absoluteX => some ((word + r.x.toNat) % 65536)
  | .absoluteY => some ((word + r.y.toNat) % 65536)
  | .indirectX => some (pointer (byte + r.x.toNat))
  | .indirectY => some ((pointer byte + r.y.toNat) % 65536)
  | .implied | .accumulator | .immediate | .indirect | .relative => none

/-- The stack cells that the next `n` pushes go to. -/
def stackCells (m : Machine) (n : Nat) : List Nat :=
  (List.range n).map fun k => 256 + (m.registers.sp.toNat + 256 - k) % 256

/-- The cells that an instruction may change. -/
def writable (m : Machine) (o : Opcode) : List Nat :=
  if o.Stores then (m.effectiveAddress? o.mode).toList else m.stackCells o.operation.pushes

/-- A step with the instruction `o` from `m` to `m'` keeps within the footprint of `o`. -/
structure Footprint (o : Opcode) (m m' : Machine) : Prop where
  cycles : m'.cycles = m.cycles + o.cycles
  pc : o.operation ∉ Operation.redirecting →
    m'.registers.pc.toNat = (m.registers.pc.toNat + o.size) % 65536
  memory : ∀ a : UInt16, a.toNat ∉ m.writable o → m'.memory.read a = m.memory.read a
  zeroPage : o.mode.IsZeroPage → ∀ n ∈ m.effectiveAddress? o.mode, n < 0x100
  stackPage : ¬ o.Stores → ∀ n ∈ m.writable o, 0x100 ≤ n ∧ n ≤ 0x1FF
  a : ¬ o.ChangesA → m'.registers.a = m.registers.a
  x : o.operation ∉ Operation.changingX → m'.registers.x = m.registers.x
  y : o.operation ∉ Operation.changingY → m'.registers.y = m.registers.y
  sp : o.operation ∉ Operation.changingSp → m'.registers.sp = m.registers.sp
  flags : ∀ f ∉ o.operation.flags, m'.registers.flags.get f = m.registers.flags.get f

end Machine

/-! ## The table -/

theorem Opcode.accumulator_shifts :
    ∀ o ∈ documented, o.mode = .accumulator → o.operation ∈ Operation.shifting := by
  decide +kernel

theorem Opcode.storing_mode :
    ∀ o ∈ documented, o.operation ∈ Operation.storing → o.mode ∉ [.indirect, .relative] := by
  decide +kernel

theorem Operation.pushes_storing : ∀ op ∈ storing, op.pushes = 0 := by
  decide

theorem Operation.pushes_lt (op : Operation) : op.pushes < 256 := by
  cases op <;> decide

/-! ## Registers -/

theorem Flag.forall {p : Flag → Prop} :
    (∀ f, p f) ↔
      p .negative ∧ p .overflow ∧ p .brk ∧ p .decimal ∧ p .interrupt ∧ p .zero ∧ p .carry := by
  constructor
  · intro h
    exact ⟨h _, h _, h _, h _, h _, h _, h _⟩
  · rintro ⟨hn, hv, hb, hd, hi, hz, hc⟩ f
    cases f <;> assumption

namespace Effect

@[simp] theorem store_keeps (o : Operand) (r : Registers) (b : UInt8) :
    (store o r b).registers.pc = r.pc ∧ (store o r b).registers.x = r.x ∧ (store o r b).registers.y = r.y ∧
      (store o r b).registers.sp = r.sp ∧ (store o r b).registers.flags = r.flags := by
  cases o <;> simp [store]

theorem store_a {o : Operand} (h : o ≠ .accumulator) (r : Registers) (b : UInt8) :
    (store o r b).registers.a = r.a := by
  cases o <;> simp [store] at h ⊢

@[simp] theorem push_keeps (r : Registers) (bs : List UInt8) :
    (push r bs).registers.pc = r.pc ∧ (push r bs).registers.a = r.a ∧ (push r bs).registers.x = r.x ∧
      (push r bs).registers.y = r.y ∧ (push r bs).registers.flags = r.flags := by
  induction bs generalizing r with
  | nil => simp [push]
  | cons b bs ih => simp [push, ih]

@[simp] theorem jump_keeps (o : Operand) (r : Registers) :
    (jump o r).a = r.a ∧ (jump o r).x = r.x ∧ (jump o r).y = r.y ∧ (jump o r).sp = r.sp ∧
      (jump o r).flags = r.flags := by
  cases o <;> simp [jump]

@[simp] theorem branch_keeps (o : Operand) (r : Registers) (c : Bool) :
    (branch o r c).registers.a = r.a ∧ (branch o r c).registers.x = r.x ∧ (branch o r c).registers.y = r.y ∧
      (branch o r c).registers.sp = r.sp ∧ (branch o r c).registers.flags = r.flags := by
  cases c <;> simp [branch]

/-- The registers `r'` agree with `r` outside the footprint of an operation. -/
structure Within (op : Operation) (o : Operand) (r r' : Registers) : Prop where
  pc : op ∉ Operation.redirecting → r'.pc = r.pc
  a : op ∉ Operation.changingA → o ≠ .accumulator → r'.a = r.a
  x : op ∉ Operation.changingX → r'.x = r.x
  y : op ∉ Operation.changingY → r'.y = r.y
  sp : op ∉ Operation.changingSp → r'.sp = r.sp
  flags : ∀ f ∉ op.flags, r'.flags.get f = r.flags.get f

theorem ofOperation_within (op : Operation) (o : Operand) (r : Registers) (m : Memory) :
    Within op o r (ofOperation op o r m).registers := by
  cases op with
  | bcc | bcs | beq | bmi | bne | bpl | bvc | bvs =>
    constructor <;> simp [ofOperation, Operation.redirecting]
  | jmp | jsr | rts | brk =>
    constructor <;>
      simp [ofOperation, pullWord, pull, Operation.redirecting, Operation.changingSp, Operation.flags, Flag.forall,
        Flags.get]
  | sta | stx | sty | inc | dec | asl | lsr | rol | ror =>
    constructor <;>
      simp +contextual [ofOperation, modify, shift, Registers.withResult, Flags.withResult, store_a, Operation.flags,
        Flag.forall, Flags.get]
  | adc | sbc | cmp | cpx | cpy | bit =>
    constructor <;>
      simp [ofOperation, Arithmetic.add, Arithmetic.subtract, Arithmetic.compare, Flags.withResult,
        Operation.changingA, Operation.flags, Flag.forall, Flags.get]
  | pha | php | pla | plp | rti | txs =>
    constructor <;>
      simp [ofOperation, result, pull, pullWord, Registers.withResult, Flags.withResult, Operation.redirecting,
        Operation.changingA, Operation.changingSp, Operation.flags, Flag.forall, Flags.get]
  | nop | clc | sec | cli | sei | clv | cld | sed =>
    constructor <;> simp [ofOperation, Operation.flags, Flag.forall, Flags.get]
  | lda | ldx | ldy | and | ora | eor | inx | iny | dex | dey | tax | tay | txa | tya | tsx =>
    constructor <;>
      simp [ofOperation, result, Registers.withResult, Flags.withResult, Operation.changingA, Operation.changingX,
        Operation.changingY, Operation.flags, Flag.forall, Flags.get]

/-! ## Memory -/

theorem sp_sub_succ (sp : UInt8) (k : Nat) : sp - 1 - UInt8.ofNat k = sp - UInt8.ofNat (k + 1) := by
  rw [UInt8.ofNat_add]
  grind

/-- Each byte goes one cell below the one before, around the end of the stack page. -/
theorem push_writes (r : Registers) (bs : List UInt8) :
    (push r bs).writes = bs.mapIdx fun k b => ⟨stackCell (r.sp - UInt8.ofNat k), b⟩ := by
  induction bs generalizing r with
  | nil => rfl
  | cons b bs ih => simp [push, ih, List.mapIdx_cons, sp_sub_succ]

theorem mem_push_writes {r : Registers} {bs : List UInt8} {w : Write} (h : w ∈ (push r bs).writes) :
    ∃ k < bs.length, w.address = stackCell (r.sp - UInt8.ofNat k) := by
  rw [push_writes] at h
  obtain ⟨k, hk, rfl⟩ := List.mem_mapIdx.1 h
  exact ⟨k, hk, rfl⟩

theorem mem_store_writes {o : Operand} {r : Registers} {b : UInt8} {w : Write} (h : w ∈ (store o r b).writes) :
    o = .address w.address := by
  cases o <;> simp [store] at h
  rw [h]

/-- A byte is written where the operand stands for, or pushed. -/
theorem mem_ofOperation_writes {op : Operation} {o : Operand} {r : Registers} {m : Memory} {w : Write}
    (h : w ∈ (ofOperation op o r m).writes) :
    op ∈ Operation.storing ∧ o = .address w.address ∨
      ∃ k < op.pushes, w.address = stackCell (r.sp - UInt8.ofNat k) := by
  cases op with
  | sta | stx | sty | inc | dec | asl | lsr | rol | ror => exact .inl ⟨by decide, mem_store_writes h⟩
  | pha | php | jsr | brk => exact .inr (mem_push_writes h)
  | _ => cases h

/-! ## Addresses -/

theorem toNat_stackCell (sp : UInt8) : (stackCell sp).toNat = 256 + sp.toNat := by
  have h := Nat.shiftLeft_add_eq_or_of_lt sp.toNat_lt 1
  simp only [stackCell, UInt16.toNat_or, UInt8.toNat_toUInt16]
  exact h.symm

theorem toNat_stackCell_sub (sp : UInt8) {k : Nat} (h : k < 256) :
    (stackCell (sp - UInt8.ofNat k)).toNat = 256 + (sp.toNat + 256 - k) % 256 := by
  rw [toNat_stackCell, UInt8.toNat_sub, UInt8.toNat_ofNat_of_lt' h]
  omega

end Effect

theorem Memory.read_writes {ws : List Write} {a : UInt16} (h : ∀ w ∈ ws, w.address ≠ a) (m : Memory) :
    (ws.foldl (fun m w => m.write w.address w.value) m).read a = m.read a := by
  induction ws generalizing m with
  | nil => rfl
  | cons w ws ih =>
    rw [List.foldl_cons, ih (fun v hv => h v (by simp [hv])), read_write, if_neg (h w (by simp))]

theorem Memory.toNat_readWord (m : Memory) (a : UInt16) :
    (m.readWord a).toNat = (m.read a).toNat + 256 * (m.read (a + 1)).toNat := by
  rw [readWord, Encoding.toNat_word, Nat.add_comm]

/-- The byte after the last one of zero page is the first. -/
theorem Effect.toNat_zeroPageWord (m : Memory) (p : UInt8) :
    (zeroPageWord m p).toNat =
      (m.read (UInt16.ofNat p.toNat)).toNat + 256 * (m.read (UInt16.ofNat ((p.toNat + 1) % 256))).toNat := by
  have hcell : ∀ b : UInt8, b.toUInt16 = UInt16.ofNat b.toNat := fun b => UInt16.toNat_inj.1 (by simp)
  rw [zeroPageWord, Encoding.toNat_word, Nat.add_comm, hcell, hcell, UInt8.toNat_add]
  rfl

namespace Machine

theorem effectiveAddress?_of_operand {m : Machine} {mode : Mode} {a : UInt16}
    (h : Effect.operand mode m.registers m.memory = .address a) (hdata : mode ∉ [.indirect, .relative]) :
    m.effectiveAddress? mode = some a.toNat := by
  have hnext : ∀ k, UInt16.ofNat (m.registers.pc.toNat + k) = m.registers.pc + UInt16.ofNat k := by
    intro k
    rw [UInt16.ofNat_add, UInt16.ofNat_toNat]
  have hword : (m.memory.readWord (m.registers.pc + 1)).toNat =
      (m.memory.read (m.registers.pc + 1)).toNat + 256 * (m.memory.read (m.registers.pc + 2)).toNat := by
    rw [Memory.toNat_readWord, UInt16.add_assoc]
    rfl
  cases mode with
  | implied | accumulator | immediate => cases h
  | indirect | relative => simp at hdata
  | zeroPage | zeroPageX | zeroPageY =>
    cases h
    simp [effectiveAddress?, hnext]
  | absolute | absoluteX | absoluteY =>
    cases h
    simp [effectiveAddress?, hnext, hword]
  | indirectX | indirectY =>
    cases h
    simp [effectiveAddress?, hnext, Effect.toNat_zeroPageWord]

/-! ## Steps -/

theorem step_eq_ok {m m' : Machine} :
    m.step = .ok m' ↔ ∃ o, m.fetch = .ok o ∧ m' = m.apply (m.effect o) o.cycles := by
  simp only [step, stepWrites, map_eq_ok, execute]
  grind

theorem fetch_eq_ok {m : Machine} {o : Opcode} :
    m.fetch = .ok o ↔ Opcode.ofCode? m.code = some o ∧ m.registers.pc.toNat + o.size ≤ 65536 := by
  unfold fetch
  cases h : Opcode.ofCode? m.code with
  | none => simp
  | some row =>
    simp only []
    split <;> grind

theorem operand_eq_accumulator {mode : Mode} {r : Registers} {m : Memory}
    (h : Effect.operand mode r m = .accumulator) : mode = .accumulator := by
  cases mode with
  | accumulator => rfl
  | _ => cases h

theorem mem_writable {m : Machine} {o : Opcode} (ho : o ∈ Opcode.documented) {w : Write}
    (hw : w ∈ (m.effect o).writes) : w.address.toNat ∈ m.writable o := by
  rcases Effect.mem_ofOperation_writes hw with ⟨hop, haddress⟩ | ⟨k, hk, haddress⟩
  · have hmode : o.mode ≠ .accumulator := by
      intro hm
      rw [hm] at haddress
      cases haddress
    have hplace := effectiveAddress?_of_operand haddress (Opcode.storing_mode o ho hop)
    simp [writable, Opcode.Stores, hop, hmode, hplace]
  · have hstores : ¬ o.Stores := by
      intro hs
      have := Operation.pushes_storing _ hs.1
      omega
    have hlt := o.operation.pushes_lt
    rw [haddress, Effect.toNat_stackCell_sub _ (by omega), writable, if_neg hstores]
    exact List.mem_map.2 ⟨k, List.mem_range.2 hk, rfl⟩

theorem effectiveAddress?_zeroPage {m : Machine} {mode : Mode} (h : mode.IsZeroPage) :
    ∀ n ∈ m.effectiveAddress? mode, n < 0x100 := by
  intro n hn
  simp only [Mode.IsZeroPage, List.mem_cons, List.not_mem_nil, or_false] at h
  rcases h with rfl | rfl | rfl <;> simp only [effectiveAddress?, Option.mem_def, Option.some.injEq] at hn
  · rw [← hn]
    exact UInt8.toNat_lt _
  · omega
  · omega

theorem stackCells_page {m : Machine} {n : Nat} : ∀ c ∈ m.stackCells n, 0x100 ≤ c ∧ c ≤ 0x1FF := by
  intro c hc
  obtain ⟨k, -, rfl⟩ := List.mem_map.1 hc
  omega

theorem read_apply {m : Machine} {e : Effect} {n : Nat} {a : UInt16} (h : ∀ w ∈ e.writes, w.address ≠ a) :
    (m.apply e n).memory.read a = m.memory.read a :=
  Memory.read_writes h m.memory

theorem execute_footprint {m : Machine} {o : Opcode} (h : m.fetch = .ok o) :
    Footprint o m (m.apply (m.effect o) o.cycles) := by
  have hrow : o ∈ Opcode.documented := (Opcode.ofCode?_eq_some (fetch_eq_ok.1 h).1).1
  have hregisters := Effect.ofOperation_within o.operation (Effect.operand o.mode m.registers m.memory)
    { m.registers with pc := m.registers.pc + UInt16.ofNat o.size } m.memory
  constructor
  case cycles => rfl
  case pc =>
    intro hop
    refine (congrArg UInt16.toNat (hregisters.pc hop)).trans ?_
    simp
  case memory =>
    intro a ha
    apply read_apply
    rintro w hw rfl
    exact ha (mem_writable hrow hw)
  case zeroPage => exact effectiveAddress?_zeroPage
  case stackPage =>
    intro hs
    rw [writable, if_neg hs]
    exact stackCells_page
  case a =>
    intro ha
    simp only [Opcode.ChangesA, not_or, not_and] at ha
    refine hregisters.a ha.1 fun hacc => ?_
    have hmode := operand_eq_accumulator hacc
    exact ha.2 (Opcode.accumulator_shifts o hrow hmode) hmode
  case x => exact hregisters.x
  case y => exact hregisters.y
  case sp => exact hregisters.sp
  case flags => exact hregisters.flags

/-- A step changes nothing outside the footprint of the instruction at the program counter. -/
theorem step_footprint {m m' : Machine} (h : m.step = .ok m') :
    ∃ o, Opcode.ofCode? m.code = some o ∧ Footprint o m m' := by
  obtain ⟨o, ho, rfl⟩ := step_eq_ok.1 h
  exact ⟨o, (fetch_eq_ok.1 ho).1, execute_footprint ho⟩

/-- `STA $80,X` at `$0010`. With `$90` in X the operand is in zero page again, and it is the cell of the
opcode. -/
def overwriting : Machine where
  registers := { a := 0xEA, x := 0x90, pc := 0x0010 }
  memory := (Memory.zero.write 0x0010 0x95).write 0x0011 0x80

theorem step_footprint_overwriting :
    ∃ m', overwriting.step = .ok m' ∧ m'.memory.read 0x0010 = 0xEA ∧
      ∃ o, Opcode.ofCode? overwriting.code = some o ∧ Footprint o overwriting m' := by
  have hcode : overwriting.code = 0x95 := by
    simp [overwriting, code, Memory.read_write]
  have hbyte : overwriting.memory.read (overwriting.registers.pc + 1) = 0x80 := by
    simp [overwriting, Memory.read_write]
  have hrow : Opcode.ofCode? overwriting.code = some ⟨0x95, .sta, .zeroPageX, 4⟩ := by
    rw [hcode]
    exact Opcode.ofCode?_code ⟨0x95, .sta, .zeroPageX, 4⟩ (by decide +kernel)
  have hoperand : Effect.operand .zeroPageX overwriting.registers overwriting.memory = .address 0x0010 := by
    rw [Effect.operand, hbyte]
    rfl
  have hstep := step_eq_ok.2 ⟨_, fetch_eq_ok.2 ⟨hrow, by decide⟩, rfl⟩
  refine ⟨_, hstep, ?_, step_footprint hstep⟩
  simp only [apply, effect, hoperand, Effect.ofOperation, Effect.store, List.foldl_cons, List.foldl_nil,
    Memory.read_write, if_true]
  rfl

end Machine

end Mos6502
