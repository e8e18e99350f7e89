import Mos6502.Proofs.Footprint

/-!
# Calls return

A call to a subroutine pushes the address of its last byte, and a break pushes
the address two bytes on and the flags. The matching return pulls them again, so
it goes back to the caller with the stack pointer and, after a break, the flags
that the caller had. It only matters that the pushed cells are on top of the
stack again and hold what was pushed, and the cells may lie around the end of the
stack page.

Main statement: `Machine.calls_return`.
-/
namespace Mos6502

namespace Effect

/-! ## What is pushed can be pulled -/

theorem push_registers (r : Registers) (bs : List UInt8) :
    (push r bs).registers = { r with sp := r.sp - UInt8.ofNat bs.length } := by
  induction bs generalizing r with
  | nil => simp [push]
  | cons b bs ih => simp [push, ih, sp_sub_succ]

theorem push_sp (r : Registers) (bs : List UInt8) : (push r bs).registers.sp = r.sp - UInt8.ofNat bs.length := by
  rw [push_registers]

theorem stackCell_sub_ne {sp : UInt8} {k : Nat} (hpos : 0 < k) (hlt : k < 256) :
    stackCell (sp - UInt8.ofNat k) ≠ stackCell sp := by
  intro h
  have heq := congrArg UInt16.toNat h
  rw [toNat_stackCell_sub sp hlt, toNat_stackCell] at heq
  have := sp.toNat_lt
  omega

/-- After pushes a byte is in the cell it was pushed to, as long as they do not go round the whole stack page. -/
theorem read_push (r : Registers) {bs : List UInt8} (hlen : bs.length ≤ 256) (m : Memory) {k : Nat} {b : UInt8}
    (hk : bs[k]? = some b) :
    ((push r bs).writes.foldl (fun m w => m.write w.address w.value) m).read
      (stackCell (r.sp - UInt8.ofNat k)) = b := by
  induction bs generalizing r m k with
  | nil => cases hk
  | cons c bs ih =>
    rw [List.length_cons] at hlen
    cases k with
    | zero =>
      cases hk
      -- the later bytes go to other cells
      have hothers : ∀ w ∈ (push { r with sp := r.sp - 1 } bs).writes, w.address ≠ stackCell r.sp := by
        intro w hw
        obtain ⟨j, hj, hcell⟩ := mem_push_writes hw
        rw [hcell, sp_sub_succ]
        exact stackCell_sub_ne (Nat.succ_pos j) (by omega)
      simp [push, Memory.read_writes hothers, Memory.read_write]
    | succ k =>
      rw [← sp_sub_succ]
      exact ih { r with sp := r.sp - 1 } (by omega) _ hk

/-- A word that was pushed is pulled. -/
theorem pullWord_pushed {r : Registers} {m : Memory} {sp : UInt8} {w : UInt16} (hsp : r.sp = sp - 2)
    (hhigh : m.read (stackCell sp) = (w >>> 8).toUInt8) (hlow : m.read (stackCell (sp - 1)) = w.toUInt8) :
    pullWord r m = (w, { r with sp }) := by
  have hfirst : r.sp + 1 = sp - 1 := by
    rw [hsp]
    grind
  have hsecond : sp - 1 + 1 = sp := by grind
  simp only [pullWord, pull, hfirst, hsecond, hhigh, hlow, Encoding.word_littleEndian]

/-- The flags come back from the stack without the break flag. -/
theorem pulledFlags_pack (f : Flags) : pulledFlags (f.pack ||| 0x30) = { f with brk := false } := by
  obtain ⟨n, v, brk, d, i, z, c⟩ := f
  revert n v brk d i z c
  decide

end Effect

namespace Machine

/-! ## Frames -/

/-- The bytes are on top of the stack, pushed one after another from where the stack pointer of `s` was. -/
structure Pushed (s : Machine) (bs : List UInt8) (t : Machine) : Prop where
  sp : t.registers.sp = s.registers.sp - UInt8.ofNat bs.length
  cell {k : Nat} {b : UInt8} : bs[k]? = some b →
    t.memory.read (Effect.stackCell (s.registers.sp - UInt8.ofNat k)) = b

/-- The stack pointer is the same in `t` and `u`, and so are the cells that `n` pushes from `s` go to. -/
structure KeepsFrame (s : Machine) (n : Nat) (t u : Machine) : Prop where
  sp : u.registers.sp = t.registers.sp
  cells (a : UInt16) : a.toNat ∈ s.stackCells n → u.memory.read a = t.memory.read a

theorem Pushed.kept {s t u : Machine} {bs : List UInt8} (h : s.Pushed bs t) (hlen : bs.length ≤ 256)
    (hframe : s.KeepsFrame bs.length t u) : s.Pushed bs u where
  sp := hframe.sp.trans h.sp
  cell {k b} hk := by
    have hlt : k < bs.length := (List.getElem?_eq_some_iff.1 hk).1
    rw [hframe.cells _ ?_, h.cell hk]
    rw [Effect.toNat_stackCell_sub _ (by omega)]
    exact List.mem_map.2 ⟨k, List.mem_range.2 hlt, rfl⟩

/-- The word under further bytes is pulled once the stack pointer is back at it. -/
theorem Pushed.pullWord {s u : Machine} {w : UInt16} (bs : List UInt8) (h : s.Pushed (Effect.bigEndian w ++ bs) u)
    {r : Registers} (hr : r.sp = s.registers.sp - 2) :
    Effect.pullWord r u.memory = (w, { r with sp := s.registers.sp }) :=
  Effect.pullWord_pushed hr (by simpa using h.cell (k := 0) rfl) (h.cell (k := 1) rfl)

theorem pushed_apply {s : Machine} {e : Effect} {bs : List UInt8} (r : Registers) (hlen : bs.length ≤ 256)
    (hr : r.sp = s.registers.sp) (hsp : e.registers.sp = (Effect.push r bs).registers.sp)
    (hwrites : e.writes = (Effect.push r bs).writes) (n : Nat) : s.Pushed bs (s.apply e n) where
  sp := by
    rw [← hr, ← Effect.push_sp]
    exact hsp
  cell hk := by
    rw [← hr]
    have := Effect.read_push r hlen s.memory hk
    rwa [← hwrites] at this

/-! ## Calls and returns -/

section Row
variable {m m' : Machine} (o : Opcode) (ho : o ∈ Opcode.documented) (hcode : m.code = o.code)
include ho hcode

theorem eq_apply_of_step (h : m.step = .ok m') : m' = m.apply (m.effect o) o.cycles := by
  obtain ⟨row, hfetch, rfl⟩ := step_eq_ok.1 h
  have hrow := (fetch_eq_ok.1 hfetch).1
  rw [hcode, Opcode.ofCode?_code o ho] at hrow
  cases hrow
  rfl

theorem step_of_code (hfits : m.registers.pc.toNat + o.size ≤ 65536) :
    m.step = .ok (m.apply (m.effect o) o.cycles) := by
  have hrow : Opcode.ofCode? m.code = some o := by
    rw [hcode]
    exact Opcode.ofCode?_code o ho
  exact step_eq_ok.2 ⟨o, fetch_eq_ok.2 ⟨hrow, hfits⟩, rfl⟩

end Row

/-- A call pushes the address of its last byte. -/
theorem pushed_jsr {s t : Machine} (hcode : s.code = 0x20) (h : s.step = .ok t) :
    s.Pushed (Effect.bigEndian (s.registers.pc + 2)) t := by
  have hlast : s.registers.pc + UInt16.ofNat 3 - 1 = s.registers.pc + 2 := by grind
  rw [eq_apply_of_step ⟨0x20, .jsr, .absolute, 6⟩ (by decide +kernel) hcode h, ← hlast]
  refine pushed_apply { s.registers with pc := s.registers.pc + UInt16.ofNat 3 } ?_ rfl ?_ ?_ _
  · simp [Effect.bigEndian]
  · exact (Effect.jump_keeps _ _).2.2.2.1
  · rfl

/-- A break pushes the address two bytes on, and the status. -/
theorem pushed_brk {s t : Machine} (hcode : s.code = 0x00) (h : s.step = .ok t) :
    s.Pushed (Effect.bigEndian (s.registers.pc + 2) ++ [s.registers.flags.pack ||| 0x30]) t := by
  have hnext : s.registers.pc + UInt16.ofNat 1 + 1 = s.registers.pc + 2 := by grind
  rw [eq_apply_of_step ⟨0x00, .brk, .implied, 7⟩ (by decide +kernel) hcode h, ← hnext]
  refine pushed_apply { s.registers with pc := s.registers.pc + UInt16.ofNat 1 } ?_ rfl ?_ ?_ _
  · simp [Effect.bigEndian]
  · rfl
  · rfl

theorem step_rts {s u : Machine} {w : UInt16} (hcode : u.code = 0x60) (h : s.Pushed (Effect.bigEndian w) u) :
    ∃ v, u.step = .ok v ∧ v.registers.pc = w + 1 ∧ v.registers.sp = s.registers.sp := by
  have htop : u.registers.sp = s.registers.sp - 2 := h.sp
  refine ⟨_, step_of_code ⟨0x60, .rts, .implied, 6⟩ (by decide +kernel) hcode u.registers.pc.toNat_lt, ?_⟩
  simp only [apply, effect, Effect.ofOperation, htop, Pushed.pullWord [] h, and_self]

theorem step_rti {s u : Machine} {w : UInt16} {f : Flags} (hcode : u.code = 0x40)
    (h : s.Pushed (Effect.bigEndian w ++ [f.pack ||| 0x30]) u) :
    ∃ v, u.step = .ok v ∧ v.registers.pc = w ∧ v.registers.sp = s.registers.sp ∧
      v.registers.flags = { f with brk := false } := by
  have htop : u.registers.sp + 1 = s.registers.sp - 2 := by
    rw [h.sp]
    simp only [Effect.bigEndian, List.length_append, List.length_cons, List.length_nil]
    grind
  have hstatus : u.memory.read (Effect.stackCell (s.registers.sp - 2)) = f.pack ||| 0x30 := h.cell (k := 2) rfl
  refine ⟨_, step_of_code ⟨0x40, .rti, .implied, 6⟩ (by decide +kernel) hcode u.registers.pc.toNat_lt, ?_⟩
  simp only [apply, effect, Effect.ofOperation, Effect.pull, htop, hstatus, h.pullWord, Effect.pulledFlags_pack,
    and_self]

/-- A return from a subroutine goes on after the call, and a return from a break two bytes after the break,
with the stack pointer of the caller. A break also gives its flags back. Nothing is asked of the machine
that returns but the stack pointer and the pushed cells. -/
theorem calls_return {s t : Machine} (h : s.step = .ok t) (u : Machine) :
    (s.code = 0x20 → s.KeepsFrame 2 t u → u.code = 0x60 →
      ∃ v, u.step = .ok v ∧ v.registers.pc = s.registers.pc + 3 ∧ v.registers.sp = s.registers.sp) ∧
    (s.code = 0x00 → s.KeepsFrame 3 t u → u.code = 0x40 →
      ∃ v, u.step = .ok v ∧ v.registers.pc = s.registers.pc + 2 ∧ v.registers.sp = s.registers.sp ∧
        v.registers.flags = { s.registers.flags with brk := false }) := by
  constructor
  · intro hcall hframe hreturn
    have hpushed := (pushed_jsr hcall h).kept (by simp [Effect.bigEndian]) hframe
    have hafter : s.registers.pc + 3 = s.registers.pc + 2 + 1 := by grind
    rw [hafter]
    exact step_rts hreturn hpushed
  · intro hbreak hframe hreturn
    have hpushed := (pushed_brk hbreak h).kept (by simp [Effect.bigEndian]) hframe
    exact step_rti hreturn hpushed

/-- A call at `$0200` of a subroutine that breaks at `$0300`. The break goes to a return at `$0400`, and the
subroutine returns at `$0302`. The bytes that the call pushes go to both ends of the stack page. -/
def nested : Machine where
  registers := { sp := 0x00, pc := 0x0200, flags := { carry := true } }
  memory := (((Memory.zero.load 0x0200 [0x20, 0x00, 0x03]).load 0x0302 [0x60]).load 0x0400 [0x40]).load 0xFFFE
    [0x00, 0x04]

/-- In the subroutine, before the break. -/
def called : Machine where
  registers := { sp := 0xFE, pc := 0x0300, flags := { carry := true } }
  memory := (nested.memory.write 0x0100 0x02).write 0x01FF 0x02
  cycles := 6

theorem step_nested : nested.code = 0x20 ∧ nested.step = .ok called := by
  have hcode : nested.code = 0x20 := by simp [nested, code, Memory.load, Memory.read_write]
  have hhigh : (0x03 : UInt16) <<< 8 = 0x0300 := by decide
  have htarget : nested.memory.readWord (nested.registers.pc + 1) = 0x0300 := by
    simp [nested, Memory.readWord, Memory.load, Memory.read_write, hhigh]
  refine ⟨hcode, ?_⟩
  rw [step_of_code ⟨0x20, .jsr, .absolute, 6⟩ (by decide +kernel) hcode (by decide)]
  simp only [apply, effect, Effect.ofOperation, Effect.operand, htarget]
  rfl

/-- At the return from the break. -/
def broken : Machine where
  registers := { sp := 0xFB, pc := 0x0400, flags := { carry := true, brk := true, interrupt := true } }
  memory := ((called.memory.write 0x01FE 0x03).write 0x01FD 0x02).write 0x01FC 0x31
  cycles := 13

theorem step_called : called.code = 0x00 ∧ called.step = .ok broken := by
  have hcode : called.code = 0x00 := by simp [called, nested, code, Memory.load, Memory.read_write]
  have hhigh : (0x04 : UInt16) <<< 8 = 0x0400 := by decide
  have htarget : called.memory.readWord 0xFFFE = 0x0400 := by
    simp [called, nested, Memory.readWord, Memory.load, Memory.read_write, hhigh]
  refine ⟨hcode, ?_⟩
  rw [step_of_code ⟨0x00, .brk, .implied, 7⟩ (by decide +kernel) hcode (by decide)]
  simp only [apply, effect, Effect.ofOperation, htarget]
  rfl

theorem calls_return_nested :
    ∃ c d, nested.step = .ok called ∧ called.step = .ok broken ∧ broken.step = .ok c ∧ c.step = .ok d ∧
      nested.KeepsFrame 2 called c ∧ c.registers.pc = 0x0302 ∧ c.registers.sp = 0xFE ∧
      c.registers.flags = { carry := true } ∧ d.registers.pc = 0x0203 ∧ d.registers.sp = 0x00 := by
  obtain ⟨hcall, hcalled⟩ := step_nested
  obtain ⟨hbreak, hbroken⟩ := step_called
  have hrti : broken.code = 0x40 := by simp [broken, called, nested, code, Memory.load, Memory.read_write]
  obtain ⟨c, hc, hpc, hsp, hflags⟩ := (calls_return hbroken broken).2 hbreak ⟨rfl, fun _ _ => rfl⟩ hrti
  have hmemory : c.memory = broken.memory := by
    rw [eq_apply_of_step ⟨0x40, .rti, .implied, 6⟩ (by decide +kernel) hrti hc]
    rfl
  have hrts : c.code = 0x60 := by
    rw [code, hpc, hmemory]
    simp [broken, called, nested, Memory.load, Memory.read_write]
  have hframe : nested.KeepsFrame 2 called c := by
    refine ⟨hsp, fun a ha => ?_⟩
    have hcells : nested.stackCells 2 = [0x100, 0x1FF] := by decide
    simp only [hcells, List.mem_cons, List.not_mem_nil, or_false] at ha
    -- the break pushed below the frame of the call
    have hne (b : UInt16) (hb : 0x100 < b.toNat ∧ b.toNat < 0x1FF) : b ≠ a := by
      rintro rfl
      omega
    rw [hmemory]
    simp [broken, Memory.read_write, hne]
  obtain ⟨d, hd, hback, hstack⟩ := (calls_return hcalled c).1 hcall hframe hrts
  exact ⟨c, d, hcalled, hbroken, hc, hd, hframe, hpc, hsp, hflags, hback, hstack⟩

end Machine

end Mos6502
