import Mathlib.Data.List.Nodup
import Mos6502.Proofs.Returns

/-!
# The stack is last in, first out

Bytes that are pushed one after another go to cells of the stack page, each one
below the one before and the last cell below the first. Up to 256 of them go to
different cells. Pulling as many gives them back from the last one to the first
and leaves the stack pointer where it was.

Main statement: `Machine.stack_lifo`.
-/
namespace Mos6502

namespace Machine

/-! ## Pushes and pulls -/

/-- Pushes a byte. -/
def push (m : Machine) (b : UInt8) : Machine :=
  m.apply (Effect.push m.registers [b]) 0

/-- Pushes bytes, one after another. -/
def pushAll (m : Machine) (bs : List UInt8) : Machine :=
  bs.foldl push m

/-- Pulls a byte. -/
def pull (m : Machine) : UInt8 × Machine :=
  let (b, r) := Effect.pull m.registers m.memory
  (b, { m with registers := r })

/-- Pulls `n` bytes, one after another. -/
def pullAll (m : Machine) : Nat → List UInt8 × Machine
  | 0 => ([], m)
  | n + 1 =>
    let (b, m) := m.pull
    let (bs, m) := m.pullAll n
    (b :: bs, m)

/-- Instructions that push several bytes push them one after another. -/
theorem pushAll_eq (m : Machine) (bs : List UInt8) : m.pushAll bs = m.apply (Effect.push m.registers bs) 0 := by
  induction bs generalizing m with
  | nil => rfl
  | cons b bs ih => exact ih (m.push b)

theorem pushed_pushAll (m : Machine) {bs : List UInt8} (h : bs.length ≤ 256) : m.Pushed bs (m.pushAll bs) := by
  rw [pushAll_eq]
  exact pushed_apply m.registers h rfl rfl rfl 0

/-- The byte that was pushed last is pulled first, and those before it are on top of the stack then. -/
theorem Pushed.pull {s t : Machine} {bs : List UInt8} {b : UInt8} (h : s.Pushed (bs ++ [b]) t) :
    t.pull.1 = b ∧ s.Pushed bs t.pull.2 := by
  have hsp : t.registers.sp + 1 = s.registers.sp - UInt8.ofNat bs.length := by
    rw [h.sp, List.length_append, List.length_singleton, UInt8.ofNat_add]
    grind
  constructor
  · simp only [Machine.pull, Effect.pull, hsp]
    exact h.cell (by simp)
  · refine ⟨hsp, fun {k c} hk => h.cell ?_⟩
    rw [List.getElem?_append_left (List.getElem?_eq_some_iff.1 hk).1, hk]

/-- Pulling as many bytes as were pushed. -/
theorem Pushed.pullAll {s t : Machine} {bs : List UInt8} (h : s.Pushed bs t) :
    t.pullAll bs.length = (bs.reverse, { t with registers := { t.registers with sp := s.registers.sp } }) := by
  -- from the end of the list, since the byte that was pushed last is on top
  induction bs using List.reverseRecOn generalizing t with
  | nil =>
    have hsp : t.registers.sp = s.registers.sp := by simpa using h.sp
    simp [Machine.pullAll, ← hsp]
  | append_singleton bs b ih =>
    obtain ⟨hbyte, hrest⟩ := h.pull
    rw [List.length_append, List.length_singleton, Machine.pullAll]
    simp only [ih hrest, hbyte, List.reverse_append, List.reverse_singleton, List.singleton_append]
    rfl

/-! ## Cells -/

theorem nodup_stackCells (m : Machine) {n : Nat} (h : n ≤ 256) : (m.stackCells n).Nodup := by
  refine List.Nodup.map_on (fun j hj k hk heq => ?_) List.nodup_range
  rw [List.mem_range] at hj hk
  have hsp := m.registers.sp.toNat_lt
  -- two of at most 256 steps down from the same cell differ by less than the page
  omega

/-- Pushes write to their stack cells only. -/
theorem read_pushAll {m : Machine} {bs : List UInt8} (h : bs.length ≤ 256) {a : UInt16}
    (ha : a.toNat ∉ m.stackCells bs.length) : (m.pushAll bs).memory.read a = m.memory.read a := by
  rw [pushAll_eq]
  refine read_apply fun w hw heq => ha ?_
  obtain ⟨k, hk, hcell⟩ := Effect.mem_push_writes hw
  rw [← heq, hcell, Effect.toNat_stackCell_sub _ (by omega)]
  exact List.mem_map.2 ⟨k, List.mem_range.2 hk, rfl⟩

/-- Each byte is in its own cell of the stack page after the pushes. -/
theorem Pushed.read_cell {s t : Machine} {bs : List UInt8} (h : s.Pushed bs t) (hlen : bs.length ≤ 256) {k : Nat}
    {b : UInt8} {a : UInt16} (hk : bs[k]? = some b) (ha : (s.stackCells bs.length)[k]? = some a.toNat) :
    t.memory.read a = b := by
  have hlt := (List.getElem?_eq_some_iff.1 hk).1
  have hcell : a = Effect.stackCell (s.registers.sp - UInt8.ofNat k) := by
    rw [← UInt16.toNat_inj, Effect.toNat_stackCell_sub _ (by omega)]
    simpa [stackCells, hlt] using ha.symm
  rw [hcell]
  exact h.cell hk

/-- Up to 256 bytes that are pushed are pulled in reverse order. This brings back the stack pointer and keeps the
other registers. The bytes go to different cells of the stack page, whether or not the stack pointer goes around its
end, and no other cell is changed. -/
theorem stack_lifo (m : Machine) {bs : List UInt8} (h : bs.length ≤ 256) :
    (m.pushAll bs).pullAll bs.length = (bs.reverse, { m with memory := (m.pushAll bs).memory }) ∧
      (∀ a : UInt16, a.toNat ∉ m.stackCells bs.length → (m.pushAll bs).memory.read a = m.memory.read a) ∧
      (∀ (k : Nat) (b : UInt8) (a : UInt16), bs[k]? = some b → (m.stackCells bs.length)[k]? = some a.toNat →
        (m.pushAll bs).memory.read a = b) ∧
      (m.stackCells bs.length).Nodup ∧ ∀ c ∈ m.stackCells bs.length, 0x0100 ≤ c ∧ c ≤ 0x01FF := by
  have hpushed := pushed_pushAll m h
  refine ⟨?_, fun a => read_pushAll h, fun k b a => hpushed.read_cell h, nodup_stackCells m h, stackCells_page⟩
  have hregisters : { (m.pushAll bs).registers with sp := m.registers.sp } = m.registers := by
    rw [pushAll_eq]
    simp only [apply, Effect.push_registers]
  have hcycles : (m.pushAll bs).cycles = m.cycles := by
    rw [pushAll_eq]
    rfl
  rw [hpushed.pullAll, hregisters, hcycles]

/-- The whole stack page is pushed and pulled, from a stack pointer near its lower end. -/
theorem stack_lifo_page :
    let m : Machine := ⟨{ sp := 0x02 }, Memory.zero, 0⟩
    let bs := (List.range 256).map UInt8.ofNat
    bs.length = 256 ∧ ((m.pushAll bs).pullAll 256).1 = bs.reverse ∧
      ((m.pushAll bs).pullAll 256).2.registers.sp = 0x02 ∧ (m.pushAll bs).memory.read 0x0102 = 0 ∧
      (m.pushAll bs).memory.read 0x01FF = 3 ∧ (m.pushAll bs).memory.read 0x0103 = 255 ∧
      (m.pushAll bs).memory.read 0x00FF = 0 := by
  intro m bs
  have hlength : bs.length = 256 := by simp [bs]
  obtain ⟨hpull, hothers, hcells, -, hpage⟩ := stack_lifo m (Nat.le_of_eq hlength)
  rw [hlength] at hpull hothers hcells hpage
  refine ⟨hlength, by rw [hpull], by rw [hpull], ?_, ?_, ?_, ?_⟩
  · exact hcells 0 0 0x0102 (by decide) (by decide)
  · exact hcells 3 3 0x01FF (by decide) (by decide)
  · exact hcells 255 255 0x0103 (by decide) (by decide)
  · rw [hothers 0x00FF fun h => absurd (hpage _ h).1 (by decide)]
    exact Memory.read_zero _

end Machine

end Mos6502
