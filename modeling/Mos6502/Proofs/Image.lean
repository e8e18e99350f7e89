import Mos6502.Image.Basic

/-!
# Bytes written in a row

What an image holds after bytes went into free cells from an address on: those
bytes there, everything else as before, and as many cells more in use.
-/
namespace Mos6502.Image

/-- Puts bytes into the cells from the `n`-th on. -/
def puts (i : Image) (n : Nat) : List UInt8 → Image
  | [] => i
  | b :: bs => (i.put (UInt16.ofNat n) b).puts (n + 1) bs

/-- The `size` cells from the `n`-th on exist and are holes. -/
def Free (i : Image) (n size : Nat) : Prop :=
  ∀ k < size, n + k < 65536 ∧ i.get? (UInt16.ofNat (n + k)) = none

theorem toNat_ofNat {n : Nat} (h : n < 65536) : (UInt16.ofNat n).toNat = n :=
  UInt16.toNat_ofNat_of_lt' h

theorem Free.bound {i : Image} {n size : Nat} (h : i.Free n size) (hs : 0 < size) : n + size ≤ 65536 := by
  have := (h (size - 1) (by omega)).1
  omega

/-- The cells after the first stay free when the first is written. -/
theorem Free.tail {i : Image} {n size : Nat} (h : i.Free n (size + 1)) (b : UInt8) :
    (i.put (UInt16.ofNat n) b).Free (n + 1) size := by
  intro k hk
  have hn := (h 0 (by omega)).1
  obtain ⟨hlt, hnone⟩ := h (k + 1) (by omega)
  rw [Nat.add_assoc, Nat.add_comm 1 k]
  refine ⟨hlt, ?_⟩
  rw [get?_put, if_neg, hnone]
  intro he
  have := congrArg UInt16.toNat he
  rw [toNat_ofNat (by omega), toNat_ofNat (by omega)] at this
  omega

/-- The bytes stand in their cells, and every other cell is as before. -/
theorem get?_puts {i : Image} {n : Nat} {bs : List UInt8} (h : i.Free n bs.length) (a : UInt16) :
    (i.puts n bs).get? a =
      if n ≤ a.toNat ∧ a.toNat < n + bs.length then bs[a.toNat - n]? else i.get? a := by
  induction bs generalizing i n with
  | nil => rw [puts, if_neg (by simp only [List.length_nil]; omega)]
  | cons b bs ih =>
    have hbound := h.bound (by simp)
    rw [puts, ih (h.tail b), get?_put]
    have ha : UInt16.ofNat n = a ↔ n = a.toNat := by
      rw [← UInt16.toNat_inj, toNat_ofNat (by simp at hbound; omega)]
    grind

theorem count_put {i : Image} {a : UInt16} (h : i.get? a = none) (b : UInt8) :
    (i.put a b).count = i.count + 1 := by
  have hlt := a.toNat_lt
  have hcell : i.cells[a.toNat] = none := h
  simp [count, put, Vector.countP_set, hcell]

theorem count_puts {i : Image} {n : Nat} {bs : List UInt8} (h : i.Free n bs.length) :
    (i.puts n bs).count = i.count + bs.length := by
  induction bs generalizing i n with
  | nil => rfl
  | cons b bs ih =>
    have h0 : i.get? (UInt16.ofNat n) = none := (h 0 (by simp)).2
    rw [puts, ih (h.tail b), count_put h0, List.length_cons]
    omega

@[simp] theorem count_empty : empty.count = 0 := by
  simp [count, empty, Vector.countP_replicate]

end Mos6502.Image
