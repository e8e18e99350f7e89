import Mos6502.Proofs.Image
import Mathlib.Data.List.Range

/-!
# The cells of an image

The assigned cells of an image, one after another. A part of an image is passed
cell by cell: a hole gives nothing, and bytes that stand in the image give
themselves.
-/
namespace Mos6502.Image

/-- The byte of the `n`-th cell; there are none from 65536 on. -/
def cell? (i : Image) (n : Nat) : Option UInt8 :=
  i.cells[n]?.join

theorem cell?_of_lt (i : Image) {n : Nat} (h : n < 65536) : i.cell? n = i.get? (UInt16.ofNat n) := by
  simp only [cell?, get?, toNat_ofNat h, Vector.getElem?_eq_getElem h, Option.join_some]
  rfl

theorem cell?_of_le (i : Image) {n : Nat} (h : 65536 ≤ n) : i.cell? n = none := by
  simp [cell?, h]

theorem lt_of_cell? {i : Image} {n : Nat} {b : UInt8} (h : i.cell? n = some b) : n < 65536 := by
  by_contra hn
  rw [cell?_of_le i (by omega)] at h
  cases h

/-! ## Bytes in a row -/

/-- The bytes stand in the image from the `n`-th cell on. -/
def Holds (i : Image) (n : Nat) (bs : List UInt8) : Prop :=
  ∀ k < bs.length, i.cell? (n + k) = bs[k]?

theorem Holds.bound {i : Image} {n : Nat} {bs : List UInt8} (h : i.Holds n bs) (hbs : bs ≠ []) :
    n + bs.length ≤ 65536 := by
  have hpos := List.length_pos_iff.2 hbs
  have hlast := h (bs.length - 1) (by omega)
  rw [List.getElem?_eq_getElem (by omega)] at hlast
  have := lt_of_cell? hlast
  omega

theorem holds_append {i : Image} {n : Nat} {bs cs : List UInt8} :
    i.Holds n (bs ++ cs) ↔ i.Holds n bs ∧ i.Holds (n + bs.length) cs := by
  constructor
  · intro h
    constructor
    · intro k hk
      rw [h k (by simp; omega), List.getElem?_append_left hk]
    · intro k hk
      rw [Nat.add_assoc, h (bs.length + k) (by simp; omega), List.getElem?_append_right (by omega)]
      simp
  · rintro ⟨hbs, hcs⟩ k hk
    by_cases hlt : k < bs.length
    · rw [hbs k hlt, List.getElem?_append_left hlt]
    · rw [List.length_append] at hk
      have := hcs (k - bs.length) (by omega)
      rw [show n + bs.length + (k - bs.length) = n + k by omega] at this
      rw [this, List.getElem?_append_right (by omega)]

theorem holds_cons {i : Image} {n : Nat} {b : UInt8} {bs : List UInt8} :
    i.Holds n (b :: bs) ↔ i.cell? n = some b ∧ i.Holds (n + 1) bs := by
  have happend := @holds_append i n [b] bs
  have hone : i.Holds n [b] ↔ i.cell? n = some b := by simp [Holds]
  rwa [hone] at happend

/-- The bytes with the cells they go to, from the `n`-th on. -/
def placed (n : Nat) (bs : List UInt8) : List (Nat × UInt8) :=
  bs.mapIdx fun k b => (n + k, b)

theorem placed_cons (n : Nat) (b : UInt8) (bs : List UInt8) : placed n (b :: bs) = (n, b) :: placed (n + 1) bs := by
  simp [placed, List.mapIdx_cons, Nat.add_assoc, Nat.add_comm 1]

theorem placed_append (n : Nat) (bs cs : List UInt8) :
    placed n (bs ++ cs) = placed n bs ++ placed (n + bs.length) cs := by
  induction bs generalizing n with
  | nil => rfl
  | cons b bs ih =>
    rw [List.cons_append, placed_cons, ih, placed_cons, List.cons_append, List.length_cons, Nat.add_assoc,
      Nat.add_comm 1]

theorem mem_placed {n m : Nat} {b : UInt8} {bs : List UInt8} :
    (m, b) ∈ placed n bs ↔ n ≤ m ∧ bs[m - n]? = some b := by
  simp only [placed, List.mem_mapIdx, Prod.mk.injEq]
  constructor
  · rintro ⟨k, hk, rfl, rfl⟩
    simp [hk]
  · rintro ⟨hle, hb⟩
    obtain ⟨hk, hget⟩ := List.getElem?_eq_some_iff.1 hb
    exact ⟨m - n, hk, by omega, hget⟩

/-! ## Assigned cells -/

/-- The assigned cells from `first` up to `stop`, by address. -/
def cellsIn (i : Image) (first stop : Nat) : List (Nat × UInt8) :=
  (List.range' first (stop - first)).filterMap fun n => (i.cell? n).map (n, ·)

theorem mem_cellsIn {i : Image} {first stop n : Nat} {b : UInt8} :
    (n, b) ∈ i.cellsIn first stop ↔ first ≤ n ∧ n < stop ∧ i.cell? n = some b := by
  simp only [cellsIn, List.mem_filterMap, List.mem_range'_1, Option.map_eq_some_iff, Prod.mk.injEq]
  constructor
  · rintro ⟨k, hk, c, hc, rfl, rfl⟩
    exact ⟨hk.1, by omega, hc⟩
  · rintro ⟨hfirst, hstop, hb⟩
    exact ⟨n, ⟨hfirst, by omega⟩, b, hb, rfl, rfl⟩

theorem cellsIn_of_le (i : Image) {first stop : Nat} (h : stop ≤ first) : i.cellsIn first stop = [] := by
  simp [cellsIn, Nat.sub_eq_zero_of_le h]

theorem cellsIn_of_lt (i : Image) {n stop : Nat} (h : n < stop) :
    i.cellsIn n stop = ((i.cell? n).map (n, ·)).toList ++ i.cellsIn (n + 1) stop := by
  have hlen : stop - n = (stop - (n + 1)) + 1 := by omega
  rw [cellsIn, hlen, List.range'_succ, List.filterMap_cons, cellsIn]
  cases i.cell? n <;> rfl

/-- Bytes that stand in the image are its cells there. -/
theorem cellsIn_of_holds {i : Image} {n stop : Nat} {bs : List UInt8} (hbytes : i.Holds n bs)
    (hstop : n + bs.length ≤ stop) : i.cellsIn n stop = placed n bs ++ i.cellsIn (n + bs.length) stop := by
  induction bs generalizing n with
  | nil => rfl
  | cons b bs ih =>
    obtain ⟨hb, hbs⟩ := holds_cons.1 hbytes
    rw [List.length_cons] at hstop
    rw [cellsIn_of_lt i (by omega), hb, ih hbs (by omega), placed_cons, List.length_cons, Nat.add_assoc,
      Nat.add_comm 1]
    rfl

theorem holds_of_placed {i : Image} {n first stop : Nat} {bs : List UInt8}
    (h : ∀ c ∈ placed n bs, c ∈ i.cellsIn first stop) : i.Holds n bs := by
  intro k hk
  have hget := List.getElem?_eq_getElem hk
  have hcell : (n + k, bs[k]) ∈ placed n bs := mem_placed.2 ⟨by omega, by rw [Nat.add_sub_cancel_left, hget]⟩
  rw [hget, (mem_cellsIn.1 (h _ hcell)).2.2]

/-! ## Images of bytes -/

theorem foldl_put_fst (bs : List UInt8) (i : Image) (n : Nat) :
    (bs.foldl (fun (i, n) b => (i.put (UInt16.ofNat n) b, n + 1)) (i, n)).1 = i.puts n bs := by
  induction bs generalizing i n with
  | nil => rfl
  | cons b bs ih => exact ih _ _

theorem free_empty {n size : Nat} (h : n + size ≤ 65536) : empty.Free n size := by
  intro k hk
  exact ⟨by omega, get?_empty _⟩

theorem holds_ofBytes {base : UInt16} {bs : List UInt8} (h : base.toNat + bs.length ≤ 65536) :
    (ofBytes base bs).Holds base.toNat bs := by
  intro k hk
  have htake : bs.take (65536 - base.toNat) = bs := List.take_of_length_le (by omega)
  rw [cell?_of_lt _ (by omega), ofBytes, htake, foldl_put_fst, get?_puts (free_empty h), toNat_ofNat (by omega),
    if_pos (by omega), Nat.add_sub_cancel_left]

end Mos6502.Image
