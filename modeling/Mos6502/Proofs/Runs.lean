import Mos6502.Proofs.Cells
import Mathlib.Data.List.Pairwise
import Mathlib.Data.List.Perm.Basic

/-!
# Maximal runs

The runs of an image are its maximal runs of assigned cells, by address. They
hold every assigned cell once, and between two of them there is a hole.
-/
namespace Mos6502.Image

namespace Run

/-- The cell after the run. -/
def stop (r : Run) : Nat :=
  r.start.toNat + r.bytes.length

/-- The cells of the run. -/
def cells (r : Run) : List (Nat × UInt8) :=
  placed r.start.toNat r.bytes

/-- The bytes stand in the image, and the run goes on neither way. -/
structure Maximal (r : Run) (i : Image) : Prop where
  nonempty : r.bytes ≠ []
  holds : i.Holds r.start.toNat r.bytes
  before : ∀ n, n + 1 = r.start.toNat → i.cell? n = none
  after : i.cell? r.stop = none

theorem start_lt_stop {r : Run} (h : r.bytes ≠ []) : r.start.toNat < r.stop :=
  Nat.lt_add_of_pos_right (List.length_pos_iff.2 h)

/-! ## Maximal runs that meet -/

theorem cell?_isSome {r : Run} {i : Image} (h : i.Holds r.start.toNat r.bytes) {n : Nat}
    (hle : r.start.toNat ≤ n) (hlt : n < r.stop) : i.cell? n ≠ none := by
  unfold stop at hlt
  have hget := h (n - r.start.toNat) (by omega)
  rw [Nat.add_sub_cancel' hle, List.getElem?_eq_getElem (by omega)] at hget
  simp [hget]

theorem Maximal.start_le {r s : Run} {i : Image} (hr : r.Maximal i) (hs : s.Maximal i) {n : Nat}
    (hnr : n < r.stop) (hns : s.start.toNat ≤ n) : s.start.toNat ≤ r.start.toNat := by
  by_contra hlt
  -- the cell before the later start belongs to the earlier run
  have hhole := hs.before (s.start.toNat - 1) (by omega)
  exact cell?_isSome hr.holds (by omega) (by omega) hhole

theorem Maximal.stop_le {r s : Run} {i : Image} (hr : r.Maximal i) (hs : s.Maximal i) {n : Nat}
    (hnr : n < r.stop) (hns : s.start.toNat ≤ n) : s.stop ≤ r.stop := by
  by_contra hlt
  exact cell?_isSome hs.holds (by omega) (by omega) hr.after

/-- Two maximal runs with a cell in common are one run. -/
theorem Maximal.unique {r s : Run} {i : Image} (hr : r.Maximal i) (hs : s.Maximal i) {n : Nat}
    (hnr : r.start.toNat ≤ n ∧ n < r.stop) (hns : s.start.toNat ≤ n ∧ n < s.stop) : r = s := by
  have hstart : r.start.toNat = s.start.toNat :=
    Nat.le_antisymm (hs.start_le hr hns.2 hnr.1) (hr.start_le hs hnr.2 hns.1)
  have hstop : r.stop = s.stop := Nat.le_antisymm (hs.stop_le hr hns.2 hnr.1) (hr.stop_le hs hnr.2 hns.1)
  have hlen : r.bytes.length = s.bytes.length := by
    unfold stop at hstop
    omega
  have hbytes : r.bytes = s.bytes := by
    apply List.ext_getElem?
    intro k
    by_cases hk : k < r.bytes.length
    · rw [← hr.holds k hk, hstart, hs.holds k (by omega)]
    · rw [List.getElem?_eq_none (by omega), List.getElem?_eq_none (by omega)]
  obtain ⟨rstart, rbytes⟩ := r
  obtain ⟨sstart, sbytes⟩ := s
  cases UInt16.toNat_inj.1 hstart
  cases hbytes
  rfl

end Run

/-! ## Cells put in front of runs -/

theorem cellList_eq (i : Image) : i.cellList.map (fun c => (c.1.toNat, c.2)) = i.cellsIn 0 65536 := by
  have hcells : i.cells.toList.zipIdx = (List.range' 0 65536).map fun n => (i.cell? n, n) := by
    apply List.ext_getElem
    · simp
    · intro n hn _
      have hn : n < 65536 := by simpa using hn
      simp [cell?, hn]
  rw [cellList, hcells, List.filterMap_map, List.map_filterMap, cellsIn]
  apply List.filterMap_congr
  intro n hn
  have hlt : n < 65536 := by simpa using (List.mem_range'_1.1 hn).2
  cases h : i.cell? n <;> simp [h, hlt]

theorem cells_prepend (c : UInt16 × UInt8) (rs : List Run) :
    (prepend c rs).flatMap Run.cells = (c.1.toNat, c.2) :: rs.flatMap Run.cells := by
  cases rs with
  | nil => rfl
  | cons r rs =>
    rw [prepend]
    split
    · rename_i hnext
      simp [Run.cells, ← hnext, placed_cons]
    · simp [Run.cells, placed]

theorem cells_foldr (cs : List (UInt16 × UInt8)) :
    (cs.foldr prepend []).flatMap Run.cells = cs.map fun c => (c.1.toNat, c.2) := by
  induction cs with
  | nil => rfl
  | cons c cs ih => rw [List.foldr_cons, cells_prepend, ih, List.map_cons]

theorem nonempty_foldr (cs : List (UInt16 × UInt8)) : ∀ r ∈ cs.foldr prepend [], r.bytes ≠ [] := by
  induction cs with
  | nil => nofun
  | cons c cs ih =>
    rw [List.foldr_cons]
    cases hrs : cs.foldr prepend [] with
    | nil => simp [prepend]
    | cons r rs =>
      rw [hrs] at ih
      rw [prepend]
      split
      · exact List.forall_mem_cons.2 ⟨by simp, fun s hs => ih s (by simp [hs])⟩
      · exact List.forall_mem_cons.2 ⟨by simp, ih⟩

/-- The runs of cells that ascend lie apart. -/
theorem apart_foldr {cs : List (UInt16 × UInt8)} (h : cs.Pairwise fun c d => c.1 < d.1) :
    (cs.foldr prepend []).Pairwise fun r s => r.stop < s.start.toNat := by
  induction cs with
  | nil => exact .nil
  | cons c cs ih =>
    obtain ⟨hfirst, hrest⟩ := List.pairwise_cons.1 h
    have hapart := ih hrest
    have hnonempty := nonempty_foldr cs
    have hcells := cells_foldr cs
    rw [List.foldr_cons]
    cases hrs : cs.foldr prepend [] with
    | nil => simp [prepend]
    | cons r rs =>
      rw [hrs] at hapart hnonempty hcells
      obtain ⟨hhead, htail⟩ := List.pairwise_cons.1 hapart
      have hr := hnonempty r (by simp)
      have hrstop := Run.start_lt_stop hr
      -- the first run starts with a later cell
      have hlater : c.1.toNat < r.start.toNat := by
        obtain ⟨b, hb⟩ : ∃ b, (r.start.toNat, b) ∈ r.cells :=
          ⟨r.bytes.head hr, mem_placed.2 ⟨Nat.le_refl _, by simp [List.head_eq_getElem]⟩⟩
        have hmem : (r.start.toNat, b) ∈ (r :: rs).flatMap Run.cells := by simp [hb]
        rw [hcells] at hmem
        obtain ⟨d, hd, heq⟩ := List.mem_map.1 hmem
        have := UInt16.lt_iff_toNat_lt.1 (hfirst d hd)
        simp only [Prod.mk.injEq] at heq
        omega
      rw [prepend]
      split
      · rename_i hnext
        refine List.pairwise_cons.2 ⟨?_, htail⟩
        intro s hs
        have := hhead s hs
        simp only [Run.stop, List.length_cons] at this ⊢
        omega
      · rename_i hnext
        refine List.pairwise_cons.2 ⟨?_, hapart⟩
        intro s hs
        have hone : Run.stop ⟨c.1, [c.2]⟩ = c.1.toNat + 1 := rfl
        rcases List.mem_cons.1 hs with rfl | hs
        · omega
        · have := hhead s hs
          omega

/-! ## The runs of an image -/

theorem ascending_cellList (i : Image) : i.cellList.Pairwise fun c d => c.1 < d.1 := by
  have hcells : (i.cellsIn 0 65536).Pairwise fun c d => c.1 < d.1 := by
    rw [cellsIn, List.pairwise_filterMap]
    refine (List.pairwise_lt_range' 1).imp ?_
    intro m n hmn c hc d hd
    obtain ⟨_, _, rfl⟩ := Option.map_eq_some_iff.1 hc
    obtain ⟨_, _, rfl⟩ := Option.map_eq_some_iff.1 hd
    exact hmn
  rw [← cellList_eq, List.pairwise_map] at hcells
  exact hcells.imp UInt16.lt_iff_toNat_lt.2

theorem cells_runs (i : Image) : i.runs.flatMap Run.cells = i.cellsIn 0 65536 := by
  rw [runs, cells_foldr, cellList_eq]

theorem apart_runs (i : Image) : i.runs.Pairwise fun r s => r.stop < s.start.toNat :=
  apart_foldr i.ascending_cellList

theorem holds_of_mem_runs {i : Image} {r : Run} (h : r ∈ i.runs) : i.Holds r.start.toNat r.bytes := by
  apply holds_of_placed
  intro c hc
  rw [← cells_runs]
  exact List.mem_flatMap.2 ⟨r, h, hc⟩

theorem exists_mem_runs {i : Image} {n : Nat} {b : UInt8} (h : i.cell? n = some b) :
    ∃ r ∈ i.runs, r.start.toNat ≤ n ∧ n < r.stop := by
  have hmem : (n, b) ∈ i.cellsIn 0 65536 := mem_cellsIn.2 ⟨Nat.zero_le _, lt_of_cell? h, h⟩
  rw [← cells_runs] at hmem
  obtain ⟨r, hr, hcell⟩ := List.mem_flatMap.1 hmem
  obtain ⟨hle, hget⟩ := mem_placed.1 hcell
  have hlt := (List.getElem?_eq_some_iff.1 hget).1
  exact ⟨r, hr, hle, by unfold Run.stop; omega⟩

/-- Right before and right after a run there is no run. -/
theorem cell?_beside {i : Image} {r : Run} (h : r ∈ i.runs) {n : Nat}
    (hn : n + 1 = r.start.toNat ∨ n = r.stop) : i.cell? n = none := by
  have hapart : i.runs.Pairwise fun r s => r.stop < s.start.toNat ∨ s.stop < r.start.toNat :=
    i.apart_runs.imp Or.inl
  have hsymm : Std.Symm fun r s : Run => r.stop < s.start.toNat ∨ s.stop < r.start.toNat :=
    ⟨fun _ _ h => h.symm⟩
  have hlt := Run.start_lt_stop (nonempty_foldr i.cellList r h)
  by_contra hcell
  obtain ⟨b, hb⟩ := Option.ne_none_iff_exists'.1 hcell
  obtain ⟨s, hs, hle, hstop⟩ := exists_mem_runs hb
  have hne : r ≠ s := by
    rintro rfl
    omega
  have := hapart.forall h hs hne
  omega

theorem maximal_of_mem_runs {i : Image} {r : Run} (h : r ∈ i.runs) : r.Maximal i where
  nonempty := nonempty_foldr i.cellList r h
  holds := holds_of_mem_runs h
  before _ hn := cell?_beside h (.inl hn)
  after := cell?_beside h (.inr rfl)

theorem mem_runs_iff {i : Image} {r : Run} : r ∈ i.runs ↔ r.Maximal i := by
  constructor
  · exact maximal_of_mem_runs
  · intro h
    have hlt := Run.start_lt_stop h.nonempty
    obtain ⟨b, hb⟩ := Option.ne_none_iff_exists'.1 (Run.cell?_isSome h.holds (Nat.le_refl _) hlt)
    obtain ⟨s, hs, hcontains⟩ := exists_mem_runs hb
    rw [h.unique (maximal_of_mem_runs hs) ⟨Nat.le_refl _, hlt⟩ hcontains]
    exact hs

theorem ascending_runs (i : Image) : i.runs.Pairwise fun r s => r.start < s.start := by
  refine i.apart_runs.imp_of_mem ?_
  intro r s hr _ hlt
  have := Run.start_lt_stop (maximal_of_mem_runs hr).nonempty
  rw [UInt16.lt_iff_toNat_lt]
  omega

/-- No other ascending list consists of the maximal runs. -/
theorem eq_runs {i : Image} {rs : List Run} (hmem : ∀ r, r ∈ rs ↔ r.Maximal i)
    (hascending : rs.Pairwise fun r s => r.start < s.start) : rs = i.runs := by
  have hnodup : ∀ l : List Run, l.Pairwise (fun r s => r.start < s.start) → l.Nodup := by
    intro l hl
    refine hl.imp ?_
    rintro r _ hlt rfl
    exact UInt16.lt_irrefl _ hlt
  have hperm : rs.Perm i.runs := by
    rw [List.perm_ext_iff_of_nodup (hnodup rs hascending) (hnodup _ i.ascending_runs)]
    intro r
    rw [hmem, mem_runs_iff]
  refine hperm.eq_of_pairwise ?_ hascending i.ascending_runs
  intro r s _ _ hrs hsr
  exact absurd hsr (UInt16.lt_asymm hrs)

end Mos6502.Image
