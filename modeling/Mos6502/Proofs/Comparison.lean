import Mathlib.Data.List.Infix
import Mathlib.Data.List.Pairwise
import Mos6502.Comparison

/-!
# Reports are true

A report on two sequences of bytes says where they first differ, in how many
places, and which patterns the differences form. Every pattern stands at an
offset, and what it says holds of the bytes there. The patterns do not overlap,
they stand in the order of their offsets, and no single byte that is off by one
is left out.

Main statement: `report_truthful`.
-/
namespace Mos6502

open Comparison

/-! ## What a report should say -/

section Truth
variable (reference candidate : List UInt8)

namespace Comparison

/-- The bytes at an offset of the common length differ. -/
def DiffersAt (i : Nat) : Prop :=
  i < min reference.length candidate.length ∧ reference[i]? ≠ candidate[i]?

instance (i : Nat) : Decidable (DiffersAt reference candidate i) :=
  inferInstanceAs (Decidable (_ ∧ _))

/-- The byte differs, and its neighbours do not. -/
def IsolatedAt (i : Nat) : Prop :=
  DiffersAt reference candidate i ∧ ¬DiffersAt reference candidate (i + 1) ∧
    ∀ j, j + 1 = i → ¬DiffersAt reference candidate j

/-- A pattern of bytes at an offset. -/
inductive Site
  | run (offset length : Nat) (delta : UInt8)
  | swap (offset : Nat)
  | single (offset : Nat)

namespace Site

def offset : Site → Nat
  | run offset _ _ | swap offset | single offset => offset

/-- The offset after the pattern. -/
def stop : Site → Nat
  | run offset length _ => offset + length
  | swap offset => offset + 2
  | single offset => offset + 1

/-- The pattern as reported for sequences that start at `base`. -/
def pattern (base : UInt16) : Site → Pattern
  | run offset length delta => .constantOffset (base + UInt16.ofNat offset) length delta
  | swap offset => .swapped (base + UInt16.ofNat offset)
  | single offset => .offByOne (base + UInt16.ofNat offset)

/-- What the pattern says of the bytes. -/
def Holds : Site → Prop
  | run offset length delta =>
    2 ≤ length ∧ delta ≠ 0 ∧
      ∀ i, offset ≤ i → i < offset + length → ∃ a, reference[i]? = some a ∧ candidate[i]? = some (a + delta)
  | swap offset =>
    DiffersAt reference candidate offset ∧ DiffersAt reference candidate (offset + 1) ∧
      reference[offset]? = candidate[offset + 1]? ∧ reference[offset + 1]? = candidate[offset]?
  | single offset =>
    IsolatedAt reference candidate offset ∧
      ∃ a, reference[offset]? = some a ∧ (candidate[offset]? = some (a + 1) ∨ candidate[offset]? = some (a - 1))

end Site

end Comparison

/-- The pattern is one of bytes, and not of lengths. -/
def Pattern.isOfBytes : Pattern → Bool
  | constantOffset _ _ _ | swapped _ | offByOne _ => true
  | truncated _ | sizeDelta _ => false

/-- The difference is there. -/
structure Difference.Shown (d : Difference) : Prop where
  reference : reference[d.offset]? = some d.reference
  candidate : candidate[d.offset]? = some d.candidate
  differ : d.reference ≠ d.candidate

/-- Everything the report says is so. -/
structure Report.Truthful (base : UInt16) (r : Report) : Prop where
  address : ∀ d : Difference, d.address r.base = base + UInt16.ofNat d.offset
  first : ∀ d, r.first = some d ↔
    d.Shown reference candidate ∧ ∀ i < d.offset, ¬DiffersAt reference candidate i
  prefixes : r.first = none ↔ reference <+: candidate ∨ candidate <+: reference
  count : r.count = (List.range (min reference.length candidate.length)).countP
    fun i => DiffersAt reference candidate i
  lengths : r.lengths = if reference.length = candidate.length then none
    else some (reference.length, candidate.length)
  /-- The patterns of bytes are true, ascend without overlap, and leave out no single byte off by one. -/
  patterns : ∃ sites : List Site, r.patterns.filter Pattern.isOfBytes = sites.map (Site.pattern base) ∧
    (∀ s ∈ sites, s.Holds reference candidate) ∧ sites.Pairwise (·.stop ≤ ·.offset) ∧
    ∀ i, (Site.single i).Holds reference candidate → .single i ∈ sites
  truncated : ∀ k, .truncated k ∈ r.patterns ↔
    0 < k ∧ candidate <+: reference ∧ candidate.length + k = reference.length
  sizeDelta : ∀ d, .sizeDelta d ∈ r.patterns ↔
    d = (candidate.length : Int) - reference.length ∧ 1 ≤ d.natAbs ∧ d.natAbs ≤ 3

end Truth

variable {reference candidate : List UInt8}

/-! ## Lists of differences -/

theorem Comparison.differsAt_iff {i : Nat} :
    DiffersAt reference candidate i ↔ ∃ d : Difference, d.Shown reference candidate ∧ d.offset = i := by
  constructor
  · rintro ⟨hi, hne⟩
    have hr : reference[i]? = some reference[i] := List.getElem?_eq_getElem (by omega)
    have hc : candidate[i]? = some candidate[i] := List.getElem?_eq_getElem (by omega)
    refine ⟨⟨i, reference[i], candidate[i]⟩, ⟨hr, hc, ?_⟩, rfl⟩
    intro heq
    exact hne (by rw [hr, hc]; exact congrArg some heq)
  · rintro ⟨d, ⟨hr, hc, hne⟩, rfl⟩
    refine ⟨?_, by simp [hr, hc, hne]⟩
    have hr := (List.getElem?_eq_some_iff.1 hr).1
    have hc := (List.getElem?_eq_some_iff.1 hc).1
    omega

theorem Difference.Shown.differsAt {d : Difference} (h : d.Shown reference candidate) :
    DiffersAt reference candidate d.offset :=
  differsAt_iff.2 ⟨d, h, rfl⟩

theorem Difference.Shown.eq {d e : Difference} (hd : d.Shown reference candidate) (he : e.Shown reference candidate)
    (h : d.offset = e.offset) : d = e := by
  have hr := hd.reference.symm.trans (h ▸ he.reference)
  have hc := hd.candidate.symm.trans (h ▸ he.candidate)
  cases d
  cases e
  simp_all

namespace Comparison

/-- The list holds the differences from the offset `n` on, in order. -/
structure Lists (reference candidate : List UInt8) (n : Nat) (ds : List Difference) : Prop where
  ascending : ds.Pairwise (·.offset < ·.offset)
  mem : ∀ d, d ∈ ds ↔ n ≤ d.offset ∧ d.Shown reference candidate

theorem lists_differences (reference candidate : List UInt8) :
    Lists reference candidate 0 (Comparison.differences reference candidate) where
  ascending := by
    rw [Comparison.differences, List.pairwise_filterMap]
    have hsnd : ((reference.zip candidate).zipIdx.map Prod.snd).Pairwise (· < ·) := by
      rw [List.zipIdx_map_snd]
      exact List.pairwise_lt_range' 1
    refine (List.pairwise_map.1 hsnd).imp ?_
    rintro ⟨⟨o, c⟩, i⟩ ⟨⟨o', c'⟩, j⟩ hij d hd e he
    obtain ⟨-, hd⟩ := Option.ite_none_left_eq_some.1 hd
    obtain ⟨-, he⟩ := Option.ite_none_left_eq_some.1 he
    cases hd
    cases he
    exact hij
  mem d := by
    rw [Comparison.differences, List.mem_filterMap]
    constructor
    · rintro ⟨⟨⟨o, c⟩, i⟩, hmem, hd⟩
      obtain ⟨ho, hc⟩ := List.getElem?_zip_eq_some.1 (List.mem_zipIdx_iff_getElem?.1 hmem)
      dsimp only at hd
      split at hd
      · cases hd
      · rename_i hne
        cases hd
        exact ⟨Nat.zero_le _, ho, hc, hne⟩
    · rintro ⟨-, hr, hc, hne⟩
      refine ⟨((d.reference, d.candidate), d.offset), ?_, by simp [hne]⟩
      exact List.mem_zipIdx_iff_getElem?.2 (List.getElem?_zip_eq_some.2 ⟨hr, hc⟩)

namespace Lists

variable {n : Nat} {d : Difference} {ds : List Difference}

theorem shown (h : Lists reference candidate n ds) (hd : d ∈ ds) : d.Shown reference candidate :=
  ((h.mem d).1 hd).2

theorem head_le (h : Lists reference candidate n (d :: ds)) : n ≤ d.offset :=
  ((h.mem d).1 (by simp)).1

/-- Before the first difference of the list there is none. -/
theorem offset_le (h : Lists reference candidate n (d :: ds)) {i : Nat} (hn : n ≤ i)
    (hi : DiffersAt reference candidate i) : d.offset ≤ i := by
  obtain ⟨e, he, rfl⟩ := differsAt_iff.1 hi
  rcases List.mem_cons.1 ((h.mem e).2 ⟨hn, he⟩) with rfl | hmem
  · exact Nat.le_refl _
  · exact Nat.le_of_lt ((List.pairwise_cons.1 h.ascending).1 e hmem)

theorem tail (h : Lists reference candidate n (d :: ds)) : Lists reference candidate (d.offset + 1) ds where
  ascending := (List.pairwise_cons.1 h.ascending).2
  mem e := by
    constructor
    · intro he
      exact ⟨(List.pairwise_cons.1 h.ascending).1 e he, h.shown (by simp [he])⟩
    · rintro ⟨hlt, he⟩
      have hle := h.head_le
      rcases List.mem_cons.1 ((h.mem e).2 ⟨by omega, he⟩) with rfl | hmem
      · omega
      · exact hmem

/-- The next difference follows at once if and only if the list goes on with it. -/
theorem differsAt_next (h : Lists reference candidate n ds) :
    DiffersAt reference candidate n ↔ ∃ d, ds.head? = some d ∧ d.offset = n := by
  constructor
  · intro hn
    obtain ⟨e, he, rfl⟩ := differsAt_iff.1 hn
    cases ds with
    | nil => cases (h.mem e).2 ⟨Nat.le_refl _, he⟩
    | cons d ds => exact ⟨d, rfl, Nat.le_antisymm (h.offset_le (Nat.le_refl _) hn) h.head_le⟩
  · rintro ⟨d, hd, rfl⟩
    exact (h.shown (List.mem_of_head? hd)).differsAt

theorem nil_iff (h : Lists reference candidate n ds) :
    ds = [] ↔ ∀ i, n ≤ i → ¬DiffersAt reference candidate i := by
  constructor
  · rintro rfl i hn hi
    obtain ⟨e, he, rfl⟩ := differsAt_iff.1 hi
    cases (h.mem e).2 ⟨hn, he⟩
  · intro hnone
    refine List.eq_nil_iff_forall_not_mem.2 fun d hd => ?_
    obtain ⟨hn, hshown⟩ := (h.mem d).1 hd
    exact hnone _ hn hshown.differsAt

/-- Differences without a gap between them may be passed. -/
theorem drop (h : Lists reference candidate n ds) (k : Nat)
    (hrun : ∀ j < k, ∃ e, ds[j]? = some e ∧ e.offset = n + j) : Lists reference candidate (n + k) (ds.drop k) := by
  induction k with
  | zero => exact h
  | succ k ih =>
    have hk := ih fun j hj => hrun j (by omega)
    obtain ⟨e, he, hoffset⟩ := hrun k (by omega)
    rw [List.drop_eq_getElem?_toList_append, he] at hk
    have htail := tail hk
    rwa [hoffset] at htail

end Lists

/-! ## Patterns -/

/-- `before` is the last offset before `n` with a difference. -/
structure Precedes (reference candidate : List UInt8) (n : Nat) (before : Option Nat) : Prop where
  differs : ∀ b, before = some b → b < n ∧ DiffersAt reference candidate b
  last : ∀ i < n, DiffersAt reference candidate i → ∃ b, before = some b ∧ i ≤ b

/-- The patterns at the sites are those of the bytes from the offset `n` on. -/
structure Found (reference candidate : List UInt8) (n : Nat) (sites : List Site) : Prop where
  holds : ∀ s ∈ sites, s.Holds reference candidate
  apart : sites.Pairwise (·.stop ≤ ·.offset)
  after : ∀ s ∈ sites, n ≤ s.offset
  complete : ∀ i, n ≤ i → (Site.single i).Holds reference candidate → .single i ∈ sites

variable {n : Nat} {d : Difference} {ds rest : List Difference} {before : Option Nat} {sites : List Site}

/-- Offsets without a single byte off by one may be passed. -/
theorem Found.skip {m : Nat} (hnm : n ≤ m)
    (hnone : ∀ i, n ≤ i → i < m → ¬(Site.single i).Holds reference candidate)
    (h : Found reference candidate m sites) : Found reference candidate n sites where
  holds := h.holds
  apart := h.apart
  after s hs := Nat.le_trans hnm (h.after s hs)
  complete i hi hsingle := h.complete i (by by_contra hlt; exact hnone i hi (by omega) hsingle) hsingle

/-- A pattern before the others. -/
theorem Found.cons {s : Site} (hs : s.Holds reference candidate) (hn : n ≤ s.offset)
    (hsingle : ∀ i, n ≤ i → i < s.stop → (Site.single i).Holds reference candidate → s = .single i)
    (h : Found reference candidate s.stop sites) : Found reference candidate n (s :: sites) where
  holds := List.forall_mem_cons.2 ⟨hs, h.holds⟩
  apart := List.pairwise_cons.2 ⟨h.after, h.apart⟩
  after := by
    have hle : s.offset ≤ s.stop := by cases s <;> simp [Site.offset, Site.stop]
    exact List.forall_mem_cons.2 ⟨hn, fun t ht => Nat.le_trans (Nat.le_trans hn hle) (h.after t ht)⟩
  complete i hi hi' := by
    by_cases hlt : i < s.stop
    · rw [hsingle i hi hlt hi']
      exact List.mem_cons_self
    · exact List.mem_cons_of_mem _ (h.complete i (by omega) hi')

theorem alone_iff (h : Lists reference candidate n (d :: rest)) (hbefore : Precedes reference candidate n before) :
    (before.all (· + 1 ≠ d.offset) && rest.head?.all (·.offset ≠ d.offset + 1)) = true ↔
      IsolatedAt reference candidate d.offset := by
  have hnext := h.tail.differsAt_next
  have hd : DiffersAt reference candidate d.offset := (h.shown (by simp)).differsAt
  have hprevious : before.all (· + 1 ≠ d.offset) = true ↔ ∀ j, j + 1 = d.offset → ¬DiffersAt reference candidate j := by
    constructor
    · intro hall j hj hdiffers
      by_cases hjn : j < n
      · obtain ⟨b, rfl, hjb⟩ := hbefore.last j hjn hdiffers
        have hbn := (hbefore.differs b rfl).1
        have hn := h.head_le
        simp at hall
        omega
      · have := h.offset_le (by omega) hdiffers
        omega
    · intro hnone
      cases before with
      | none => rfl
      | some b =>
        have hb := (hbefore.differs b rfl).2
        simpa using fun hbd => hnone b hbd hb
  have hfollowing : rest.head?.all (·.offset ≠ d.offset + 1) = true ↔ ¬DiffersAt reference candidate (d.offset + 1) := by
    rw [hnext]
    cases rest.head? <;> simp
  rw [Bool.and_eq_true, hprevious, hfollowing]
  exact ⟨fun h => ⟨hd, h.2, h.1⟩, fun h => ⟨h.2.2, h.2.1⟩⟩

/-- The differences counted go on right after the offset with the same delta. -/
theorem runLength_spec (delta : UInt8) (offset count : Nat) (ds : List Difference) :
    ∃ k, runLength delta offset count ds = count + k ∧
      ∀ j < k, ∃ e, ds[j]? = some e ∧ e.offset = offset + 1 + j ∧ e.delta = delta := by
  induction ds generalizing offset count with
  | nil => exact ⟨0, rfl, by simp⟩
  | cons d ds ih =>
    rw [runLength]
    split
    · rename_i hd
      obtain ⟨k, hk, hrun⟩ := ih d.offset (count + 1)
      refine ⟨k + 1, by omega, fun j hj => ?_⟩
      cases j with
      | zero => exact ⟨d, rfl, by omega, hd.2⟩
      | succ j =>
        obtain ⟨e, he, hoffset, hdelta⟩ := hrun j (by omega)
        exact ⟨e, he, by omega, hdelta⟩
    · exact ⟨0, rfl, by simp⟩

theorem delta_add (d : Difference) : d.reference + d.delta = d.candidate := by
  unfold Difference.delta
  grind

theorem delta_ne_zero (h : d.Shown reference candidate) : d.delta ≠ 0 := by
  intro hzero
  have hsame := delta_add d
  rw [hzero, UInt8.add_zero] at hsame
  exact h.differ hsame

/-- A difference with the amount between its bytes. -/
theorem shown_delta (h : d.Shown reference candidate) :
    reference[d.offset]? = some d.reference ∧ candidate[d.offset]? = some (d.reference + d.delta) :=
  ⟨h.reference, by rw [delta_add, h.candidate]⟩

theorem holds_single_iff (h : d.Shown reference candidate) :
    (Site.single d.offset).Holds reference candidate ↔
      IsolatedAt reference candidate d.offset ∧ (d.delta = 0x01 ∨ d.delta = 0xFF) := by
  have hsub : d.reference - 1 = d.reference + 0xFF := by grind
  simp only [Site.Holds, h.reference, (shown_delta h).2, Option.some.injEq, exists_eq_left', hsub,
    UInt8.add_right_inj]

theorem single?_of_holds (h : Lists reference candidate n (d :: rest))
    (hbefore : Precedes reference candidate n before) (base : UInt16)
    (hholds : (Site.single d.offset).Holds reference candidate) :
    single? base before d rest = some ((Site.single d.offset).pattern base) := by
  obtain ⟨halone, hdelta⟩ := (holds_single_iff (h.shown (by simp))).1 hholds
  rw [single?, (alone_iff h hbefore).2 halone]
  simp only [hdelta, Bool.or_eq_true, decide_eq_true_eq, Bool.true_and, if_true]
  rfl

theorem single?_of_not_holds (h : Lists reference candidate n (d :: rest))
    (hbefore : Precedes reference candidate n before) (base : UInt16)
    (hholds : ¬(Site.single d.offset).Holds reference candidate) : single? base before d rest = none := by
  rw [holds_single_iff (h.shown (by simp)), ← alone_iff h hbefore] at hholds
  rw [single?, if_neg]
  simpa only [Bool.and_eq_true, Bool.or_eq_true, decide_eq_true_eq] using hholds

/-- A byte with a difference right before or after it does not stand alone. -/
theorem not_single_of_next {i : Nat} (hi : DiffersAt reference candidate i)
    (hnext : DiffersAt reference candidate (i + 1)) :
    ¬(Site.single i).Holds reference candidate ∧ ¬(Site.single (i + 1)).Holds reference candidate :=
  ⟨fun h => h.1.2.1 hnext, fun h => h.1.2.2 i rfl hi⟩

/-- Two differences that are exchanged, and what is found after them. -/
theorem Found.swap {e : Difference} (h : Lists reference candidate n (d :: e :: rest)) (hswap : isSwap d e = true)
    (hrest : Found reference candidate (d.offset + 2) sites) :
    Found reference candidate n (.swap d.offset :: sites) := by
  simp only [isSwap, Bool.and_eq_true, decide_eq_true_eq] at hswap
  obtain ⟨⟨hnext, hd⟩, he⟩ := hswap
  have hshown := h.shown (d := d) (by simp)
  have hshown' := h.shown (d := e) (by simp)
  have hdiffers : DiffersAt reference candidate (d.offset + 1) := hnext ▸ hshown'.differsAt
  have hnone := not_single_of_next hshown.differsAt hdiffers
  refine .cons ⟨hshown.differsAt, hdiffers, ?_, ?_⟩ h.head_le ?_ hrest
  · rw [hshown.reference, ← hnext, hshown'.candidate, hd]
  · rw [hshown.candidate, ← hnext, hshown'.reference, he]
  · intro i hi hlt hsingle
    have hle := h.offset_le hi hsingle.1.1
    simp only [Site.stop] at hlt
    obtain rfl | rfl : i = d.offset ∨ i = d.offset + 1 := by omega
    · exact absurd hsingle hnone.1
    · exact absurd hsingle hnone.2

/-- Every offset of a run has a difference with the same delta. -/
theorem shown_of_run {more i : Nat} (h : Lists reference candidate n (d :: rest))
    (hrun : ∀ j < more, ∃ e, rest[j]? = some e ∧ e.offset = d.offset + 1 + j ∧ e.delta = d.delta)
    (hle : d.offset ≤ i) (hlt : i < d.offset + (more + 1)) :
    ∃ e : Difference, e.Shown reference candidate ∧ e.offset = i ∧ e.delta = d.delta := by
  obtain rfl | hlt' := Nat.eq_or_lt_of_le hle
  · exact ⟨d, h.shown (by simp), rfl, rfl⟩
  · obtain ⟨e, he, hoffset, hdelta⟩ := hrun (i - (d.offset + 1)) (by omega)
    exact ⟨e, h.tail.shown (List.mem_of_getElem? he), by omega, hdelta⟩

/-- A run of differences by the same amount, and what is found after it. -/
theorem Found.run {more : Nat} (h : Lists reference candidate n (d :: rest)) (hmore : 0 < more)
    (hrun : ∀ j < more, ∃ e, rest[j]? = some e ∧ e.offset = d.offset + 1 + j ∧ e.delta = d.delta)
    (hrest : Found reference candidate (d.offset + (more + 1)) sites) :
    Found reference candidate n (.run d.offset (more + 1) d.delta :: sites) := by
  have hdiffers : ∀ i, d.offset ≤ i → i < d.offset + (more + 1) → DiffersAt reference candidate i := by
    intro i hle hlt
    obtain ⟨e, he, rfl, -⟩ := shown_of_run h hrun hle hlt
    exact he.differsAt
  refine .cons ⟨by omega, delta_ne_zero (h.shown (by simp)), ?_⟩ h.head_le ?_ hrest
  · intro i hle hlt
    obtain ⟨e, he, rfl, hdelta⟩ := shown_of_run h hrun hle hlt
    exact ⟨e.reference, hdelta ▸ shown_delta he⟩
  · intro i hi hlt hsingle
    have hle := h.offset_le hi hsingle.1.1
    simp only [Site.stop] at hlt
    -- one of the two neighbours belongs to the run
    by_cases hfirst : i = d.offset
    · exact absurd (hdiffers (i + 1) (by omega) (by omega)) hsingle.1.2.1
    · exact absurd (hdiffers (i - 1) (by omega) (by omega)) (hsingle.1.2.2 (i - 1) (by omega))

/-- A difference by itself, and what is found after it. -/
theorem Found.alone (h : Lists reference candidate n (d :: rest)) (hbefore : Precedes reference candidate n before)
    (base : UInt16) (hrest : Found reference candidate (d.offset + 1) sites) :
    ∃ sites', sites'.map (Site.pattern base) = (single? base before d rest).toList ++ sites.map (Site.pattern base) ∧
      Found reference candidate n sites' := by
  by_cases hsingle : (Site.single d.offset).Holds reference candidate
  · refine ⟨.single d.offset :: sites, by rw [single?_of_holds h hbefore base hsingle]; rfl, ?_⟩
    refine .cons hsingle h.head_le (fun i hi hlt hsingle' => ?_) hrest
    have hle := h.offset_le hi hsingle'.1.1
    obtain rfl : i = d.offset := by simp only [Site.stop] at hlt; omega
    rfl
  · refine ⟨sites, by rw [single?_of_not_holds h hbefore base hsingle]; rfl, ?_⟩
    refine hrest.skip (Nat.le_succ_of_le h.head_le) fun i hi hlt hsingle' => ?_
    have hle := h.offset_le hi hsingle'.1.1
    obtain rfl : i = d.offset := by omega
    exact hsingle hsingle'

theorem precedes_of_differsAt {i : Nat} (h : DiffersAt reference candidate i) :
    Precedes reference candidate (i + 1) (some i) where
  differs b hb := by
    cases hb
    exact ⟨Nat.lt_succ_self i, h⟩
  last j hj _ := ⟨i, rfl, Nat.le_of_lt_succ hj⟩

theorem patternsFrom_spec (base : UInt16) (found : List Pattern) (hbefore : Precedes reference candidate n before)
    (h : Lists reference candidate n ds) :
    ∃ sites, patternsFrom base found before ds = found.reverse ++ sites.map (Site.pattern base) ∧
      Found reference candidate n sites := by
  fun_induction patternsFrom base found before ds generalizing n with
  | case1 found before =>
    refine ⟨[], by simp, ⟨by simp, .nil, by simp, ?_⟩⟩
    intro i hi hsingle
    exact absurd hsingle.1.1 (h.nil_iff.1 rfl i hi)
  | case2 found before d rest hswap ih =>
    cases rest with
    | nil => cases hswap
    | cons e rest =>
      have hswap : isSwap d e = true := hswap
      have hnext : e.offset = d.offset + 1 := by simp_all [isSwap]
      have hdiffers := hnext ▸ (h.shown (d := e) (by simp)).differsAt
      have htail := hnext ▸ h.tail.tail
      obtain ⟨sites, hsites, hfound⟩ := ih (precedes_of_differsAt hdiffers) htail
      exact ⟨.swap d.offset :: sites, by rw [hsites]; simp [Site.pattern, Difference.address], .swap h hswap hfound⟩
  | case3 found before d rest hswap more pattern =>
    rename_i ih
    obtain ⟨k, hk, hrun⟩ := runLength_spec d.delta d.offset 0 rest
    have hmore : more = k := by simpa using hk
    have hdiffers : DiffersAt reference candidate (d.offset + k) := by
      obtain ⟨e, he, hoffset, -⟩ := shown_of_run h hrun (Nat.le_add_right _ k) (by omega)
      exact hoffset ▸ he.differsAt
    have htail := h.tail.drop k fun j hj => by
      obtain ⟨e, he, hoffset, -⟩ := hrun j hj
      exact ⟨e, he, hoffset⟩
    rw [Nat.add_right_comm] at htail
    obtain ⟨sites, hsites, hfound⟩ := ih (precedes_of_differsAt (hmore ▸ hdiffers)) (hmore ▸ htail)
    rw [hsites, List.reverse_append, List.append_assoc]
    by_cases hzero : more = 0
    · have hpattern : pattern = single? base before d rest := if_pos hzero
      rw [hzero] at hfound
      obtain ⟨sites', hsites', hfound'⟩ := Found.alone h hbefore base hfound
      refine ⟨sites', ?_, hfound'⟩
      rw [hsites', hpattern]
      cases single? base before d rest <;> rfl
    · have hpattern : pattern = some (.constantOffset (d.address base) (more + 1) d.delta) := if_neg hzero
      refine ⟨.run d.offset (more + 1) d.delta :: sites, by rw [hpattern]; rfl, ?_⟩
      exact .run h (by omega) (hmore ▸ hrun) hfound

/-! ## The rest of the report -/

theorem head?_eq_some_iff (h : Lists reference candidate 0 ds) :
    ds.head? = some d ↔ d.Shown reference candidate ∧ ∀ i < d.offset, ¬DiffersAt reference candidate i := by
  cases ds with
  | nil =>
    constructor
    · intro hd
      cases hd
    · rintro ⟨hshown, -⟩
      cases (h.mem d).2 ⟨Nat.zero_le _, hshown⟩
  | cons e rest =>
    have hshown := h.shown (d := e) (by simp)
    constructor
    · intro hd
      cases hd
      refine ⟨hshown, fun i hlt hi => ?_⟩
      have := h.offset_le (Nat.zero_le _) hi
      omega
    · rintro ⟨hd, hfirst⟩
      have hle := h.offset_le (Nat.zero_le _) hd.differsAt
      have hge : ¬e.offset < d.offset := fun hlt => hfirst _ hlt hshown.differsAt
      rw [hd.eq hshown (by omega)]
      rfl

theorem length_eq_countP (h : Lists reference candidate 0 ds) :
    ds.length = (List.range (min reference.length candidate.length)).countP
      fun i => DiffersAt reference candidate i := by
  have hperm : (ds.map (·.offset)).Perm ((List.range (min reference.length candidate.length)).filter
      fun i => DiffersAt reference candidate i) := by
    have hnodup : (ds.map (·.offset)).Nodup :=
      List.pairwise_map.2 (h.ascending.imp fun hlt => Nat.ne_of_lt hlt)
    refine (List.perm_ext_iff_of_nodup hnodup (List.nodup_range.filter _)).2 fun i => ?_
    have hmem : i ∈ ds.map (·.offset) ↔ DiffersAt reference candidate i := by
      rw [differsAt_iff]
      simp [h.mem]
    rw [hmem, List.mem_filter, List.mem_range, decide_eq_true_eq]
    exact ⟨fun hi => ⟨hi.1, hi⟩, And.right⟩
  rw [List.countP_eq_length_filter, ← hperm.length_eq, List.length_map]

theorem prefix_iff {xs ys : List UInt8} (h : xs.length ≤ ys.length) :
    xs <+: ys ↔ ∀ i, ¬DiffersAt xs ys i := by
  rw [List.prefix_iff_getElem?]
  constructor
  · rintro hsame i ⟨hi, hne⟩
    exact hne (by rw [hsame i (by omega), List.getElem?_eq_getElem])
  · intro hnone i hi
    by_contra hne
    refine hnone i ⟨by omega, fun heq => hne ?_⟩
    rw [← heq, List.getElem?_eq_getElem]

theorem differsAt_comm (xs ys : List UInt8) (i : Nat) : DiffersAt xs ys i ↔ DiffersAt ys xs i := by
  rw [DiffersAt, DiffersAt, Nat.min_comm, ne_comm]

theorem prefixes_iff : (∀ i, ¬DiffersAt reference candidate i) ↔
    reference <+: candidate ∨ candidate <+: reference := by
  constructor
  · intro hnone
    rcases Nat.le_total reference.length candidate.length with hle | hle
    · exact .inl ((prefix_iff hle).2 hnone)
    · exact .inr ((prefix_iff hle).2 fun i => by rw [differsAt_comm]; exact hnone i)
  · rintro (h | h) i
    · exact (prefix_iff h.length_le).1 h i
    · rw [differsAt_comm]
      exact (prefix_iff h.length_le).1 h i

theorem isOfBytes_lengthPatterns (n k : Nat) (prefixOnly : Bool) :
    ∀ p ∈ lengthPatterns n k prefixOnly, p.isOfBytes = false := by
  intro p hp
  unfold lengthPatterns at hp
  rcases List.mem_append.1 hp with hp | hp <;> split at hp <;> simp at hp <;> subst hp <;> rfl

theorem isOfBytes_pattern (base : UInt16) (s : Site) : (s.pattern base).isOfBytes = true := by
  cases s <;> rfl

theorem truncated_mem_lengthPatterns {n k missing : Nat} {prefixOnly : Bool} :
    .truncated missing ∈ lengthPatterns n k prefixOnly ↔ k < n ∧ prefixOnly = true ∧ missing = n - k := by
  unfold lengthPatterns
  dsimp only
  split <;> split <;> simp_all

theorem sizeDelta_mem_lengthPatterns {n k : Nat} {prefixOnly : Bool} {d : Int} :
    .sizeDelta d ∈ lengthPatterns n k prefixOnly ↔ d = (k : Int) - n ∧ 1 ≤ d.natAbs ∧ d.natAbs ≤ 3 := by
  unfold lengthPatterns
  dsimp only
  split <;> split <;> simp_all

/-- Patterns of bytes and of lengths do not mix. -/
theorem mem_patterns {sites : List Site} {base : UInt16} {p : Pattern} (hp : p.isOfBytes = false) {qs : List Pattern} :
    p ∈ sites.map (Site.pattern base) ++ qs ↔ p ∈ qs := by
  refine ⟨fun h => (List.mem_append.1 h).resolve_left fun hmem => ?_, List.mem_append_right _⟩
  obtain ⟨s, -, rfl⟩ := List.mem_map.1 hmem
  rw [isOfBytes_pattern] at hp
  cases hp

end Comparison

/-- Two sequences are reported as identical exactly if they are, and everything else reported of them is so. -/
theorem report_truthful (reference candidate : List UInt8) (base : UInt16) :
    (Comparison.of reference candidate base = .identical ↔ reference = candidate) ∧
      ∀ report, Comparison.of reference candidate base = .mismatch report →
        report.Truthful reference candidate base := by
  have hlists := lists_differences reference candidate
  have hnil : differences reference candidate = [] ↔ reference <+: candidate ∨ candidate <+: reference := by
    rw [hlists.nil_iff, ← prefixes_iff]
    exact ⟨fun h i => h i (Nat.zero_le i), fun h i _ => h i⟩
  have hbefore : Precedes reference candidate 0 none := ⟨by simp, by simp⟩
  obtain ⟨sites, hsites, hfound⟩ := patternsFrom_spec base [] hbefore hlists
  unfold Comparison.of
  split
  · rename_i hsame
    refine ⟨by simp [hsame], ?_⟩
    intro report hreport
    cases hreport
  · rename_i hne
    refine ⟨by simp [hne], ?_⟩
    intro report hreport
    cases hreport
    rw [hsites, List.reverse_nil, List.nil_append]
    refine ⟨fun d => rfl, fun d => head?_eq_some_iff hlists, ?_, length_eq_countP hlists, rfl, ?_, ?_, ?_⟩
    · exact List.head?_eq_none_iff.trans hnil
    · refine ⟨sites, ?_, hfound.holds, hfound.apart, fun i => hfound.complete i (Nat.zero_le i)⟩
      rw [List.filter_append, List.filter_eq_self.2, List.filter_eq_nil_iff.2, List.append_nil]
      · simpa using isOfBytes_lengthPatterns _ _ _
      · simpa using fun s _ => isOfBytes_pattern base s
    · intro k
      rw [mem_patterns rfl, truncated_mem_lengthPatterns, List.isEmpty_iff, hnil]
      constructor
      · rintro ⟨hlt, hprefix, rfl⟩
        have hcandidate := hprefix.resolve_left fun h => by have := h.length_le; omega
        exact ⟨by omega, hcandidate, by omega⟩
      · rintro ⟨hk, hcandidate, hlength⟩
        exact ⟨by omega, .inr hcandidate, by omega⟩
    · intro d
      rw [mem_patterns rfl, sizeDelta_mem_lengthPatterns]

/-- All three patterns of bytes, at addresses that wrap around, and a missing byte. -/
theorem report_truthful_mixed : ∃ report,
    Comparison.of [0x10, 0x20, 0x34, 0x12, 0x40, 0xFF, 0x05, 0x60] [0x11, 0x20, 0x12, 0x34, 0x40, 0x01, 0x07] 0xFFFE =
        .mismatch report ∧
      report.patterns = [.offByOne 0xFFFE, .swapped 0x0000, .constantOffset 0x0003 2 0x02, .sizeDelta (-1)] ∧
      report.Truthful [0x10, 0x20, 0x34, 0x12, 0x40, 0xFF, 0x05, 0x60] [0x11, 0x20, 0x12, 0x34, 0x40, 0x01, 0x07]
        0xFFFE :=
  ⟨_, by cbv, rfl, (report_truthful _ _ _).2 _ (by cbv)⟩

end Mos6502
