import Mos6502.Image.IntelHex
import Mos6502.Proofs.Region
import Mos6502.Proofs.Runs

/-!
# Intel HEX is lossless

A reader takes an Intel HEX text apart line by line: a colon, a count, an
address, a type, data and a checksum. It refuses a line whose count or checksum
is wrong. Loading writes the data into an empty image, where a cell can be
written only once.

Main statement: `Image.toIntelHex_lossless`.
-/
namespace Mos6502

/-! ## Reading -/

/-- A line of an Intel HEX text. -/
structure HexLine where
  count : UInt8
  address : UInt16
  /-- Zero for data and one for the end. -/
  type : UInt8
  data : List UInt8
  checksum : UInt8
deriving DecidableEq

namespace HexLine

/-- Every byte of the line. -/
def bytes (l : HexLine) : List UInt8 :=
  [l.count, (l.address >>> 8).toUInt8, l.address.toUInt8, l.type] ++ l.data ++ [l.checksum]

/-- The sum of all bytes, modulo 256. -/
def sum (l : HexLine) : UInt8 :=
  l.bytes.foldl (· + ·) 0

/-- Where the data goes. -/
def cells (l : HexLine) : List (UInt16 × UInt8) :=
  l.data.mapIdx fun k b => (l.address + UInt16.ofNat k, b)

/-- The bytes that pairs of digits stand for. -/
def bytes? : List Char → Option (List UInt8)
  | [] => some []
  | [_] => none
  | high :: low :: rest => do
    let h ← Numeral.digit? 16 high
    let l ← Numeral.digit? 16 low
    let bs ← bytes? rest
    return UInt8.ofNat (16 * h + l) :: bs

/-- The line that consists of the bytes, if count and checksum are right. -/
def ofBytes? : List UInt8 → Option HexLine
  | count :: high :: low :: type :: rest =>
    match rest.getLast? with
    | none => none
    | some checksum =>
      let line := ⟨count, low.toUInt16 ||| (high.toUInt16 <<< 8), type, rest.dropLast, checksum⟩
      if line.data.length = count.toNat ∧ line.sum = 0 then some line else none
  | _ => none

/-- The line that a text of one line stands for. -/
def read? : List Char → Option HexLine
  | ':' :: cs => (bytes? cs).bind ofBytes?
  | _ => none

/-- The line that ends a text. -/
def last : HexLine :=
  ⟨0, 0, 1, [], 0xFF⟩

/-- The lines of a text. -/
def readAll? (text : String) : Option (List HexLine) :=
  (Lines.split text.toList).mapM read?

/-- Writes the data of the lines into an empty image. -/
def load (ls : List HexLine) : Except Overlap Image :=
  (ls.flatMap cells).foldlM (fun i (a, b) => i.write a b) .empty

end HexLine

/-! ## Lines that were written -/

namespace HexLine

theorem bytes?_hex (bs : List UInt8) : bytes? (Hex.bytes bs).toList = some bs := by
  induction bs with
  | nil => rfl
  | cons b bs ih =>
    have hb := b.toNat_lt
    have hbytes : (Hex.bytes (b :: bs)).toList =
        Hex.digit (b.toNat / 16) :: Hex.digit (b.toNat % 16) :: (Hex.bytes bs).toList := by
      simp [Hex.bytes, Hex.byte, String.join_cons]
    have hvalue : 16 * (b.toNat / 16) + b.toNat % 16 = b.toNat := by omega
    rw [hbytes, bytes?, digit?_digit _ (by omega), digit?_digit _ (by omega), ih]
    simp only [bind, Option.bind_some, pure, hvalue, UInt8.ofNat_toNat]

end HexLine

namespace HexRecord

/-- The line of a record. -/
def line (r : HexRecord) : HexLine :=
  ⟨UInt8.ofNat r.bytes.length, r.address, 0, r.bytes, r.checksum⟩

theorem bytes_line (r : HexRecord) : r.line.bytes = r.header ++ r.bytes ++ [r.checksum] :=
  rfl

theorem sum_line (r : HexRecord) : r.line.sum = 0 := by
  rw [HexLine.sum, bytes_line, List.foldl_append, checksum, List.foldl_cons, List.foldl_nil]
  grind

/-- The record without the end of its line. -/
def text (r : HexRecord) : String :=
  ":" ++ Hex.bytes r.line.bytes

theorem read?_text {r : HexRecord} (h : r.bytes.length < 256) : HexLine.read? r.text.toList = some r.line := by
  have hcount : (UInt8.ofNat r.bytes.length).toNat = r.bytes.length := UInt8.toNat_ofNat_of_lt' h
  have htext : r.text.toList = ':' :: (Hex.bytes r.line.bytes).toList := by
    simp [text]
  rw [htext, HexLine.read?, HexLine.bytes?_hex, Option.bind_some, bytes_line, header, List.append_assoc]
  simp only [List.cons_append, List.nil_append, HexLine.ofBytes?, List.getLast?_concat, List.dropLast_concat,
    Encoding.word_littleEndian]
  exact if_pos ⟨hcount.symm, r.sum_line⟩

example : HexLine.read? ":0300300002337A1E".toList = some ⟨3, 0x0030, 0, [0x02, 0x33, 0x7A], 0x1E⟩ := by
  decide

-- a wrong checksum
example : HexLine.read? ":0300300002337A1F".toList = none := by
  decide

end HexRecord

theorem plain_hexBytes (bs : List UInt8) : Plain (Hex.bytes bs) := by
  induction bs with
  | nil => rfl
  | cons b bs ih =>
    rw [Hex.bytes, List.map_cons, String.join_cons]
    exact plain_append (plain_hexByte b) ih

/-- The lines of a text of short records are read as they were written. -/
theorem HexLine.readAll?_records {rs : List HexRecord} (h : ∀ r ∈ rs, r.bytes.length < 256) :
    readAll? (String.join (rs.map HexRecord.render) ++ HexRecord.last) = some (rs.map HexRecord.line ++ [last]) := by
  have htext : String.join (rs.map HexRecord.render) ++ HexRecord.last =
      String.join ((rs.map HexRecord.text ++ [":00000001FF"]).map (· ++ "\n")) := by
    rw [List.map_append, List.map_map, String.join_append]
    rfl
  have hplain : ∀ l ∈ rs.map HexRecord.text ++ [":00000001FF"], Plain l := by
    intro l hl
    rcases List.mem_append.1 hl with hl | hl
    · obtain ⟨r, _, rfl⟩ := List.mem_map.1 hl
      exact plain_append (by decide) (plain_hexBytes _)
    · rw [List.mem_singleton.1 hl]
      decide
  rw [readAll?, htext, Lines.split_lines fun l hl => (hplain l hl).isLine]
  apply mapM_eq_some_of_map
  simp only [List.map_append, List.map_map]
  congr 1
  apply List.map_congr_left
  intro r hr
  exact HexRecord.read?_text (h r hr)

/-! ## The records of an image -/

namespace Rows

variable {α : Type}

theorem splitFrom_append (n : Nat) (rows done : List (List α)) (xs : List α) :
    splitFrom n (rows ++ done) xs = done.reverse ++ splitFrom n rows xs := by
  fun_induction splitFrom n rows xs with
  | case1 rows => rw [splitFrom, List.reverse_append]
  | case2 rows x xs ih =>
    rw [splitFrom]
    exact ih

theorem split_cons (n : Nat) (x : α) (xs : List α) :
    split (n + 1) (x :: xs) = (x :: xs.take n) :: split (n + 1) (xs.drop n) := by
  have happend := splitFrom_append n [] [x :: xs.take n] (xs.drop n)
  simp only [split, Nat.add_sub_cancel]
  rw [splitFrom]
  exact happend

end Rows

namespace HexRecord

/-- The cells of the record. -/
def cells (r : HexRecord) : List (Nat × UInt8) :=
  Image.placed r.address.toNat r.bytes

/-- Records of up to sixteen bytes, from the `n`-th cell on. -/
def cut (n : Nat) (bs : List UInt8) : List HexRecord :=
  (Rows.split 16 bs).mapIdx fun k row => ⟨UInt16.ofNat (n + 16 * k), row⟩

theorem ofRun_eq (r : Image.Run) : ofRun r = cut r.start.toNat r.bytes := by
  simp only [ofRun, cut, UInt16.ofNat_add, UInt16.ofNat_toNat]

theorem cut_nil (n : Nat) : cut n [] = [] := by
  simp [cut, Rows.split, Rows.splitFrom]

theorem cut_cons (n : Nat) (b : UInt8) (bs : List UInt8) :
    cut n (b :: bs) = ⟨UInt16.ofNat n, b :: bs.take 15⟩ :: cut (n + 16) (bs.drop 15) := by
  have hnext : ∀ k, n + 16 * (k + 1) = n + 16 + 16 * k := by
    intro k
    omega
  simp only [cut, Rows.split_cons, List.mapIdx_cons, hnext]
  rfl

/-- The records of bytes below the top of memory are short, and they hold the bytes one after another. -/
theorem cut_spec (n : Nat) (bs : List UInt8) (h : ∀ k < bs.length, n + k < 65536) :
    (∀ r ∈ cut n bs, 1 ≤ r.bytes.length ∧ r.bytes.length ≤ 16) ∧ (cut n bs).flatMap cells = Image.placed n bs := by
  induction hlen : bs.length using Nat.strong_induction_on generalizing n bs with
  | _ len ih =>
    cases bs with
    | nil => simp [cut_nil, Image.placed]
    | cons b bs =>
      rw [List.length_cons] at h hlen
      have hn : n < 65536 := h 0 (by omega)
      have hrest : ∀ k < (bs.drop 15).length, n + 16 + k < 65536 := by
        intro k hk
        rw [List.length_drop] at hk
        have := h (16 + k) (by omega)
        omega
      obtain ⟨hshort, hcells⟩ := ih (bs.drop 15).length (by rw [List.length_drop]; omega) (n + 16) _ hrest rfl
      rw [cut_cons]
      constructor
      · intro r hr
        rcases List.mem_cons.1 hr with rfl | hr
        · simp only [List.length_cons, List.length_take]
          omega
        · exact hshort r hr
      · have hsplit : b :: bs = (b :: bs.take 15) ++ bs.drop 15 := by simp
        rw [List.flatMap_cons, hcells, cells, Image.toNat_ofNat hn, hsplit, Image.placed_append]
        -- a row that is not full is the last one
        by_cases hfull : 15 ≤ bs.length
        · have hrow : (b :: bs.take 15).length = 16 := by simp [hfull]
          rw [hrow]
        · have hnil : bs.drop 15 = [] := List.drop_eq_nil_of_le (by omega)
          simp [hnil, Image.placed]

end HexRecord

namespace Image

theorem records_spec (i : Image) :
    (∀ r ∈ i.records, 1 ≤ r.bytes.length ∧ r.bytes.length ≤ 16) ∧
      i.records.flatMap HexRecord.cells = i.cellsIn 0 65536 := by
  have hrun : ∀ r ∈ i.runs, (∀ s ∈ HexRecord.ofRun r, 1 ≤ s.bytes.length ∧ s.bytes.length ≤ 16) ∧
      (HexRecord.ofRun r).flatMap HexRecord.cells = r.cells := by
    intro r hr
    rw [HexRecord.ofRun_eq]
    apply HexRecord.cut_spec
    intro k hk
    have := (maximal_of_mem_runs hr).holds.bound (maximal_of_mem_runs hr).nonempty
    omega
  constructor
  · intro s hs
    obtain ⟨r, hr, hs⟩ := List.mem_flatMap.1 hs
    exact (hrun r hr).1 s hs
  · rw [records, List.flatMap_assoc, ← cells_runs]
    exact List.flatMap_congr fun r hr => (hrun r hr).2

theorem holds_of_mem_records {i : Image} {r : HexRecord} (h : r ∈ i.records) :
    i.Holds r.address.toNat r.bytes := by
  apply holds_of_placed
  intro c hc
  rw [← i.records_spec.2]
  exact List.mem_flatMap.2 ⟨r, h, hc⟩

/-! ## Loading -/

theorem IsPart.put {part i : Image} {n : Nat} {b : UInt8} (h : part.IsPart i 0 n) (hn : n < 65536)
    (hb : i.get? (UInt16.ofNat n) = some b) : (part.put (UInt16.ofNat n) b).IsPart i 0 (n + 1) := by
  intro a
  rw [get?_put, h a]
  by_cases ha : UInt16.ofNat n = a
  · have hnat : a.toNat = n := by rw [← ha, toNat_ofNat hn]
    rw [if_pos ha, if_pos (by omega), ← ha, hb]
  · have hnat : a.toNat ≠ n := by
      rintro rfl
      exact ha (UInt16.ofNat_toNat)
    rw [if_neg ha]
    by_cases hlt : a.toNat < n
    · rw [if_pos (by omega), if_pos (by omega)]
    · rw [if_neg (by omega), if_neg (by omega)]

theorem IsPart.eq {part i : Image} (h : part.IsPart i 0 65536) : part = i := by
  ext1 a
  rw [h a, if_pos ⟨Nat.zero_le _, a.toNat_lt⟩]

/-- The cells that are missing complete an image that holds the others. -/
theorem write_cellsIn {i : Image} (k : Nat) : ∀ (n : Nat) (part : Image), n + k = 65536 → part.IsPart i 0 n →
    ((i.cellsIn n 65536).map fun c => (UInt16.ofNat c.1, c.2)).foldlM (fun i (a, b) => i.write a b) part = .ok i := by
  induction k with
  | zero =>
    rintro n part hn h
    obtain rfl : n = 65536 := hn
    rw [cellsIn_of_le i (Nat.le_refl _), h.eq]
    rfl
  | succ k ih =>
    intro n part hn h
    have hlt : n < 65536 := by omega
    have hrest := ih (n + 1)
    rw [cellsIn_of_lt i hlt, cell?_of_lt i hlt]
    cases hcell : i.get? (UInt16.ofNat n) with
    | none => exact hrest part (by omega) (h.hole hcell)
    | some b =>
      have hfree : part.get? (UInt16.ofNat n) = none := by
        rw [h, toNat_ofNat hlt, if_neg (by omega)]
      have hwrite : part.write (UInt16.ofNat n) b = .ok (part.put (UInt16.ofNat n) b) := by
        simp [write, hfree]
      have := hrest _ (by omega) (h.put hlt hcell)
      simp only [Option.map_some, Option.toList_some, List.cons_append, List.nil_append, List.map_cons,
        List.foldlM_cons, hwrite]
      exact this

theorem cells_line (r : HexRecord) : r.line.cells = r.cells.map fun c => (UInt16.ofNat c.1, c.2) := by
  apply List.ext_getElem?
  intro k
  simp [HexLine.cells, HexRecord.cells, HexRecord.line, placed, UInt16.ofNat_add, Function.comp_def]

theorem load_records (i : Image) : HexLine.load (i.records.map HexRecord.line) = .ok i := by
  have hcells : (i.records.map HexRecord.line).flatMap HexLine.cells =
      (i.cellsIn 0 65536).map fun c => (UInt16.ofNat c.1, c.2) := by
    rw [← i.records_spec.2, List.flatMap_map, List.map_flatMap]
    exact List.flatMap_congr fun r _ => cells_line r
  rw [HexLine.load, hcells]
  exact write_cellsIn 65536 0 .empty rfl (.empty i 0)

/-! ## Main statement -/

/-- The runs of an image are the one ascending list of its maximal runs, with holes between them. Its Intel
HEX text is read as short records with right sums, each within assigned cells, and the end; loading them
writes no cell twice and gives the image back. -/
theorem toIntelHex_lossless (i : Image) :
    (∀ rs : List Run,
      ((∀ r, r ∈ rs ↔ r.Maximal i) ∧ rs.Pairwise fun r s => r.start < s.start) ↔ rs = i.runs) ∧
    (i.runs.Pairwise fun r s => r.stop < s.start.toNat) ∧
    ∃ ls : List HexLine, HexLine.readAll? i.toIntelHex = some (ls ++ [.last]) ∧
      (∀ l ∈ ls, l.type = 0 ∧ l.count.toNat = l.data.length ∧ 1 ≤ l.data.length ∧ l.data.length ≤ 16 ∧
        l.sum = 0 ∧ i.Holds l.address.toNat l.data) ∧
      HexLine.load ls = .ok i := by
  obtain ⟨hshort, -⟩ := i.records_spec
  refine ⟨?_, i.apart_runs, i.records.map HexRecord.line, ?_, ?_, i.load_records⟩
  · intro rs
    constructor
    · rintro ⟨hmem, hascending⟩
      exact eq_runs hmem hascending
    · rintro rfl
      exact ⟨fun r => mem_runs_iff, i.ascending_runs⟩
  · apply HexLine.readAll?_records
    intro r hr
    have := (hshort r hr).2
    omega
  · intro l hl
    obtain ⟨r, hr, rfl⟩ := List.mem_map.1 hl
    obtain ⟨hpos, hle⟩ := hshort r hr
    have hlt : r.bytes.length < 256 := by omega
    exact ⟨rfl, UInt8.toNat_ofNat_of_lt' hlt, hpos, hle, r.sum_line, holds_of_mem_records hr⟩

end Image

end Mos6502
