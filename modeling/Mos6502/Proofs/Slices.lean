import Mos6502.Proofs.Cells
import Mos6502.Proofs.Region

/-!
# Regions and slices

The instructions of a region are made of its assigned cells, each once and in
order. Bytes decoded as a slice give the same instructions as the region of an
image that holds just these bytes.

Main statement: `Disassembler.region_covers_cells`.
-/
namespace Mos6502

namespace Instruction

/-- The cells that an instruction takes. -/
def cells (i : Instruction) : List (Nat × UInt8) :=
  Image.placed i.address.toNat i.bytes

theorem size_pos (i : Instruction) : 0 < i.size :=
  Nat.succ_pos _

theorem StandsIn.holds {i : Instruction} {image : Image} {stop n : Nat} (h : i.StandsIn image stop n)
    (hstop : stop ≤ 65536) : image.Holds n i.bytes := by
  intro k hk
  have hbound := h.bound
  have hk' : k < i.size := hk
  rw [Image.cell?_of_lt _ (by omega), h.bytes k hk]

end Instruction

/-! ## Regions -/

namespace Disassembler

section Walks
variable {image : Image} {stop n : Nat} {is : List Instruction} (h : Walks image stop n is)
include h

theorem Walks.standsIn : ∀ i ∈ is, n ≤ i.address.toNat ∧ i.StandsIn image stop i.address.toNat := by
  induction h with
  | done => nofun
  | hole _ _ _ ih =>
    intro i hi
    exact ⟨by have := (ih i hi).1; omega, (ih i hi).2⟩
  | found _ hstands _ ih =>
    intro i hi
    rcases List.mem_cons.1 hi with rfl | hi
    · have haddress := hstands.address
      exact ⟨by omega, by rwa [haddress]⟩
    · exact ⟨by have := (ih i hi).1; omega, (ih i hi).2⟩

theorem Walks.ascending : is.Pairwise fun i j => i.address < j.address := by
  induction h with
  | done => exact .nil
  | hole _ _ _ ih => exact ih
  | @found n i is _ hstands hwalks ih =>
    refine List.pairwise_cons.2 ⟨?_, ih⟩
    intro j hj
    have hj := (hwalks.standsIn j hj).1
    have haddress := hstands.address
    have hpos := i.size_pos
    rw [UInt16.lt_iff_toNat_lt]
    omega

theorem Walks.cells (hstop : stop ≤ 65536) : is.flatMap Instruction.cells = image.cellsIn n stop := by
  induction h with
  | done hn => exact (Image.cellsIn_of_le image hn).symm
  | hole hn hhole _ ih =>
    rw [Image.cellsIn_of_lt image hn, Image.cell?_of_lt image (by omega), hhole, ih]
    rfl
  | found hn hstands _ ih =>
    have haddress := hstands.address
    rw [List.flatMap_cons, ih, Image.cellsIn_of_holds (hstands.holds hstop) hstands.bound, Instruction.cells, haddress]
    rfl

end Walks

end Disassembler

/-! ## Slices -/

namespace Instruction

theorem cells?_of_holds {image : Image} {n size : Nat} {bs : List UInt8} (h : image.Holds n bs)
    (hbound : n + bs.length ≤ 65536) (hsize : size ≤ bs.length) :
    cells? image (UInt16.ofNat n) size = some (bs.take size) := by
  apply mapM_eq_some_of_map
  apply List.ext_getElem
  · simp [hsize]
  · intro k hk _
    rw [List.length_map, List.length_range] at hk
    have := h k (by omega)
    rw [Image.cell?_of_lt _ (by omega), UInt16.ofNat_add, List.getElem?_eq_getElem (by omega)] at this
    simpa using this

theorem decode?_of_none {b : UInt8} (ho : Opcode.ofCode? b = none) (rest : List UInt8) (a : UInt16) :
    decode? (b :: rest) a = none := by
  unfold decode?
  simp only [ho]

theorem decode?_of_some {b : UInt8} {o : Opcode} (ho : Opcode.ofCode? b = some o) (rest : List UInt8) (a : UInt16) :
    decode? (b :: rest) a =
      if o.size ≤ (b :: rest).length then some ⟨a, b, some o, rest.take o.mode.operandBytes⟩ else none := by
  have hfits : (rest.take o.mode.operandBytes).length = o.mode.operandBytes ↔ o.size ≤ (b :: rest).length := by
    simp only [List.length_take, List.length_cons, Opcode.size, Mode.size]
    omega
  unfold decode?
  simp only [ho, hfits]

/-- The bytes after an instruction have no part in it. -/
theorem decode?_take {b : UInt8} {o : Opcode} (ho : Opcode.ofCode? b = some o) (rest : List UInt8) (a : UInt16) :
    decode? ((b :: rest).take o.size) a = decode? (b :: rest) a := by
  have hsize : o.size = o.mode.operandBytes + 1 := Nat.add_comm _ _
  have htake : (b :: rest).take o.size = b :: rest.take o.mode.operandBytes := by
    rw [hsize, List.take_succ_cons]
  rw [htake, decode?_of_some ho, decode?_of_some ho, List.take_take, Nat.min_self]
  simp only [← htake, List.length_take, Nat.le_min, Nat.le_refl, true_and]

/-- The instruction at the start of bytes, or the first byte as data. -/
def first (a : UInt16) (b : UInt8) (rest : List UInt8) : Instruction :=
  (decode? (b :: rest) a).getD (.data a b)

/-- Decoding from an image that holds the bytes up to `stop` is decoding the bytes. -/
theorem decodeAt?_of_holds {image : Image} {n stop : Nat} {b : UInt8} {rest : List UInt8}
    (h : image.Holds n (b :: rest)) (hstop : n + (b :: rest).length = stop) :
    decodeAt? image (UInt16.ofNat n) stop = some (first (UInt16.ofNat n) b rest) := by
  have hbound := h.bound (List.cons_ne_nil b rest)
  have hlen : 0 < (b :: rest).length := Nat.succ_pos _
  have hfirst : image.get? (UInt16.ofNat n) = some b := by
    rw [← Image.cell?_of_lt image (by omega)]
    exact (Image.holds_cons.1 h).1
  unfold decodeAt? first
  simp only [hfirst, Image.toNat_ofNat (show n < 65536 by omega)]
  cases ho : Opcode.ofCode? b with
  | none => simp [decode?_of_none ho]
  | some o =>
    -- the instruction ends before `stop` exactly if the bytes hold all of it
    by_cases hfits : o.size ≤ (b :: rest).length
    · have hmin : n + o.size ≤ min stop 65536 := by omega
      simp only [Option.bind_eq_bind, Option.bind_some, if_pos hmin, cells?_of_holds h hbound hfits, decode?_take ho]
    · have hmin : ¬ n + o.size ≤ min stop 65536 := by omega
      simp only [Option.bind_eq_bind, Option.bind_some, if_neg hmin, decode?_of_some ho, if_neg hfits]

theorem bytes_first (a : UInt16) (b : UInt8) (rest : List UInt8) :
    (first a b rest).bytes ++ rest.drop (first a b rest).operands.length = b :: rest := by
  unfold first
  cases hi : decode? (b :: rest) a with
  | none => rfl
  | some i =>
    obtain ⟨tail, htail⟩ := (decode?_eq_some hi).2.2
    rw [bytes, List.cons_append, List.cons.injEq] at htail
    obtain ⟨rfl, rfl⟩ := htail
    simp [bytes]

end Instruction

namespace Disassembly

theorem sliceFrom_bytes (found : Array Instruction) (a : UInt16) (bs : List UInt8) :
    (sliceFrom found a bs).toList.flatMap Instruction.bytes = found.toList.flatMap Instruction.bytes ++ bs := by
  fun_induction sliceFrom found a bs with
  | case1 => simp
  | case2 found a b rest i ih =>
    have hbytes : i.bytes ++ rest.drop i.operands.length = b :: rest := Instruction.bytes_first a b rest
    rw [ih, Array.toList_push, List.flatMap_append, List.append_assoc, List.flatMap_singleton, hbytes]

/-- The walk over an image that holds the bytes goes from instruction to instruction as the slice does. -/
theorem sliceFrom_eq_walk (image : Image) (stop : Nat) (found : Array Instruction) (a : UInt16) (bs : List UInt8) :
    ∀ n, UInt16.ofNat n = a → image.Holds n bs → n + bs.length = stop →
      sliceFrom found a bs = Disassembler.walk image stop found n := by
  fun_induction sliceFrom found a bs with
  | case1 =>
    intro n _ _ hstop
    rw [Disassembler.walk, if_neg]
    simp only [List.length_nil] at hstop
    omega
  | case2 found a b rest i ih =>
    rintro n rfl hbytes hstop
    have hi : Instruction.decodeAt? image (UInt16.ofNat n) stop = some i :=
      Instruction.decodeAt?_of_holds hbytes hstop
    have hsplit : i.bytes ++ rest.drop i.operands.length = b :: rest := Instruction.bytes_first _ b rest
    rw [← hsplit] at hbytes hstop
    rw [List.length_append] at hstop
    have hpos := i.size_pos
    have hsize : i.bytes.length = i.size := rfl
    rw [Disassembler.walk, if_pos (by omega), hi]
    exact ih (n + i.size) (UInt16.ofNat_add _ _) (Image.holds_append.1 hbytes).2 (by omega)

end Disassembly

/-! ## Main statement -/

namespace Disassembler

theorem slice_eq_region {bs : List UInt8} {start : UInt16} (h : start.toNat + bs.length ≤ 65536)
    (options : FormatOptions) :
    Disassembly.slice bs start =
      region ⟨.ofBytes start bs, options⟩ start (UInt32.ofNat bs.length) := by
  have hlt : bs.length < 2 ^ 32 := by omega
  have hlength : (UInt32.ofNat bs.length).toNat = bs.length := UInt32.toNat_ofNat_of_lt' hlt
  have hend : start.toNat + bs.length = regionEnd start (UInt32.ofNat bs.length) := by
    rw [regionEnd, hlength, Nat.min_eq_left h]
  have hwalk := Disassembly.sliceFrom_eq_walk (.ofBytes start bs) _ #[] start bs start.toNat UInt16.ofNat_toNat
    (Image.holds_ofBytes h) hend
  rw [Disassembly.slice, hwalk, region]

/-- The instructions of a region are its assigned cells, each once and in order, whatever holes cut it up.
The slice decoder finds the instructions that a region of the same bytes has. -/
theorem region_covers_cells :
    (∀ (d : Disassembler) (start : UInt16) (length : UInt32),
      (d.region start length).Pairwise (fun i j => i.address < j.address) ∧
      (∀ i ∈ d.region start length, start ≤ i.address ∧
        i.address.toNat + i.size ≤ min (start.toNat + length.toNat) 65536 ∧
        d.image.Holds i.address.toNat i.bytes) ∧
      (d.region start length).flatMap Instruction.cells =
        d.image.cellsIn start.toNat (min (start.toNat + length.toNat) 65536)) ∧
    ∀ (bs : List UInt8) (start : UInt16) (options : FormatOptions), start.toNat + bs.length ≤ 65536 →
      Disassembly.slice bs start = region ⟨.ofBytes start bs, options⟩ start (UInt32.ofNat bs.length) ∧
      (Disassembly.slice bs start).flatMap Instruction.bytes = bs := by
  constructor
  · intro d start length
    have hwalks := d.region_walks start length
    have hstop : regionEnd start length ≤ 65536 := Nat.min_le_right _ _
    refine ⟨hwalks.ascending, ?_, hwalks.cells hstop⟩
    intro i hi
    obtain ⟨hstart, hstands⟩ := hwalks.standsIn i hi
    exact ⟨UInt16.le_iff_toNat_le.2 hstart, hstands.bound, hstands.holds hstop⟩
  · intro bs start options h
    refine ⟨slice_eq_region h options, ?_⟩
    exact Disassembly.sliceFrom_bytes #[] start bs

/-- A byte that is no instruction, an instruction, and one that the top of memory cuts off. -/
theorem region_covers_cells_top :
    (0xFFFC : UInt16).toNat + [0x02, 0xA9, 0x01, 0xAD].length ≤ 65536 ∧
    Disassembly.slice [0x02, 0xA9, 0x01, 0xAD] 0xFFFC =
      [.data 0xFFFC 0x02, ⟨0xFFFD, 0xA9, some ⟨0xA9, .lda, .immediate, 2⟩, [0x01]⟩, .data 0xFFFF 0xAD] ∧
    Disassembly.slice [0x02, 0xA9, 0x01, 0xAD] 0xFFFC =
      region ⟨.ofBytes 0xFFFC [0x02, 0xA9, 0x01, 0xAD], {}⟩ 0xFFFC 4 ∧
    (Disassembly.slice [0x02, 0xA9, 0x01, 0xAD] 0xFFFC).flatMap Instruction.bytes = [0x02, 0xA9, 0x01, 0xAD] :=
  ⟨by decide, by decide +kernel, region_covers_cells.2 _ _ {} (by decide)⟩

end Disassembler

end Mos6502
