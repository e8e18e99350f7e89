import Mos6502.Assembly.Plan
import Mos6502.Disassembly.Region
import Mos6502.Proofs.Decoded
import Mos6502.Proofs.Image

/-!
# What a region holds

The walk over a region passes every cell once: it steps over holes and stops at
instructions that stand in the image with all their bytes, one after another.
-/
namespace Mos6502

theorem mapM_eq_some {α β : Type} {f : α → Option β} {xs : List α} {ys : List β} (h : xs.mapM f = some ys) :
    xs.map f = ys.map some := by
  induction xs generalizing ys with
  | nil =>
    cases h
    rfl
  | cons x xs ih =>
    simp only [List.mapM_cons, bind, Option.bind_eq_some_iff, pure, Option.some.injEq] at h
    obtain ⟨y, hy, zs, hzs, rfl⟩ := h
    rw [List.map_cons, List.map_cons, hy, ih hzs]

theorem mapM_eq_some_of_map {α β : Type} {f : α → Option β} {xs : List α} {ys : List β}
    (h : xs.map f = ys.map some) : xs.mapM f = some ys := by
  induction xs generalizing ys with
  | nil =>
    cases ys with
    | nil => rfl
    | cons => cases h
  | cons x xs ih =>
    cases ys with
    | nil => cases h
    | cons y ys =>
      rw [List.map_cons, List.map_cons, List.cons.injEq] at h
      simp [List.mapM_cons, h.1, ih h.2]

namespace Instruction

/-- The bytes stand in the image from the address on. -/
theorem cells?_eq_some {image : Image} {a : UInt16} {size : Nat} {bs : List UInt8}
    (h : cells? image a size = some bs) :
    bs.length = size ∧ ∀ k < size, image.get? (a + UInt16.ofNat k) = bs[k]? := by
  have hmap := mapM_eq_some h
  have hlen : bs.length = size := by
    simpa using (congrArg List.length hmap).symm
  refine ⟨hlen, fun k hk => ?_⟩
  have := congrArg (·[k]?) hmap
  simpa [hk, hlen, List.getElem?_eq_getElem] using this

theorem decode?_eq_some {bs : List UInt8} {a : UInt16} {i : Instruction} (h : decode? bs a = some i) :
    i.address = a ∧ (∃ o, i.Decoded o) ∧ i.bytes <+: bs := by
  unfold decode? at h
  split at h
  · cases h
  · rename_i code rest
    split at h
    · cases h
    · rename_i o ho
      simp only [Option.ite_none_right_eq_some, Option.some.injEq] at h
      obtain ⟨hlen, rfl⟩ := h
      exact ⟨rfl, ⟨o, rfl, ho, hlen⟩, (List.prefix_cons_inj code).2 (List.take_prefix _ _)⟩

/-- The instruction stands in the image with all its bytes, from the `n`-th cell on and before `stop`. -/
structure StandsIn (i : Instruction) (image : Image) (stop n : Nat) : Prop where
  valid : i.Valid
  address : i.address.toNat = n
  bound : n + i.size ≤ stop
  bytes : ∀ k < i.size, image.get? (UInt16.ofNat (n + k)) = i.bytes[k]?

theorem decodeAt?_eq_none {image : Image} {a : UInt16} {stop : Nat} (h : decodeAt? image a stop = none) :
    image.get? a = none := by
  unfold decodeAt? at h
  split at h
  · assumption
  · cases h

theorem standsIn_data {image : Image} {n stop : Nat} {b : UInt8} (hn : n < stop) (hstop : stop ≤ 65536)
    (hb : image.get? (UInt16.ofNat n) = some b) : (data (UInt16.ofNat n) b).StandsIn image stop n := by
  refine ⟨.inl rfl, Image.toNat_ofNat (by omega), hn, fun k hk => ?_⟩
  obtain rfl : k = 0 := Nat.lt_one_iff.1 hk
  exact hb

theorem standsIn_whole {image : Image} {n stop : Nat} {o : Opcode} {bs : List UInt8} {i : Instruction}
    (hstop : stop ≤ 65536) (hfits : n + o.size ≤ stop) (hcells : cells? image (UInt16.ofNat n) o.size = some bs)
    (hi : decode? bs (UInt16.ofNat n) = some i) : i.StandsIn image stop n := by
  obtain ⟨hlen, hget⟩ := cells?_eq_some hcells
  obtain ⟨haddress, hdecoded, hprefix⟩ := decode?_eq_some hi
  have hsize : i.size ≤ o.size := hlen ▸ hprefix.length_le
  have hpos : 0 < i.size := Nat.succ_pos _
  refine ⟨.inr hdecoded, ?_, by omega, fun k hk => ?_⟩
  · rw [haddress]
    exact Image.toNat_ofNat (by omega)
  · obtain ⟨rest, rfl⟩ := hprefix
    rw [UInt16.ofNat_add, hget k (by omega), List.getElem?_append_left hk]

theorem decodeAt?_eq_some {image : Image} {n stop : Nat} {i : Instruction} (hn : n < stop) (hstop : stop ≤ 65536)
    (h : decodeAt? image (UInt16.ofNat n) stop = some i) : i.StandsIn image stop n := by
  unfold decodeAt? at h
  split at h
  · cases h
  · rename_i code hcode
    -- a byte whose instruction is not all there stands for itself
    rcases Option.getD_eq_iff.1 (Option.some.inj h) with hwhole | ⟨-, rfl⟩
    · simp only [bind, Option.bind_eq_some_iff, Option.ite_none_right_eq_some] at hwhole
      obtain ⟨o, -, hfits, bs, hcells, hi⟩ := hwhole
      rw [Image.toNat_ofNat (by omega)] at hfits
      exact standsIn_whole hstop (by omega) hcells hi
    · exact standsIn_data hn hstop hcode

end Instruction

namespace Disassembler

/-- Walking from a cell up to `stop` finds the instructions. -/
inductive Walks (image : Image) (stop : Nat) : Nat → List Instruction → Prop
  | done {n : Nat} : stop ≤ n → Walks image stop n []
  | hole {n : Nat} {is : List Instruction} : n < stop → image.get? (UInt16.ofNat n) = none →
    Walks image stop (n + 1) is → Walks image stop n is
  | found {n : Nat} {i : Instruction} {is : List Instruction} : n < stop → i.StandsIn image stop n →
    Walks image stop (n + i.size) is → Walks image stop n (i :: is)

theorem walk_walks (image : Image) {stop : Nat} (hstop : stop ≤ 65536) (found : Array Instruction) (n : Nat) :
    ∃ is, (walk image stop found n).toList = found.toList ++ is ∧ Walks image stop n is := by
  fun_induction walk image stop found n with
  | case1 found n hn i hi ih =>
    obtain ⟨is, his, hwalks⟩ := ih
    exact ⟨i :: is, by simp [his], .found hn (Instruction.decodeAt?_eq_some hn hstop hi) hwalks⟩
  | case2 found n hn hi ih =>
    obtain ⟨is, his, hwalks⟩ := ih
    exact ⟨is, his, .hole hn (Instruction.decodeAt?_eq_none hi) hwalks⟩
  | case3 found n hn => exact ⟨[], by simp, .done (Nat.le_of_not_lt hn)⟩

theorem Walks.valid {image : Image} {stop n : Nat} {is : List Instruction} (h : Walks image stop n is) :
    ∀ i ∈ is, i.Valid := by
  induction h with
  | done => nofun
  | hole _ _ _ ih => exact ih
  | found _ hstands _ ih => exact List.forall_mem_cons.2 ⟨hstands.valid, ih⟩

theorem region_walks (d : Disassembler) (start : UInt16) (length : UInt32) :
    Walks d.image (regionEnd start length) start.toNat (d.region start length) := by
  have hstop : regionEnd start length ≤ 65536 := Nat.min_le_right _ _
  obtain ⟨is, his, hwalks⟩ := walk_walks d.image hstop #[] start.toNat
  rw [region, his]
  simpa using hwalks

end Disassembler

/-! ## Parts of an image -/

namespace Image

/-- The image has the cells of another from `first` up to `stop`, and holes elsewhere. -/
def IsPart (part image : Image) (first stop : Nat) : Prop :=
  ∀ a, part.get? a = if first ≤ a.toNat ∧ a.toNat < stop then image.get? a else none

theorem IsPart.empty (image : Image) (n : Nat) : Image.empty.IsPart image n n := by
  intro a
  rw [get?_empty, if_neg (by omega)]

theorem IsPart.hole {part image : Image} {first n : Nat} (h : part.IsPart image first n)
    (hhole : image.get? (UInt16.ofNat n) = none) : part.IsPart image first (n + 1) := by
  intro a
  rw [h a]
  by_cases ha : a.toNat = n
  · have hnone : image.get? a = none := by rw [← hhole, ← ha, UInt16.ofNat_toNat]
    simp [hnone]
  · have hlt : a.toNat < n ↔ a.toNat < n + 1 := by omega
    simp only [hlt]

theorem IsPart.free {part image : Image} {first n size : Nat} (h : part.IsPart image first n)
    (hsize : n + size ≤ 65536) : part.Free n size := by
  intro k hk
  refine ⟨by omega, ?_⟩
  rw [h, toNat_ofNat (by omega), if_neg (by omega)]

theorem IsPart.puts {part image : Image} {first n stop : Nat} {i : Instruction} (h : part.IsPart image first n)
    (hfirst : first ≤ n) (hstop : stop ≤ 65536) (hi : i.StandsIn image stop n) :
    (part.puts n i.bytes).IsPart image first (n + i.size) := by
  have hbound := hi.bound
  intro a
  have hsize : i.bytes.length = i.size := rfl
  rw [get?_puts (h.free (by omega)), h a, hsize]
  by_cases ha : n ≤ a.toNat ∧ a.toNat < n + i.size
  · have hget := hi.bytes (a.toNat - n) (by omega)
    rw [Nat.add_sub_cancel' ha.1, UInt16.ofNat_toNat] at hget
    rw [if_pos ha, if_pos (by omega), hget]
  · rw [if_neg ha]
    split
    · rw [if_pos (by omega)]
    · rw [if_neg (by omega)]

end Image

/-! ## The lines of a source -/

/-- A line of a source: its text, the statement it holds and the plan for it. -/
structure Entry where
  text : String
  statement : Option Statement
  plan : Assembly.Plan

namespace Entry

def equate (s : Symbol) : Entry :=
  ⟨s.name ++ " = $" ++ Hex.word s.address, some (.equate s.name (.number s.address.toNat)), .nothing⟩

def blank : Entry :=
  ⟨"", none, .nothing⟩

def origin (a : UInt16) : Entry :=
  ⟨"ORG $" ++ Hex.word a, some (.origin (.number a.toNat)), .nothing⟩

def code (symbols : Option SymbolTable) (i : Instruction) : Entry where
  text := "    " ++ i.render ⟨symbols, true⟩
  statement := some (i.statement symbols)
  plan := match i.opcode with
    | none => .nothing
    | some o => .instruction ⟨o, false, o.mnemonic, i.shape o⟩

/-- The lines of the instructions; an origin goes before one that does not follow on `expected`. -/
def codes (symbols : Option SymbolTable) (expected : Option Nat) : List Instruction → List Entry
  | [] => []
  | i :: is =>
    (if expected = some i.address.toNat then [] else [origin i.address]) ++
      code symbols i :: codes symbols (some (i.address.toNat + i.size)) is

/-- The equates of a source, with an empty line after them. -/
def equates (ss : List Symbol) : List Entry :=
  ss.map equate ++ if ss.isEmpty then [] else [blank]

theorem mem_codes {symbols : Option SymbolTable} {expected : Option Nat} {is : List Instruction} {e : Entry}
    (h : e ∈ codes symbols expected is) : ∃ i ∈ is, e = origin i.address ∨ e = code symbols i := by
  induction is generalizing expected with
  | nil => cases h
  | cons i is ih =>
    rw [codes, List.mem_append, List.mem_cons] at h
    rcases h with h | rfl | h
    · split at h
      · cases h
      · exact ⟨i, by simp, .inl (List.mem_singleton.1 h)⟩
    · exact ⟨i, by simp, .inr rfl⟩
    · obtain ⟨j, hj, he⟩ := ih h
      exact ⟨j, by simp [hj], he⟩

theorem code_mem_codes {symbols : Option SymbolTable} (expected : Option Nat) {is : List Instruction}
    {i : Instruction} (h : i ∈ is) : code symbols i ∈ codes symbols expected is := by
  induction is generalizing expected with
  | nil => cases h
  | cons j is ih =>
    rw [codes]
    rcases List.mem_cons.1 h with rfl | h
    · simp
    · simp [ih _ h]

theorem mem_equates {ss : List Symbol} {e : Entry} (h : e ∈ equates ss) :
    (∃ s ∈ ss, e = equate s) ∨ e = blank := by
  rcases List.mem_append.1 h with h | h
  · obtain ⟨s, hs, rfl⟩ := List.mem_map.1 h
    exact .inl ⟨s, hs, rfl⟩
  · split at h
    · cases h
    · exact .inr (List.mem_singleton.1 h)

/-- The text of the lines, with their ends. -/
def join (es : List Entry) : String :=
  String.join (es.map (·.text ++ "\n"))

end Entry

namespace Disassembler

theorem sourceLine_eq (image : Image) (symbols : Option SymbolTable) (expected : Option Nat) (i : Instruction) :
    sourceLine ⟨image, symbols, true⟩ expected i =
      Entry.join ((if expected = some i.address.toNat then [] else [.origin i.address]) ++ [.code symbols i]) := by
  unfold sourceLine Entry.join
  split
  · simp [Entry.code, String.join_cons, String.append_assoc, toString]
  · simp only [Entry.origin, Entry.code, String.join_cons, String.join_nil, String.append_assoc, toString,
      List.map_cons, List.map_nil, List.cons_append, List.nil_append, String.append_empty]

theorem join_sourceLines (image : Image) (symbols : Option SymbolTable) (expected : Option Nat)
    (is : List Instruction) :
    String.join ((is.zip (expected :: is.map fun i => some (i.address.toNat + i.size))).map
        fun (i, expected) => sourceLine ⟨image, symbols, true⟩ expected i) =
      Entry.join (Entry.codes symbols expected is) := by
  induction is generalizing expected with
  | nil => rfl
  | cons i is ih =>
    rw [List.map_cons, List.zip_cons_cons, List.map_cons, String.join_cons, ih, Entry.codes]
    dsimp only
    rw [sourceLine_eq]
    simp [Entry.join, String.join_cons, String.join_append, String.append_assoc]

/-- The entries of the source for a region. -/
def entries (d : Disassembler) (start : UInt16) (length : UInt32) : List Entry :=
  Entry.equates (d.usedSymbols (d.region start length)) ++
    Entry.codes d.options.symbols none (d.region start length)

theorem source_eq (image : Image) (symbols : Option SymbolTable) (start : UInt16) (length : UInt32) :
    source ⟨image, symbols, true⟩ start length = Entry.join (entries ⟨image, symbols, true⟩ start length) := by
  have hcode := join_sourceLines image symbols none (region ⟨image, symbols, true⟩ start length)
  unfold source sourceLines entries
  dsimp only
  rw [hcode]
  cases usedSymbols ⟨image, symbols, true⟩ (region ⟨image, symbols, true⟩ start length) with
  | nil => simp [Entry.equates]
  | cons s ss =>
    simp [Entry.join, Entry.equates, Entry.equate, Entry.blank, String.join_cons, String.join_append,
      String.append_assoc, toString, Function.comp_def]

end Disassembler

/-! ## Splitting a source into its lines -/

namespace Lines

theorem split_join {es : List Entry} (h : ∀ e ∈ es, Plain e.text) :
    split (Entry.join es).toList = es.map (·.text.toList) := by
  have hlines := @split_lines (es.map (·.text)) (by simpa using fun e he => (h e he).isLine)
  rwa [List.map_map, List.map_map] at hlines

end Lines

end Mos6502
