/-!
# Symbols

Names with sixteen-bit values. A table is ordered by name and holds each name
once. A name keeps its first value: defining it again with the same value
changes nothing, and with another value is refused.
-/
namespace Mos6502

structure Symbol where
  name : String
  address : UInt16
  /-- The line that defined it. -/
  line : Nat
deriving DecidableEq

structure SymbolTable where
  symbols : List Symbol
  sorted : symbols.Pairwise (·.name < ·.name)

namespace SymbolTable

def empty : SymbolTable :=
  ⟨[], .nil⟩

/-- The symbol of that name. -/
def find? (t : SymbolTable) (name : String) : Option Symbol :=
  t.symbols.find? (·.name == name)

/-- The value of a name. -/
def address? (t : SymbolTable) (name : String) : Option UInt16 :=
  (t.find? name).map (·.address)

def size (t : SymbolTable) : Nat :=
  t.symbols.length

/-- The first name with the value. -/
def nameOf? (t : SymbolTable) (address : UInt16) : Option String :=
  (t.symbols.find? (·.address == address)).map (·.name)

/-- Puts a symbol before the first greater name. -/
def place (s : Symbol) : List Symbol → List Symbol
  | [] => [s]
  | t :: ts => if s.name < t.name then s :: t :: ts else t :: place s ts

theorem mem_place {s t : Symbol} {ts : List Symbol} : t ∈ place s ts ↔ t = s ∨ t ∈ ts := by
  induction ts with
  | nil => simp [place]
  | cons u ts ih =>
    unfold place
    split
    · simp
    · simp [ih, or_left_comm]

theorem sorted_place {s : Symbol} {ts : List Symbol} (h : ts.Pairwise (·.name < ·.name))
    (hs : ∀ t ∈ ts, t.name ≠ s.name) : (place s ts).Pairwise (·.name < ·.name) := by
  induction ts with
  | nil => simp [place]
  | cons t ts ih =>
    obtain ⟨ht, hts⟩ := List.pairwise_cons.1 h
    unfold place
    split
    · rename_i hst
      refine List.pairwise_cons.2 ⟨fun u hu => ?_, h⟩
      rcases List.mem_cons.1 hu with rfl | hu
      · exact hst
      · exact String.lt_trans hst (ht u hu)
    · rename_i hst
      refine List.pairwise_cons.2 ⟨fun u hu => ?_, ih hts fun u hu => hs u (by simp [hu])⟩
      rcases mem_place.1 hu with rfl | hu
      · exact Std.lt_of_le_of_ne (Std.not_lt.1 hst) (hs t (by simp))
      · exact ht u hu

/-- Adds a name, or answers with the symbol that has another value for it. -/
def define (t : SymbolTable) (s : Symbol) : Except Symbol SymbolTable :=
  match h : t.find? s.name with
  | some old => if old.address = s.address then .ok t else .error old
  | none => .ok ⟨place s t.symbols, sorted_place t.sorted fun u hu hn => by
      have := List.find?_eq_none.1 h u hu
      simp [hn] at this⟩

end SymbolTable

end Mos6502
