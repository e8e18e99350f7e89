import Mos6502.Text.Hex

/-!
# Comparing bytes

Two sequences of bytes side by side: where they first differ, in how many
places, and patterns that hint at the reason.
-/
namespace Mos6502

/-- Different bytes at one offset. -/
structure Difference where
  offset : Nat
  reference : UInt8
  candidate : UInt8
deriving DecidableEq

namespace Difference

/-- How far the candidate is above the reference. -/
def delta (d : Difference) : UInt8 :=
  d.candidate - d.reference

/-- The offset as an address. -/
def address (d : Difference) (base : UInt16) : UInt16 :=
  base + UInt16.ofNat d.offset

end Difference

/-- A hint at the reason for differences. -/
inductive Pattern
  /-- A run of bytes that all differ by the same amount. -/
  | constantOffset (start : UInt16) (length : Nat) (delta : UInt8)
  /-- Two neighbours in exchanged places. -/
  | swapped (address : UInt16)
  /-- A single byte that is one too high or too low. -/
  | offByOne (address : UInt16)
  /-- The candidate is the start of the reference. -/
  | truncated (missing : Nat)
  /-- The lengths differ by no more than an instruction has bytes. -/
  | sizeDelta (difference : Int)
deriving DecidableEq

def Pattern.describe : Pattern → String
  | constantOffset start length delta =>
    s!"{length} bytes from ${Hex.word start} differ by a constant ${Hex.byte delta} (wrong base address?)"
  | swapped address => s!"bytes at ${Hex.word address} are swapped (endianness?)"
  | offByOne address => s!"byte at ${Hex.word address} is off by one"
  | truncated missing => s!"candidate is truncated, {missing} bytes missing"
  | sizeDelta difference => s!"length differs by {difference} bytes (missing or extra operand?)"

/-- How two sequences differ. -/
structure Report where
  base : UInt16
  first : Option Difference
  /-- Differences within the common length. -/
  count : Nat
  /-- Both lengths, if they differ. -/
  lengths : Option (Nat × Nat)
  patterns : List Pattern
deriving DecidableEq

inductive Comparison
  | identical
  | mismatch (report : Report)
deriving DecidableEq

namespace Comparison

/-- The differences within the common length, by offset. -/
def differences (reference candidate : List UInt8) : List Difference :=
  (reference.zip candidate).zipIdx.filterMap fun ((o, c), offset) =>
    if o = c then none else some ⟨offset, o, c⟩

/-- How many differences go on right after `offset` with the same delta. -/
def runLength (delta : UInt8) (offset count : Nat) : List Difference → Nat
  | [] => count
  | d :: ds =>
    if d.offset = offset + 1 ∧ d.delta = delta then runLength delta d.offset (count + 1) ds else count

/-- The second difference undoes the first: the bytes changed places. -/
def isSwap (d e : Difference) : Bool :=
  e.offset = d.offset + 1 && d.reference = e.candidate && e.reference = d.candidate

/-- The pattern of a single difference, given the offset of the one before it and those after it. -/
def single? (base : UInt16) (before : Option Nat) (d : Difference) (after : List Difference) :
    Option Pattern :=
  let alone := before.all (· + 1 ≠ d.offset) && after.head?.all (·.offset ≠ d.offset + 1)
  if alone && (d.delta = 0x01 || d.delta = 0xFF) then some (.offByOne (d.address base)) else none

/-- The patterns of differences by offset, after those already found, which stand last first.
`before` is the offset of the difference right before the list. -/
def patternsFrom (base : UInt16) (found : List Pattern) (before : Option Nat) (ds : List Difference) :
    List Pattern :=
  match ds with
  | [] => found.reverse
  | d :: rest =>
    if rest.head?.any (isSwap d) then
      patternsFrom base (.swapped (d.address base) :: found) (some (d.offset + 1)) (rest.drop 1)
    else
      let more := runLength d.delta d.offset 0 rest
      let pattern :=
        if more = 0 then single? base before d rest
        else some (.constantOffset (d.address base) (more + 1) d.delta)
      patternsFrom base (pattern.toList ++ found) (some (d.offset + more)) (rest.drop more)
termination_by ds.length
decreasing_by all_goals simp only [List.length_drop, List.length_cons]; omega

/-- The patterns that follow from the lengths. -/
def lengthPatterns (reference candidate : Nat) (prefixOnly : Bool) : List Pattern :=
  let truncated := if candidate < reference ∧ prefixOnly then [.truncated (reference - candidate)] else []
  let difference : Int := candidate - reference
  let size := if 1 ≤ difference.natAbs ∧ difference.natAbs ≤ 3 then [.sizeDelta difference] else []
  truncated ++ size

/-- Compares a candidate with a reference whose first byte stands at `base`. -/
def of (reference candidate : List UInt8) (base : UInt16) : Comparison :=
  if reference = candidate then .identical
  else
    let ds := differences reference candidate
    let n := reference.length
    let k := candidate.length
    .mismatch {
      base
      first := ds.head?
      count := ds.length
      lengths := if n = k then none else some (n, k)
      patterns := patternsFrom base [] none ds ++ lengthPatterns n k ds.isEmpty }

end Comparison

namespace Report

/-- The report as lines of text. -/
def render (r : Report) : String :=
  let first := match r.first with
    | none => ""
    | some d =>
      s!"first difference at ${Hex.word (d.address r.base)} (offset {d.offset}): " ++
        s!"original ${Hex.byte d.reference}, candidate ${Hex.byte d.candidate}\n" ++
        s!"{r.count} differing bytes\n"
  let lengths := match r.lengths with
    | none => ""
    | some (reference, candidate) => s!"length: original {reference} bytes, candidate {candidate} bytes\n"
  first ++ lengths ++ String.join (r.patterns.map fun p => s!"pattern: {p.describe}\n")

end Report

end Mos6502
