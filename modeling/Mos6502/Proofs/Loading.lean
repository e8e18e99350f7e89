import Mos6502.CommandLine.Run
import Mos6502.Proofs.Passes
import Mos6502.Proofs.Runs
import Mos6502.Workbench

/-!
# Loading a program

Every byte of an image goes to its own cell, the reset vector takes two cells at
the top of memory, and a processor that is reset starts where it points to. So a
machine that was loaded with an assembled source holds its bytes outside the
reset vector, and it stands at the lowest of them.

Main statement: `assembled_program_loads`.
-/
namespace Mos6502

/-! ## Assigned cells -/

namespace Image

theorem mem_cellList {i : Image} {a : UInt16} {b : UInt8} : (a, b) ∈ i.cellList ↔ i.get? a = some b := by
  have hmem : (a, b) ∈ i.cellList ↔ (a.toNat, b) ∈ i.cellsIn 0 65536 := by
    rw [← cellList_eq, List.mem_map]
    constructor
    · intro h
      exact ⟨_, h, rfl⟩
    · rintro ⟨⟨a', b'⟩, h, heq⟩
      simp only [Prod.mk.injEq, UInt16.toNat_inj] at heq
      rwa [heq.1, heq.2] at h
  rw [hmem, mem_cellsIn, cell?_of_lt i a.toNat_lt, UInt16.ofNat_toNat]
  simp [a.toNat_lt]

theorem start?_eq (i : Image) : i.start? = i.cellList.head?.map (·.1) := by
  unfold start? range?
  cases i.cellList with
  | nil => rfl
  | cons c cs =>
    cases hlast : (c :: cs).getLast? with
    | none => simp at hlast
    | some last => simp [hlast]

theorem start?_eq_none {i : Image} : i.start? = none ↔ ∀ a, i.get? a = none := by
  rw [start?_eq, Option.map_eq_none_iff, List.head?_eq_none_iff, List.eq_nil_iff_forall_not_mem]
  constructor
  · intro h a
    rw [Option.eq_none_iff_forall_ne_some]
    exact fun b hb => h (a, b) (mem_cellList.2 hb)
  · rintro h ⟨a, b⟩ hmem
    cases (h a).symm.trans (mem_cellList.1 hmem)

/-- The start of an image is its lowest assigned address. -/
theorem start?_eq_some {i : Image} {a : UInt16} :
    i.start? = some a ↔ (∃ b, i.get? a = some b) ∧ ∀ c b, i.get? c = some b → a ≤ c := by
  have hlowest {a : UInt16} (h : i.start? = some a) :
      (∃ b, i.get? a = some b) ∧ ∀ c b, i.get? c = some b → a ≤ c := by
    rw [start?_eq] at h
    obtain ⟨⟨a, b⟩, hhead, rfl⟩ := Option.map_eq_some_iff.1 h
    obtain ⟨cs, hcs⟩ := List.head?_eq_some_iff.1 hhead
    have hascending := ascending_cellList i
    rw [hcs, List.pairwise_cons] at hascending
    refine ⟨⟨b, mem_cellList.1 (List.mem_of_head? hhead)⟩, fun c d hc => ?_⟩
    have hmem := mem_cellList.2 hc
    rw [hcs, List.mem_cons] at hmem
    rcases hmem with heq | hmem
    · cases heq
      exact UInt16.le_refl _
    · exact UInt16.le_of_lt (hascending.1 _ hmem)
  refine ⟨hlowest, ?_⟩
  rintro ⟨⟨b, hb⟩, hle⟩
  cases hstart : i.start? with
  | none => cases (start?_eq_none.1 hstart a).symm.trans hb
  | some s =>
    obtain ⟨⟨d, hd⟩, hles⟩ := hlowest hstart
    rw [UInt16.le_antisymm (hles a b hb) (hle s d hd)]

end Image

namespace Memory

theorem read_foldl_write {cs : List (UInt16 × UInt8)} (h : cs.Pairwise fun c d => c.1 < d.1) (m : Memory)
    {a : UInt16} {b : UInt8} (hmem : (a, b) ∈ cs) : (cs.foldl (fun m c => m.write c.1 c.2) m).read a = b := by
  induction cs using List.reverseRecOn with
  | nil => cases hmem
  | append_singleton cs c ih =>
    rw [List.pairwise_append] at h
    rw [List.foldl_append, List.foldl_cons, List.foldl_nil, read_write]
    rcases List.mem_append.1 hmem with hmem | hmem
    · -- a later cell is a higher one, so it does not write over this one
      have hlt : a < c.1 := h.2.2 _ hmem c List.mem_cons_self
      have hne : c.1 ≠ a := by
        rintro rfl
        exact UInt16.lt_irrefl _ hlt
      rw [if_neg hne, ih h.1 hmem]
    · obtain rfl := List.mem_singleton.1 hmem
      rw [if_pos rfl]

theorem read_loadImage (m : Memory) {i : Image} {a : UInt16} {b : UInt8} (h : i.get? a = some b) :
    (m.loadImage i).read a = b :=
  read_foldl_write (Image.ascending_cellList i) m (Image.mem_cellList.2 h)

theorem read_setResetVector (m : Memory) (v : UInt16) {a : UInt16} (hlow : a ≠ 0xFFFC) (hhigh : a ≠ 0xFFFD) :
    (m.setResetVector v).read a = m.read a := by
  rw [setResetVector, read_write, read_write, if_neg hhigh.symm, if_neg hlow.symm]

theorem readWord_setResetVector (m : Memory) (v : UInt16) : (m.setResetVector v).readWord 0xFFFC = v := by
  have hlow : (m.setResetVector v).read 0xFFFC = v.toUInt8 := by
    rw [setResetVector, read_write, read_write, if_neg (by decide), if_pos rfl]
  have hhigh : (m.setResetVector v).read (0xFFFC + 1) = (v >>> 8).toUInt8 := by
    rw [setResetVector, read_write, if_pos (by decide)]
  rw [readWord, hlow, hhigh, Encoding.word_littleEndian]

end Memory

/-! ## Loaded machines -/

/-- The machine holds the bytes of the image outside the reset vector and stands at the lowest byte of the
image, or at `entry` if it has none. -/
structure Machine.Ready (m : Machine) (image : Image) (entry : UInt16) : Prop where
  bytes (a : UInt16) (b : UInt8) : image.get? a = some b → a ≠ 0xFFFC → a ≠ 0xFFFD → m.memory.read a = b
  lowest (a : UInt16) (b : UInt8) : image.get? a = some b →
    (∃ c, image.get? m.registers.pc = some c) ∧ m.registers.pc ≤ a
  empty : (∀ a, image.get? a = none) → m.registers.pc = entry

theorem Machine.ready_reset (image : Image) (entry : UInt16) :
    (reset ((Memory.zero.loadImage image).setResetVector (image.start?.getD entry))).Ready image entry := by
  have hpc : (reset ((Memory.zero.loadImage image).setResetVector (image.start?.getD entry))).registers.pc =
      image.start?.getD entry := Memory.readWord_setResetVector _ _
  refine ⟨fun a b hb hlow hhigh => ?_, fun a b hb => ?_, fun h => ?_⟩
  · exact (Memory.read_setResetVector _ _ hlow hhigh).trans (Memory.read_loadImage _ hb)
  · rw [hpc]
    cases hstart : image.start? with
    | none => cases (Image.start?_eq_none.1 hstart a).symm.trans hb
    | some start =>
      obtain ⟨hassigned, hle⟩ := Image.start?_eq_some.1 hstart
      exact ⟨hassigned, hle a b hb⟩
  · rw [hpc, Image.start?_eq_none.2 h, Option.getD_none]

theorem Workbench.assemble_of_ok {source : String} {output : Assembly.Output} (h : Mos6502.assemble source = .ok output)
    (w : Workbench) : w.assemble source = (.ok output.image, boot output.image) := by
  simp only [assemble, h]

/-! ## Tasks on files in memory -/

namespace CommandLine.Task

/-- The answer of a task, and what it leaves behind. -/
def perform {α : Type} (x : Task (StateM Transcript) α) (t : Transcript) : Except String α × Transcript :=
  x.run.run t

theorem perform_bind {α β : Type} {x : Task (StateM Transcript) α} {t t' : Transcript} {a : α}
    (h : perform x t = (.ok a, t')) (f : α → Task (StateM Transcript) β) : perform (x >>= f) t = perform (f a) t' := by
  unfold perform at h ⊢
  rw [ExceptT.run_bind, StateT.run_bind, h]
  rfl

theorem read_of_ok {path : String} {t : Transcript} {bytes : List UInt8} (h : t.directory.read path = .ok bytes) :
    perform (read path) t = (.ok bytes, t) := by
  have hhost : perform (Host.readFile path : StateM Transcript _) t = (.ok (t.directory.read path), t) := rfl
  rw [read, perform_bind hhost, h]
  rfl

theorem readText_of_ok {path : String} {t : Transcript} {bytes : List UInt8} {text : String}
    (h : t.directory.read path = .ok bytes) (htext : String.fromUTF8? ⟨bytes.toArray⟩ = some text) :
    perform (readText path) t = (.ok text, t) := by
  rw [readText, perform_bind (read_of_ok h), htext]
  rfl

theorem assemble_of_ok {path : String} {t : Transcript} {source : String} {settings : Assembly.Settings}
    {output : Assembly.Output} (hread : perform (readText path) t = (.ok source, t))
    (h : (Assembly.run settings .builtin source).toExcept = .ok output) :
    perform (assemble path settings) t = (.ok output, t) := by
  rw [assemble, perform_bind hread, h]
  rfl

/-- The memory of a simulation of a source that assembles. -/
theorem loaded_of_ok {o : SimOptions} (hsource : isSource o.input = true) {t : Transcript} {source : String}
    (hread : perform (readText o.input) t = (.ok source, t)) {output : Assembly.Output}
    (h : Mos6502.assemble source = .ok output) :
    perform (loaded o) t =
      (.ok ((Memory.zero.loadImage output.image).setResetVector ((o.start <|> output.image.start?).getD o.load)), t) := by
  have hassemble : perform (assemble o.input {}) t = (.ok output, t) := assemble_of_ok hread h
  rw [loaded, if_pos hsource, perform_bind hassemble]
  rfl

end CommandLine.Task

open CommandLine

/-- A source that assembles becomes the program of the workbench, whatever was there before, and that of a
simulation. Outside the reset vector the machine then holds its bytes, and it starts at the lowest of them.
Without any byte a workbench starts at zero and a simulation where it would load a binary. -/
theorem assembled_program_loads (source : String) (output : Assembly.Output) (h : Mos6502.assemble source = .ok output) :
    (∀ w : Workbench, (w.assemble source).1 = .ok output.image ∧ (w.assemble source).2.program = output.image ∧
      (w.assemble source).2.machine.Ready output.image 0) ∧
      ∀ (o : SimOptions) (t : Transcript) (bytes : List UInt8), Task.isSource o.input = true → o.start = none →
        t.directory.read o.input = .ok bytes → String.fromUTF8? ⟨bytes.toArray⟩ = some source →
        ∃ memory, Task.perform (Task.loaded o) t = (.ok memory, t) ∧
          (Machine.reset memory).Ready output.image o.load := by
  constructor
  · intro w
    rw [Workbench.assemble_of_ok h]
    exact ⟨rfl, rfl, Machine.ready_reset output.image 0⟩
  · intro o t bytes hsource hstart hread htext
    have hloaded := Task.loaded_of_ok hsource (Task.readText_of_ok hread htext) h
    rw [hstart] at hloaded
    exact ⟨_, hloaded, Machine.ready_reset output.image o.load⟩

/-! ## A source in a file -/

theorem CommandLine.Directory.parts_name : parts "a.s" = ["a.s"] := by
  have hsplit : "a.s".splitOn "/" = ["a.s"] := by
    rw [String.splitOn, if_neg (by decide)]
    iterate 3 rw [String.splitOnAux, if_neg (by decide), if_neg (by decide)]
    rw [String.splitOnAux, if_pos (by decide)]
    decide
  rw [parts, hsplit]
  decide

/-- The transcript before a command, with one source on file. -/
def onFile (source : String) : Transcript :=
  ⟨⟨[(["a.s"], source.toUTF8.toList)], []⟩, "", #[]⟩

/-- A simulation of that source with the usual options. -/
def simulateFile : SimOptions :=
  ⟨"a.s", 0x0200, none, 10000, false, true, true⟩

theorem read_onFile (source : String) :
    (onFile source).directory.read simulateFile.input = .ok source.toUTF8.toList := by
  have hempty : "a.s".isEmpty = false := by decide +kernel
  have hstart : "a.s".startsWith "/" = false := by decide +kernel
  have hend : "a.s".endsWith "/" = false := by decide +kernel
  have hsize : "a.s".utf8ByteSize = 3 := by decide +kernel
  simp [Directory.read, Directory.walk, Directory.enter, Directory.requireDirectory, Directory.isDirectory,
    Place.isAncestor, onFile, simulateFile, Directory.parts_name, hempty, hstart, hend, hsize, bind, Except.bind, pure,
    Except.pure]

/-- A return at $0300 is loaded there, in the workbench and by a simulation. -/
theorem assembled_program_loads_return : ∃ output : Assembly.Output,
    Mos6502.assemble "ORG $0300\nRTS" = .ok output ∧ output.image.get? 0x0300 = some 0x60 ∧
      (Workbench.new.assemble "ORG $0300\nRTS").2.machine.Ready output.image 0 ∧
      ∃ memory, Task.perform (Task.loaded simulateFile) (onFile "ORG $0300\nRTS") =
          (.ok memory, onFile "ORG $0300\nRTS") ∧ (Machine.reset memory).Ready output.image 0x0200 := by
  have hok : Mos6502.assemble "ORG $0300\nRTS" = .ok (Assembly.run {} .builtin "ORG $0300\nRTS").output :=
    Assembly.toExcept_eq_ok (by decide +kernel)
  obtain ⟨hworkbench, hsimulation⟩ := assembled_program_loads _ _ hok
  exact ⟨_, hok, by decide +kernel, (hworkbench .new).2.2,
    hsimulation simulateFile _ _ (by decide +kernel) rfl (read_onFile _) (by decide +kernel)⟩

/-- A simulation of an empty source does not start at zero. -/
theorem empty_source_starts_at_load : ∃ output : Assembly.Output, Mos6502.assemble "" = .ok output ∧
    (∀ a, output.image.get? a = none) ∧ ∃ memory, Task.perform (Task.loaded simulateFile) (onFile "") =
      (.ok memory, onFile "") ∧ (Machine.reset memory).registers.pc = 0x0200 := by
  obtain ⟨output, hok, himage⟩ : ∃ output : Assembly.Output, Mos6502.assemble "" = .ok output ∧
      ∀ a, output.image.get? a = none := ⟨_, Assembly.toExcept_eq_ok (by decide +kernel), Image.get?_empty⟩
  have hloaded := Task.loaded_of_ok (o := simulateFile) (by decide +kernel)
    (Task.readText_of_ok (read_onFile "") (by decide +kernel)) hok
  exact ⟨output, hok, himage, _, hloaded, (Machine.ready_reset output.image 0x0200).empty himage⟩

end Mos6502
