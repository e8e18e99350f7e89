import Mos6502.Proofs.Cells
import Mos6502.Proofs.Expansion
import Mos6502.Proofs.Here

/-!
# Where the bytes of a line go

A line of the listing has one address and one row of bytes. The bytes of a macro
call come from all lines of its expansion, and an origin among those moves the
cursor while the row goes on. Here the moves of the cursor are recorded: each byte
of a line is in the cell where its move put it, no two bytes share a cell, and the
row of the listing shows these cells as long as no byte is displaced.

Main statement: `listing_row_iff`.
-/
namespace Mos6502.Assembly

/-! ## Moves -/

/-- What a statement does at the cursor. -/
inductive Move
  /-- Sets it. -/
  | origin (cursor : Nat)
  /-- Writes bytes from it on and passes them. -/
  | write (bytes : List UInt8)

namespace Move

/-- The cursor after some moves. -/
def after (cursor : Nat) : List Move → Nat
  | [] => cursor
  | .origin n :: ms => after n ms
  | .write bs :: ms => after (cursor + bs.length) ms

/-- The bytes that some moves write. -/
def written : List Move → List UInt8
  | [] => []
  | .origin _ :: ms => written ms
  | .write bs :: ms => bs ++ written ms

/-- The bytes that some moves write, with the cells they go to. -/
def cells (cursor : Nat) : List Move → List (Nat × UInt8)
  | [] => []
  | .origin n :: ms => cells n ms
  | .write bs :: ms => Image.placed cursor bs ++ cells (cursor + bs.length) ms

/-- Some bytes are not as far from the cursor as there are bytes before them. -/
def Displaced (cursor : Nat) (ms : List Move) : Prop :=
  ∃ before bs rest, ms = before ++ .write bs :: rest ∧ bs ≠ [] ∧
    after cursor before ≠ cursor + (written before).length

theorem after_append (cursor : Nat) (ms ns : List Move) : after cursor (ms ++ ns) = after (after cursor ms) ns := by
  fun_induction after cursor ms with
  | case1 => rfl
  | case2 cursor n ms ih => exact ih
  | case3 cursor bs ms ih => exact ih

theorem written_append (ms ns : List Move) : written (ms ++ ns) = written ms ++ written ns := by
  fun_induction written ms with
  | case1 => rfl
  | case2 n ms ih => exact ih
  | case3 bs ms ih => rw [List.cons_append, written, ih, List.append_assoc]

theorem cells_append (cursor : Nat) (ms ns : List Move) :
    cells cursor (ms ++ ns) = cells cursor ms ++ cells (after cursor ms) ns := by
  fun_induction cells cursor ms with
  | case1 => rfl
  | case2 cursor n ms ih => exact ih
  | case3 cursor bs ms ih => rw [List.cons_append, cells, ih, after, List.append_assoc]

theorem map_snd_placed (n : Nat) (bs : List UInt8) : (Image.placed n bs).map (·.2) = bs := by
  induction bs generalizing n with
  | nil => rfl
  | cons b bs ih => rw [Image.placed_cons, List.map_cons, ih]

theorem map_snd_cells (cursor : Nat) (ms : List Move) : (cells cursor ms).map (·.2) = written ms := by
  fun_induction cells cursor ms with
  | case1 => rfl
  | case2 cursor n ms ih => exact ih
  | case3 cursor bs ms ih => rw [List.map_append, map_snd_placed, ih, written]

/-- The same bytes are in the same cells only from the same place on. -/
theorem placed_inj {n m : Nat} {bs : List UInt8} : Image.placed n bs = Image.placed m bs ↔ (bs ≠ [] → n = m) := by
  cases bs with
  | nil => simp [Image.placed]
  | cons b bs =>
    rw [Image.placed_cons, Image.placed_cons]
    constructor
    · intro h _
      exact (Prod.mk.inj (List.cons.inj h).1).1
    · intro h
      rw [h (by simp)]

/-- The first move is split off from those before a write. -/
theorem forall_write_cons {m : Move} {ms : List Move} {P : List Move → List UInt8 → Prop} :
    (∀ before bs rest, m :: ms = before ++ .write bs :: rest → P before bs) ↔
      (∀ bs, m = .write bs → P [] bs) ∧ ∀ before bs rest, ms = before ++ .write bs :: rest → P (m :: before) bs := by
  constructor
  · intro h
    refine ⟨fun bs hm => h [] bs ms ?_, fun before bs rest hms => h (m :: before) bs rest ?_⟩
    · rw [hm, List.nil_append]
    · rw [hms, List.cons_append]
  · rintro ⟨hfirst, hlater⟩ before bs rest heq
    cases before with
    | nil => exact hfirst bs (List.cons.inj heq).1
    | cons x before =>
      obtain ⟨rfl, hms⟩ := List.cons.inj heq
      exact hlater before bs rest hms

/-- The bytes of some moves are in a row from `start` on if and only if each write begins behind the bytes before it. -/
theorem cells_eq_placed {cursor start : Nat} {ms : List Move} :
    cells cursor ms = Image.placed start (written ms) ↔
      ∀ before bs rest, ms = before ++ .write bs :: rest →
        (bs ≠ [] → after cursor before = start + (written before).length) := by
  induction ms generalizing cursor start with
  | nil => simp [cells, written, Image.placed]
  | cons m ms ih =>
    rw [forall_write_cons]
    cases m with
    | origin n =>
      simp only [reduceCtorEq, false_implies, implies_true, true_and]
      exact ih
    | write bs =>
      have hfirst : (∀ cs, write bs = write cs → cs ≠ [] → after cursor [] = start + (written []).length) ↔
          Image.placed cursor bs = Image.placed start bs := by
        rw [placed_inj]
        constructor
        · exact fun h => h bs rfl
        · rintro h cs heq
          obtain rfl := Move.write.inj heq
          exact h
      have hlater (before : List Move) : after cursor (.write bs :: before) = start + (written (.write bs :: before)).length ↔
          after (cursor + bs.length) before = start + bs.length + (written before).length := by
        rw [after, written, List.length_append, Nat.add_assoc]
      simp only [hfirst, hlater, ← ih]
      rw [cells, written, Image.placed_append]
      constructor
      · intro h
        exact List.append_inj h (by simp [Image.placed])
      · rintro ⟨hbs, hms⟩
        rw [hbs, hms]

theorem cells_eq_placed_iff (cursor : Nat) (ms : List Move) :
    cells cursor ms = Image.placed cursor (written ms) ↔ ¬ Displaced cursor ms := by
  rw [cells_eq_placed]
  constructor
  · rintro h ⟨before, bs, rest, hms, hbs, hne⟩
    exact hne (h before bs rest hms hbs)
  · intro h before bs rest hms hbs
    by_contra hne
    exact h ⟨before, bs, rest, hms, hbs, hne⟩

theorem not_displaced_origin (cursor n : Nat) : ¬ Displaced cursor [.origin n] := by
  rintro ⟨before, bs, rest, hms, -, -⟩
  cases before with
  | nil => cases hms
  | cons m before => simp at hms

/-- Without an origin among them, moves displace nothing. -/
theorem not_displaced {cursor : Nat} {ms : List Move} (h : ∀ n, .origin n ∉ ms) : ¬ Displaced cursor ms := by
  rw [← cells_eq_placed_iff]
  fun_induction cells cursor ms with
  | case1 => rfl
  | case2 cursor n ms ih => exact absurd List.mem_cons_self (h n)
  | case3 cursor bs ms ih =>
    rw [written, Image.placed_append, ih fun n hn => h n (List.mem_cons_of_mem _ hn)]

end Move

/-! ## Filled images -/

/-- The bytes went into their cells, which were free, and the other cells are as before. -/
structure Fills (image : Image) (cells : List (Nat × UInt8)) (image' : Image) : Prop where
  free : ∀ x ∈ cells, x.1 < 65536 ∧ image.cell? x.1 = none
  apart : (cells.map (·.1)).Nodup
  cell?_iff (n : Nat) (b : UInt8) : image'.cell? n = some b ↔ image.cell? n = some b ∨ (n, b) ∈ cells

namespace Fills
variable {image image' image'' : Image} {cells more : List (Nat × UInt8)}

theorem nil (image : Image) : Fills image [] image :=
  ⟨by simp, .nil, by simp⟩

theorem append (h : Fills image cells image') (k : Fills image' more image'') : Fills image (cells ++ more) image'' := by
  have hkept (n : Nat) (hn : image'.cell? n = none) : image.cell? n = none := by
    rw [Option.eq_none_iff_forall_ne_some] at hn ⊢
    exact fun b hb => hn b ((h.cell?_iff n b).2 (.inl hb))
  constructor
  · intro x hx
    rcases List.mem_append.1 hx with hx | hx
    · exact h.free x hx
    · exact (k.free x hx).imp id (hkept _)
  · rw [List.map_append, List.nodup_append]
    refine ⟨h.apart, k.apart, ?_⟩
    -- the cells of the first bytes are not free for the others
    rintro n hn m hm rfl
    obtain ⟨⟨n, b⟩, hx, rfl⟩ := List.mem_map.1 hn
    obtain ⟨y, hy, hnm⟩ := List.mem_map.1 hm
    have hfree := (k.free y hy).2
    rw [hnm, (h.cell?_iff n b).2 (.inr hx)] at hfree
    cases hfree
  · intro n b
    rw [k.cell?_iff, h.cell?_iff, List.mem_append, or_assoc]

theorem placed {n : Nat} {bs : List UInt8} (h : image.Free n bs.length) :
    Fills image (Image.placed n bs) (image.puts n bs) := by
  have hfree {m : Nat} {b : UInt8} (hm : (m, b) ∈ Image.placed n bs) : m < 65536 ∧ image.cell? m = none := by
    obtain ⟨hle, hget⟩ := Image.mem_placed.1 hm
    obtain ⟨hlt, hnone⟩ := h (m - n) (List.getElem?_eq_some_iff.1 hget).1
    rw [Nat.add_sub_cancel' hle] at hlt hnone
    exact ⟨hlt, by rwa [Image.cell?_of_lt image hlt]⟩
  have hcells : (Image.placed n bs).map (·.1) = List.range' n bs.length := by
    clear h hfree
    induction bs generalizing n with
    | nil => rfl
    | cons b bs ih => rw [Image.placed_cons, List.map_cons, ih, List.length_cons, List.range'_succ]
  refine ⟨fun x hx => hfree hx, hcells ▸ List.nodup_range', fun m b => ?_⟩
  by_cases hm : m < 65536
  · rw [Image.cell?_of_lt _ hm, Image.cell?_of_lt _ hm, Image.get?_puts h, Image.toNat_ofNat hm, Image.mem_placed]
    split
    · rename_i hin
      have hnone := (h (m - n) (by omega)).2
      rw [Nat.add_sub_cancel' hin.1] at hnone
      simp [hnone, hin.1]
    · rename_i hout
      constructor
      · exact .inl
      · rintro (hb | ⟨hle, hget⟩)
        · exact hb
        · have hlt := (List.getElem?_eq_some_iff.1 hget).1
          omega
  · rw [Image.cell?_of_le _ (by omega), Image.cell?_of_le _ (by omega)]
    constructor
    · intro hb
      cases hb
    · rintro (hb | hmem)
      · cases hb
      · exact absurd (hfree hmem).1 hm

/-- Bytes in a row are held in a row. -/
theorem holds (h : Fills image cells image') {n : Nat} {bs : List UInt8} (hbs : ∀ x ∈ Image.placed n bs, x ∈ cells) :
    image'.Holds n bs := by
  intro k hk
  have hget := List.getElem?_eq_getElem hk
  rw [hget]
  refine (h.cell?_iff _ _).2 (.inr (hbs _ ?_))
  exact Image.mem_placed.2 ⟨by omega, by rw [Nat.add_sub_cancel_left, hget]⟩

end Fills

/-! ## The moves of a line -/

namespace Emission

/-- Where a line leads to and what `f` says of it. -/
def along {α : Type} (env : Setting) (levels : Nat) (f : Emission → Plan → Line → List α) (s : Emission) (plan : Plan)
    (l : Line) : Emission × List α :=
  ((s.line env levels plan l).1, f s plan l)

/-- The moves that a line makes. -/
def moves (env : Setting) (levels : Nat) (s : Emission) (plan : Plan) (l : Line) : List Move :=
  match l.statement with
  | some (.origin _) => [.origin (s.line env levels plan l).1.cursor]
  | some (.invocation name arguments) =>
    match env.registry.expand name arguments ((s.labelled env l).context env) .second, levels with
    | .ok (.source text), levels + 1 =>
      ((s.labelled env l).splice env (along env levels (moves env levels)) plan l name 0 (Lines.split text.toList)).2
    | _, _ => [.write (s.line env levels plan l).2]
  | _ => [.write (s.line env levels plan l).2]

/-- The moves lead from the state to the result: they write its bytes, into free cells, and leave its cursor. -/
structure Performs (s : Emission) (ms : List Move) (r : Emission × List UInt8) : Prop where
  bytes : r.2 = Move.written ms
  cursor : r.1.cursor = Move.after s.cursor ms
  fills : Fills s.image (Move.cells s.cursor ms) r.1.image

theorem Performs.append {s t : Emission} {ms ns : List Move} {bs cs : List UInt8} {u : Emission}
    (h : s.Performs ms (t, bs)) (k : t.Performs ns (u, cs)) : s.Performs (ms ++ ns) (u, bs ++ cs) where
  bytes := by rw [Move.written_append, ← h.bytes, ← k.bytes]
  cursor := by rw [Move.after_append, ← h.cursor, ← k.cursor]
  fills := by
    rw [Move.cells_append, ← h.cursor]
    exact h.fills.append k.fills

theorem Performs.nil (s : Emission) : s.Performs [] (s, []) :=
  ⟨rfl, rfl, .nil _⟩

/-- Bytes that are written in a row are one move. -/
theorem Writes.performs {s : Emission} {r : Emission × List UInt8} (h : s.Writes r)
    (hcursor : r.1.cursor = s.cursor + r.2.length) : s.Performs [.write r.2] r where
  bytes := (List.append_nil _).symm
  cursor := hcursor
  fills := by
    rw [Move.cells, Move.cells, List.append_nil, h.2]
    exact .placed h.1

section Line
variable {env : Setting} (hf : env.failed = [])
include hf

/-- The lines of an expansion perform their moves, if each line does. -/
theorem splice_performs {levels : Nat} {f : Emission → Plan → Line → List Move}
    (hline : ∀ (s : Emission) plan l, (s.line env levels plan l).1.errors = #[] →
      s.Performs (f s plan l) (s.line env levels plan l))
    {plan : Plan} {l : Line} {name : String} {texts : List (List Char)} {s : Emission} {i : Nat}
    (he : (s.splice env (line env levels) plan l name i texts).1.errors = #[]) :
    s.Performs (s.splice env (along env levels f) plan l name i texts).2
      (s.splice env (line env levels) plan l name i texts) := by
  induction texts generalizing s i with
  | nil => exact .nil s
  | cons text texts ih =>
    rw [splice_cons] at he ⊢
    rw [splice_cons]
    have hfirst := noErrors_before ((steps_grows env).splice ((steps_grows env).line levels) plan l name _ _ texts) he
    unfold textLine at he hfirst ⊢
    cases hread : Line.read text l.number with
    | error e =>
      simp only [hread] at hfirst
      exact absurd hfirst (report_ne hf _ _ _ _)
    | ok inner =>
      simp only [hread] at he hfirst ⊢
      exact (hline s (plan.line i) inner hfirst).append (ih he)

theorem expansion_performs {levels : Nat}
    (ih : ∀ m < levels, ∀ (s : Emission) plan l, (s.line env m plan l).1.errors = #[] →
      s.Performs (moves env m s plan l) (s.line env m plan l))
    {s : Emission} {plan : Plan} {l : Line} {name arguments : String} (hlabel : s.labelled env l = s)
    (hst : l.statement = some (.invocation name arguments))
    (hbytes : (s.line env levels plan l).2 = (s.expansion env levels plan l name arguments).2)
    (he : (s.expansion env levels plan l name arguments).1.errors = #[]) :
    s.Performs (moves env levels s plan l) (s.expansion env levels plan l name arguments) := by
  unfold moves
  rw [hst, hlabel, hbytes]
  dsimp only
  cases hx : env.registry.expand name arguments (s.context env) .second with
  | error e =>
    simp only [expansion, hx] at he
    exact absurd he (report_ne hf _ _ _ _)
  | ok output =>
    cases output with
    | nothing =>
      simp only [expansion, hx]
      exact (writes_nil rfl).performs rfl
    | bytes bs =>
      simp only [expansion, hx] at he ⊢
      exact (write_writes hf rfl rfl he).performs (bytes_cursor _ _ _)
    | source text =>
      cases levels with
      | zero =>
        simp only [expansion, hx] at he
        exact absurd he (report_ne hf _ _ _ _)
      | succ levels =>
        rw [expansion_source env hx] at he ⊢
        exact splice_performs hf (ih levels (Nat.lt_succ_self _)) he

/-- A line that is taken without an error performs its moves. -/
theorem line_performs (levels : Nat) (s : Emission) (plan : Plan) (l : Line)
    (he : (s.line env levels plan l).1.errors = #[]) :
    s.Performs (moves env levels s plan l) (s.line env levels plan l) := by
  -- the lines of an expansion are one level deeper
  induction levels using Nat.strongRecOn generalizing s plan l with
  | ind levels ih =>
    have hlabel := labelled_silent hf he
    have hline := line_eq env levels s plan l
    rw [hlabel] at hline
    rw [hline] at he ⊢
    cases hst : l.statement with
    | none =>
      simp only [moves, hst, hline]
      exact (writes_nil rfl).performs rfl
    | some st =>
      simp only [hst] at he hline ⊢
      cases st with
      | equate name e =>
        simp only [moves, hst, hline]
        exact (writes_nil rfl).performs rfl
      | origin e =>
        obtain ⟨v, -, horigin⟩ := setOrigin_silent hf he
        simp only [moves, hst, hline, horigin]
        exact ⟨rfl, rfl, .nil _⟩
      | bytes items =>
        have hr := collect_reports env _ (item_reports env l) s items
        simp only [moves, hst, hline]
        exact (write_writes hf hr.cursor hr.image he).performs (by rw [write, bytes_cursor, hr.cursor])
      | words items =>
        have hr := collect_reports env _ (word_reports env l) s items
        simp only [moves, hst, hline]
        exact (write_writes hf hr.cursor hr.image he).performs (by rw [write, bytes_cursor, hr.cursor])
      | instruction mnemonic shape operand =>
        simp only [moves, hst, hline]
        exact (instruction_writes hf rfl he).performs (instruction_moves hf he)
      | invocation name arguments =>
        have hr := checkSize_reports env l plan name s.cursor (s.expansion env levels plan l name arguments).1
        have hperforms := expansion_performs hf ih hlabel hst (by rw [hline]) (hr.noErrors he)
        exact ⟨hperforms.bytes, hr.cursor.trans hperforms.cursor, hr.image ▸ hperforms.fills⟩

end Line

/-- Without a macro a line makes one move. -/
theorem moves_single {env : Setting} {levels : Nat} {s : Emission} {plan : Plan} {l : Line}
    (h : ∀ name arguments, l.statement ≠ some (.invocation name arguments)) :
    (∃ n, moves env levels s plan l = [.origin n]) ∨ ∃ bs, moves env levels s plan l = [.write bs] := by
  unfold moves
  split
  · exact .inl ⟨_, rfl⟩
  · rename_i name arguments hst
    exact absurd hst (h name arguments)
  · exact .inr ⟨_, rfl⟩

end Emission

/-! ## Texts without origins -/

/-- The texts of the macros set no origin. -/
def OriginFree (registry : Macro.Registry) : Prop :=
  ∀ name arguments context text, registry.expand name arguments context .second = .ok (.source text) →
    ∀ line ∈ Lines.split text.toList, ∀ n inner, Line.read line n = .ok inner → ∀ e, inner.statement ≠ some (.origin e)

namespace Emission

theorem splice_originFree {env : Setting} {levels : Nat} {f : Emission → Plan → Line → List Move}
    (hline : ∀ s plan l, (∀ e, l.statement ≠ some (.origin e)) → ∀ n, .origin n ∉ f s plan l) {plan : Plan} {l : Line}
    {name : String} {texts : List (List Char)}
    (htexts : ∀ line ∈ texts, ∀ n inner, Line.read line n = .ok inner → ∀ e, inner.statement ≠ some (.origin e))
    (s : Emission) (i : Nat) : ∀ n, .origin n ∉ (s.splice env (along env levels f) plan l name i texts).2 := by
  induction texts generalizing s i with
  | nil => simp [splice]
  | cons text texts ih =>
    obtain ⟨htext, htexts⟩ := List.forall_mem_cons.1 htexts
    intro n
    rw [splice_cons, List.mem_append, not_or]
    refine ⟨?_, ih htexts _ _ n⟩
    unfold textLine
    cases hread : Line.read text l.number with
    | ok inner => exact hline _ _ _ (htext _ _ hread) n
    | error e => exact List.not_mem_nil

theorem moves_originFree {env : Setting} (h : OriginFree env.registry) (levels : Nat) (s : Emission) (plan : Plan)
    (l : Line) (hl : ∀ e, l.statement ≠ some (.origin e)) : ∀ n, .origin n ∉ moves env levels s plan l := by
  induction levels using Nat.strongRecOn generalizing s plan l with
  | ind levels ih =>
    unfold moves
    split
    · rename_i e hst
      exact absurd hst (hl e)
    · split
      · rename_i text levels hx
        exact splice_originFree (ih levels (Nat.lt_succ_self _)) (h _ _ _ _ hx) _ _
      · simp
    · simp

end Emission

/-! ## The lines of a source -/

section Source
variable (settings : Settings) (registry : Macro.Registry) (source : String)

/-- The moves that the second pass makes for the line with the index `k`. -/
def lineMoves (k : Nat) : List Move :=
  match (planned settings registry source)[k]? with
  | some ((_, .ok l), plan) =>
    Emission.moves (environment settings registry source) (environment settings registry source).limit
      (Emission.run (environment settings registry source) ((planned settings registry source).take k)).1 plan l
  | _ => []

/-- The bytes of the line with the index `k`, with the cells they go to. -/
def lineCells (k : Nat) : List (Nat × UInt8) :=
  Move.cells (secondCursor settings registry source k) (lineMoves settings registry source k)

/-- The line has bytes that an origin in a macro keeps out of its row. -/
def Displaced (k : Nat) : Prop :=
  Move.Displaced (secondCursor settings registry source k) (lineMoves settings registry source k)

variable {settings registry source}

theorem lineMoves_eq {k : Nat} {text : List Char} {l : Line} (hl : (readSource source)[k]? = some (text, .ok l)) :
    lineMoves settings registry source k =
      Emission.moves (environment settings registry source) (environment settings registry source).limit
        (Emission.run (environment settings registry source) ((planned settings registry source).take k)).1
        ((Layout.pass registry settings.maxDepth ((parsed source).take k)).1.line registry settings.maxDepth
          settings.maxDepth l).2 l := by
  rw [lineMoves, planned_getElem? hl]
  rfl

/-- The second pass performs the moves of a line. -/
theorem Accepted.performs (h : Accepted settings registry source) {k : Nat} {text : List Char} {l : Line}
    (hl : (readSource source)[k]? = some (text, .ok l)) :
    let env := environment settings registry source
    let before := (Emission.run env ((planned settings registry source).take k)).1
    let plan := ((Layout.pass registry settings.maxDepth ((parsed source).take k)).1.line registry settings.maxDepth
      settings.maxDepth l).2
    before.Performs (lineMoves settings registry source k) (before.line env env.limit plan l) := by
  have he := h.run_errors (k + 1)
  rw [run_take_succ hl] at he
  rw [lineMoves_eq hl]
  exact Emission.line_performs h.failed _ _ _ _ he

/-- The cells of the lines fill the image one after another. -/
theorem Accepted.fills (h : Accepted settings registry source) {k : Nat} (hk : k ≤ (readSource source).length) :
    Fills .empty ((List.range k).flatMap (lineCells settings registry source))
      (Emission.run (environment settings registry source) ((planned settings registry source).take k)).1.image := by
  induction k with
  | zero => exact .nil _
  | succ k ih =>
    obtain ⟨text, l, hl⟩ := h.line_ok hk
    rw [List.range_succ, List.flatMap_append, List.flatMap_singleton, run_take_succ hl]
    exact (ih (by omega)).append (h.performs hl).fills

end Source

/-- What a line of the listing says about the image. -/
structure Shown (a : Assembler) (source : String) (image : Image) (k : Nat) (line : ListingLine) : Prop where
  address : line.address = cursorAddress? (secondCursor a.settings a.registry source k)
  /-- Its bytes are those that the line put into cells. -/
  bytes : line.bytes = (lineCells a.settings a.registry source k).map (·.2)
  /-- The cells are the row of bytes from its address on if and only if no byte is displaced. -/
  row : line.bytes ≠ [] → ((∃ start, line.address = some start ∧
    lineCells a.settings a.registry source k = Image.placed start.toNat line.bytes) ↔
      ¬ Displaced a.settings a.registry source k)
  holds (start : UInt16) : line.address = some start → ¬ Displaced a.settings a.registry source k →
    image.Holds start.toNat line.bytes
  originFree : OriginFree a.registry → line.bytes ≠ [] → ¬ Displaced a.settings a.registry source k
  /-- Only the lines that call a macro have displaced bytes. -/
  call : Displaced a.settings a.registry source k → ∃ text l name arguments,
    (readSource source)[k]? = some (text, .ok l) ∧ l.statement = some (.invocation name arguments)

theorem toNat_of_cursorAddress? {cursor : Nat} {a : UInt16} (h : cursorAddress? cursor = some a) :
    a.toNat = cursor := by
  have hlt := lt_of_cursorAddress? h
  rw [cursorAddress?_of_lt hlt] at h
  rw [← Option.some.inj h, Image.toNat_ofNat hlt]

/-- A line of the listing has the place where its moves begin, and the bytes that they write. -/
theorem Accepted.listed {settings : Settings} {registry : Macro.Registry} {source : String}
    (h : Accepted settings registry source) {k : Nat} {text : List Char} {l : Line}
    (hl : (readSource source)[k]? = some (text, .ok l)) {line : ListingLine}
    (hline : (Emission.run (environment settings registry source) (planned settings registry source)).2.lines[k]? =
      some line) :
    line.address = cursorAddress? (secondCursor settings registry source k) ∧
      line.bytes = Move.written (lineMoves settings registry source k) := by
  rw [h.listing_line hl] at hline
  obtain rfl := Option.some.inj hline
  exact ⟨rfl, (h.performs hl).bytes⟩

theorem Accepted.shown {a : Assembler} {source : String} (h : Accepted a.settings a.registry source) {k : Nat}
    {text : List Char} {l : Line} (hl : (readSource source)[k]? = some (text, .ok l)) {image : Image}
    {cells : List (Nat × UInt8)} (hfills : Fills .empty cells image)
    (hcells : ∀ x ∈ lineCells a.settings a.registry source k, x ∈ cells) {line : ListingLine}
    (hline : (Emission.run (environment a.settings a.registry source)
      (planned a.settings a.registry source)).2.lines[k]? = some line) : Shown a source image k line := by
  obtain ⟨haddress, hbytes⟩ := h.listed hl hline
  have hrow := Move.cells_eq_placed_iff (secondCursor a.settings a.registry source k)
    (lineMoves a.settings a.registry source k)
  rw [← lineCells, ← Displaced, ← hbytes] at hrow
  constructor
  case address => exact haddress
  case bytes => exact hbytes.trans (Move.map_snd_cells _ _).symm
  case row =>
    intro hne
    refine Iff.trans ?_ hrow
    constructor
    · rintro ⟨start, hstart, hplaced⟩
      rwa [toNat_of_cursorAddress? (haddress.symm.trans hstart)] at hplaced
    · intro hplaced
      -- the first byte is in a cell of the image, so the line has an address
      obtain ⟨b, bs, hcons⟩ := List.exists_cons_of_ne_nil hne
      have hfirst : (secondCursor a.settings a.registry source k, b) ∈ lineCells a.settings a.registry source k := by
        rw [hplaced, hcons, Image.placed_cons]
        exact List.mem_cons_self
      have hlt := (hfills.free _ (hcells _ hfirst)).1
      exact ⟨_, haddress.trans (cursorAddress?_of_lt hlt), by rwa [Image.toNat_ofNat hlt]⟩
  case holds =>
    intro start hstart hdisplaced
    refine hfills.holds fun x hx => hcells x ?_
    rw [toNat_of_cursorAddress? (haddress.symm.trans hstart)] at hx
    rwa [hrow.2 hdisplaced]
  case originFree =>
    intro hfree hne
    have hst : ∀ e, l.statement ≠ some (.origin e) := by
      intro e hst
      apply hne
      rw [hbytes, lineMoves_eq hl, Emission.moves, hst]
      rfl
    rw [Displaced, lineMoves_eq hl]
    exact Move.not_displaced (Emission.moves_originFree hfree _ _ _ _ hst)
  case call =>
    intro hdisplaced
    by_contra hnone
    rw [Displaced, lineMoves_eq hl] at hdisplaced
    rcases Emission.moves_single fun name arguments hst => hnone ⟨text, l, name, arguments, hl, hst⟩ with
      ⟨n, hmoves⟩ | ⟨bs, hmoves⟩
    · exact Move.not_displaced_origin _ _ (hmoves ▸ hdisplaced)
    · exact Move.not_displaced (by simp) (hmoves ▸ hdisplaced)

/-- Every byte of an accepted source is in the cell that a move of its line put it into, and no cell gets two. A line
of the listing shows the cells of its bytes if and only if none of them is displaced, and then the image has the bytes
in a row from its address on. Without origins in the texts of macros no byte is. -/
theorem listing_row_iff (a : Assembler) (source : String) (out : Output) (h : (a.assemble source).1 = .ok out) :
    Fills .empty ((List.range out.listing.lines.length).flatMap (lineCells a.settings a.registry source)) out.image ∧
      ∀ k line, out.listing.lines[k]? = some line → Shown a source out.image k line := by
  rw [assemble_fst] at h
  obtain ⟨hacc, himage, -, hlisting⟩ := accepted_of_ok h
  have hplanned : (planned a.settings a.registry source).take (readSource source).length =
      planned a.settings a.registry source := List.take_of_length_le (by simp [planned])
  have hlength := hacc.length_listing (Nat.le_refl _)
  have hfills := hacc.fills (Nat.le_refl _)
  rw [hplanned, ← hlisting] at hlength
  rw [hplanned, ← himage, ← hlength] at hfills
  refine ⟨hfills, fun k line hline => ?_⟩
  have hk : k < out.listing.lines.length := (List.getElem?_eq_some_iff.1 hline).1
  obtain ⟨text, l, hl⟩ := hacc.line_ok (hlength ▸ hk)
  rw [hlisting] at hline
  refine hacc.shown hl hfills (fun x hx => ?_) hline
  exact List.mem_flatMap.2 ⟨k, List.mem_range.2 hk, hx⟩

/-- A macro that sets an origin in front of its byte. -/
def far : Macro.Handler := fun _ _ _ =>
  .ok (.source "ORG $0300\nNOP")

def leaping : Assembler :=
  { settings := {}, registry := Macro.Registry.empty.register "far" far }

/-- The listing shows the byte at `$0200`, where the image has a hole. -/
theorem listing_row_iff_displaced :
    let source := "ORG $0200\n@far"
    ∃ out, (leaping.assemble source).1 = .ok out ∧ out.listing.lines[1]? = some ⟨2, some 0x0200, [0xEA], "@far"⟩ ∧
      out.image.cell? 0x0200 = none ∧ out.image.cell? 0x0300 = some 0xEA ∧
      Displaced leaping.settings leaping.registry source 1 := by
  intro source
  have hok : (leaping.assemble source).1 = .ok (run leaping.settings leaping.registry source).output :=
    (assemble_fst source leaping).trans (toExcept_eq_ok (by decide +kernel))
  have hline : (run leaping.settings leaping.registry source).output.listing.lines[1]? =
      some ⟨2, some 0x0200, [0xEA], "@far"⟩ := by decide +kernel
  have hhole : (run leaping.settings leaping.registry source).output.image.cell? 0x0200 = none := by decide +kernel
  refine ⟨_, hok, hline, hhole, by decide +kernel, ?_⟩
  by_contra hdisplaced
  have hholds := ((listing_row_iff leaping source _ hok).2 1 _ hline).holds 0x0200 rfl hdisplaced 0 (by decide)
  rw [show (0x0200 : UInt16).toNat + 0 = 0x0200 from rfl, hhole] at hholds
  cases hholds

end Mos6502.Assembly
