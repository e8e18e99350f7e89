import Mathlib.Data.List.Forall2
import Mos6502.Proofs.Passes
import Mos6502.Proofs.Region

/-!
# Sources of regions assemble to the regions

The source written for a region of an image is read line by line as it was
written. The first pass chooses the instructions that were decoded, whatever its
cursor, and the second pass puts their bytes where they came from.
-/
namespace Mos6502

open Assembly

theorem forall₂_append_left {α β : Type} {R : α → β → Prop} {as bs : List α} {cs : List β}
    (h : List.Forall₂ R (as ++ bs) cs) :
    ∃ ds es, cs = ds ++ es ∧ List.Forall₂ R as ds ∧ List.Forall₂ R bs es := by
  induction as generalizing cs with
  | nil => exact ⟨[], cs, rfl, .nil, h⟩
  | cons a as ih =>
    obtain ⟨c, cs, hac, hrest, rfl⟩ := List.forall₂_cons_left_iff.1 h
    obtain ⟨ds, es, rfl, hds, hes⟩ := ih hrest
    exact ⟨c :: ds, es, rfl, .cons hac hds, hes⟩

namespace Entry

/-- The line of the source was read as the entry says. -/
def Gives (e : Entry) (l : Emission.SourceLine) : Prop :=
  ∃ n column, l = (e.text.toList, .ok ⟨n, none, e.statement, column⟩)

/-- So it was, and the entry's plan goes with it. -/
def GivesPlan (e : Entry) (l : Emission.SourceLine × Plan) : Prop :=
  e.Gives l.1 ∧ l.2 = e.plan

theorem gives_zip {es : List Entry} {ls : List Emission.SourceLine} (h : List.Forall₂ Gives es ls) :
    List.Forall₂ GivesPlan es (ls.zip (es.map (·.plan))) := by
  induction h with
  | nil => exact .nil
  | cons hl _ ih => exact .cons ⟨hl, rfl⟩ ih

theorem givesPlan_cons {e : Entry} {es : List Entry} {ls : List (Emission.SourceLine × Plan)}
    (h : List.Forall₂ GivesPlan (e :: es) ls) :
    ∃ n column rest, ls = ((e.text.toList, .ok ⟨n, none, e.statement, column⟩), e.plan) :: rest ∧
      List.Forall₂ GivesPlan es rest := by
  obtain ⟨⟨l, plan⟩, rest, ⟨⟨n, column, hl⟩, hplan⟩, hrest, rfl⟩ := List.forall₂_cons_left_iff.1 h
  exact ⟨n, column, rest, by rw [← hl, ← hplan], hrest⟩

theorem gives_mapIdx {es : List Entry} (h : ∀ e ∈ es, Line.Reads e.text e.statement) (k : Nat) :
    List.Forall₂ Gives es ((es.map (·.text.toList)).mapIdx fun i text => (text, Line.read text (i + k))) := by
  induction es generalizing k with
  | nil => exact .nil
  | cons e es ih =>
    obtain ⟨column, hread⟩ := h e (by simp) k
    have hrest := ih (fun e he => h e (by simp [he])) (k + 1)
    rw [List.map_cons, List.mapIdx_cons]
    refine .cons ⟨k, column, by simp [hread]⟩ ?_
    simpa [Nat.add_assoc, Nat.add_comm 1] using hrest

theorem gives_readSource {es : List Entry} (hplain : ∀ e ∈ es, Plain e.text)
    (hreads : ∀ e ∈ es, Line.Reads e.text e.statement) : List.Forall₂ Gives es (readSource (join es)) := by
  rw [readSource, Lines.split_join hplain]
  exact gives_mapIdx hreads 1

end Entry

/-! ## The first pass -/

namespace Assembly.Layout

variable (registry : Macro.Registry) (limit : Nat)

theorem line_equate {s : Layout} {t : Symbol} (h : s.symbols.address? t.name = none) (n column : Nat) :
    ∃ symbols, s.line registry limit limit ⟨n, none, (Entry.equate t).statement, column⟩ =
        ({ s with symbols }, .nothing) ∧
      ∀ name, symbols.address? name = if name = t.name then some t.address else s.symbols.address? name := by
  obtain ⟨symbols, hdefine⟩ := SymbolTable.define_of_none (s := ⟨t.name, t.address, n⟩) h
  refine ⟨symbols, ?_, fun name => by simpa using SymbolTable.address?_define hdefine name⟩
  simp only [line_eq, labelled, Entry.equate, equate, Expr.eval, assign, valueAddress?_word, define, hdefine]

theorem line_blank (s : Layout) (n column : Nat) :
    s.line registry limit limit ⟨n, none, Entry.blank.statement, column⟩ = (s, .nothing) := by
  simp only [line_eq, labelled, Entry.blank]

theorem line_origin (s : Layout) (a : UInt16) (n column : Nat) :
    s.line registry limit limit ⟨n, none, (Entry.origin a).statement, column⟩ =
      ({ s with cursor := a.toNat, origin := a }, .nothing) := by
  simp only [line_eq, labelled, Entry.origin, setOrigin, Expr.eval, valueAddress?_word]

/-- The operand of an instruction's line has its value as soon as its symbol has. -/
theorem operandValue_code {s : Layout} {i : Instruction} {o : Opcode} (ho : i.Decoded o)
    {symbols : Option SymbolTable}
    (hknown : ∀ t, symbols.bind i.symbol? = some t → s.symbols.address? t.name = some t.address) :
    s.operandValue ((i.shape o).operand (i.term symbols).value) =
      (if o.mode.operandBytes = 0 then none else some i.operandValue, false) := by
  rw [Instruction.operand_shape]
  split
  · rfl
  · rename_i hm
    simp only [operandValue, ho.eval_term hknown hm, valueAddress?_word]

theorem line_code {s : Layout} {i : Instruction} (h : i.Valid) {symbols : Option SymbolTable}
    (hknown : ∀ t, symbols.bind i.symbol? = some t → s.symbols.address? t.name = some t.address) (n column : Nat) :
    s.line registry limit limit ⟨n, none, (Entry.code symbols i).statement, column⟩ =
      (s.advance i.size, (Entry.code symbols i).plan) := by
  rcases h with hdata | ⟨o, ho⟩
  · have hnone : i.opcode = none := congrArg Instruction.opcode hdata
    have hsize : i.size = 1 := by
      rw [hdata]
      rfl
    simp [line_eq, labelled, Entry.code, Instruction.statement, hnone, hsize, dataSize, itemSize]
  · have hselect : Opcode.select o.mnemonic (i.shape o)
        (if o.mode.operandBytes = 0 then none else some i.operandValue) = .ok o := ho.select fun hm => if_neg hm
    simp only [line_eq, labelled, Entry.code, Instruction.statement, ho.opcode, instruction,
      operandValue_code ho hknown, hselect, ho.size_eq]

/-- Equates of new and distinct names define all of them and change nothing else. -/
theorem follow_equates {ss : List Symbol} (hdistinct : ss.Pairwise fun s t => s.name ≠ t.name) {s : Layout}
    (hnew : ∀ t ∈ ss, s.symbols.address? t.name = none) {ls : List Emission.SourceLine}
    (hgives : List.Forall₂ Entry.Gives (ss.map Entry.equate) ls) :
    ∃ symbols, s.follow registry limit (ls.map (·.2)) =
        ({ s with symbols }, (ss.map Entry.equate).map (·.plan)) ∧
      (∀ t ∈ ss, symbols.address? t.name = some t.address) ∧
      ∀ name, (∀ t ∈ ss, t.name ≠ name) → symbols.address? name = s.symbols.address? name := by
  induction ss generalizing s ls with
  | nil =>
    cases hgives
    exact ⟨s.symbols, rfl, nofun, fun _ _ => rfl⟩
  | cons t ss ih =>
    obtain ⟨l, ls, ⟨n, column, rfl⟩, hrest, rfl⟩ := List.forall₂_cons_left_iff.1 hgives
    obtain ⟨ht, hss⟩ := List.pairwise_cons.1 hdistinct
    obtain ⟨symbols₁, hline, haddress⟩ := line_equate registry limit (hnew t (by simp)) n column
    have hnew₁ : ∀ u ∈ ss, symbols₁.address? u.name = none := by
      intro u hu
      rw [haddress, if_neg (Ne.symm (ht u hu)), hnew u (by simp [hu])]
    obtain ⟨symbols, hfollow, hknown, hother⟩ := ih hss hnew₁ (s := { s with symbols := symbols₁ }) hrest
    refine ⟨symbols, ?_, ?_, ?_⟩
    · simp only [List.map_cons, follow, sourceLine, hline, hfollow]
      rfl
    · intro u hu
      rcases List.mem_cons.1 hu with rfl | hu
      · rw [hother u.name fun v hv => Ne.symm (ht v hv)]
        simpa using haddress u.name
      · exact hknown u hu
    · intro name hname
      rw [hother name fun u hu => hname u (by simp [hu])]
      simpa [Ne.symm (hname t (by simp))] using haddress name

/-- With the symbols known, the entry gets its plan and moves the cursor only. -/
def Moves (known : SymbolTable) (e : Entry) : Prop :=
  ∀ (s : Layout) (n column : Nat), s.symbols = known → ∃ cursor origin,
    s.line registry limit limit ⟨n, none, e.statement, column⟩ = ({ s with cursor, origin }, e.plan)

theorem follow_moves {es : List Entry} {s : Layout} (h : ∀ e ∈ es, Moves registry limit s.symbols e)
    {ls : List Emission.SourceLine} (hgives : List.Forall₂ Entry.Gives es ls) :
    ∃ cursor origin, s.follow registry limit (ls.map (·.2)) = ({ s with cursor, origin }, es.map (·.plan)) := by
  induction hgives generalizing s with
  | nil => exact ⟨s.cursor, s.origin, rfl⟩
  | @cons e l es ls hl _ ih =>
    obtain ⟨n, column, rfl⟩ := hl
    obtain ⟨cursor, origin, hline⟩ := h e (by simp) s n column rfl
    obtain ⟨cursor', origin', hfollow⟩ := ih (s := { s with cursor, origin }) fun e he => h e (by simp [he])
    refine ⟨cursor', origin', ?_⟩
    simp only [List.map_cons, follow, sourceLine, hline, hfollow]

/-- The first pass over equates and instructions knows the symbols, plans the entries and has nothing to report. -/
theorem run_entries {ss : List Symbol} (hdistinct : ss.Pairwise fun s t => s.name ≠ t.name)
    {is : List Instruction} (hvalid : ∀ i ∈ is, i.Valid) {symbols : Option SymbolTable}
    (hused : ∀ i ∈ is, ∀ t, symbols.bind i.symbol? = some t → t ∈ ss) {ls : List Emission.SourceLine}
    (hgives : List.Forall₂ Entry.Gives (Entry.equates ss ++ Entry.codes symbols none is) ls) :
    let r := run registry limit (ls.map (·.2))
    r.1.errors = #[] ∧ (∀ t ∈ ss, r.1.symbols.address? t.name = some t.address) ∧
      r.2 = (Entry.equates ss ++ Entry.codes symbols none is).map (·.plan) := by
  rw [Entry.equates, List.append_assoc] at hgives ⊢
  obtain ⟨ls₁, ls₂, rfl, hequates, hrest⟩ := forall₂_append_left hgives
  obtain ⟨known, hfollow₁, hknown, -⟩ := follow_equates registry limit hdistinct (s := start) (fun _ _ => rfl) hequates
  -- the equates come before all instructions, so no instruction waits for a symbol
  have hmoves : ∀ e ∈ (if ss.isEmpty then [] else [Entry.blank]) ++ Entry.codes symbols none is,
      Moves registry limit known e := by
    rintro e he s n column rfl
    rcases List.mem_append.1 he with he | he
    · split at he
      · cases he
      · cases List.mem_singleton.1 he
        exact ⟨s.cursor, s.origin, line_blank registry limit s n column⟩
    · obtain ⟨i, hi, rfl | rfl⟩ := Entry.mem_codes he
      · exact ⟨_, _, line_origin registry limit s i.address n column⟩
      · exact ⟨_, s.origin, line_code registry limit (hvalid i hi) (fun t ht => hknown t (hused i hi t ht)) n column⟩
  obtain ⟨cursor, origin, hfollow₂⟩ := follow_moves registry limit (s := { start with symbols := known }) hmoves hrest
  have hfollow : start.follow registry limit ((ls₁ ++ ls₂).map (·.2)) =
      ({ start with symbols := known, cursor, origin }, (ss.map Entry.equate ++
        ((if ss.isEmpty then [] else [Entry.blank]) ++ Entry.codes symbols none is)).map (·.plan)) := by
    rw [List.map_append, follow_append, hfollow₁, List.map_append]
    simp only [hfollow₂]
  rw [run_of_settled registry limit (by rw [hfollow]; rfl), hfollow]
  exact ⟨rfl, hknown, rfl⟩

end Assembly.Layout

/-! ## The second pass -/

namespace Assembly.Emission

variable {env : Setting}

theorem line_equate (s : Emission) (t : Symbol) (plan : Plan) (n column : Nat) :
    s.line env env.limit plan ⟨n, none, (Entry.equate t).statement, column⟩ = (s, []) := by
  simp only [line_eq, labelled, Entry.equate]

theorem line_blank (s : Emission) (plan : Plan) (n column : Nat) :
    s.line env env.limit plan ⟨n, none, Entry.blank.statement, column⟩ = (s, []) := by
  simp only [line_eq, labelled, Entry.blank]

theorem line_origin (s : Emission) (a : UInt16) (plan : Plan) (n column : Nat) :
    s.line env env.limit plan ⟨n, none, (Entry.origin a).statement, column⟩ =
      ({ s with cursor := a.toNat, origin := a }, []) := by
  simp only [line_eq, labelled, Entry.origin, setOrigin, value, Expr.eval, valueAddress?_word]

/-- A choice made with a known operand is no ground for a remark. -/
theorem warning?_known {c : Choice} (h : c.forward = false) (shape : Shape) (l : Line) (v : Option Int) :
    warning? c shape l v = none := by
  cases v <;> simp [warning?, h]

theorem chosen_code {s : Emission} {l : Line} {i : Instruction} {o : Opcode} (ho : i.Decoded o)
    (hcursor : s.cursor = i.address.toNat) {v : Option Int}
    (hv : o.mode.operandBytes ≠ 0 → v = some (i.operandValue.toNat : Int)) :
    s.chosen env l ⟨o, false, o.mnemonic, i.shape o⟩ (i.shape o) v = s.write env l i.bytes := by
  have haddress : s.address = i.address := by rw [address, hcursor, UInt16.ofNat_toNat]
  simp [chosen, haddress, ho.encode hv, warning?_known]

theorem line_code {s : Emission} {i : Instruction} (h : i.Valid) {symbols : Option SymbolTable}
    (hknown : ∀ t, symbols.bind i.symbol? = some t → env.symbols.address? t.name = some t.address)
    (hcursor : s.cursor = i.address.toNat) (n column : Nat) :
    ∃ l, s.line env env.limit (Entry.code symbols i).plan ⟨n, none, (Entry.code symbols i).statement, column⟩ =
      s.write env l i.bytes := by
  refine ⟨⟨n, none, (Entry.code symbols i).statement, column⟩, ?_⟩
  rcases h with hdata | ⟨o, ho⟩
  · have hnone : i.opcode = none := congrArg Instruction.opcode hdata
    have hbytes : i.bytes = [i.code] := by
      rw [hdata]
      rfl
    have hcode := i.code.toNat_lt
    have hbyte : Encoding.byte (i.code.toNat : Int) = .ok i.code := by
      rw [Encoding.byte, Encoding.check_of (show (-128 : Int) ≤ _ by omega) (show _ ≤ (0xFF : Int) by omega),
        Except.map, Encoding.ofInt_byte]
    have hitem (l : Line) : s.collect (item env l) [.value (.number i.code.toNat)] = (s, i.bytes) := by
      rw [collect_cons]
      simp [item, datum, value, Expr.eval, hbyte, Except.map, collect, hbytes]
    simp only [line_eq, labelled, Entry.code, Instruction.statement, hnone, hitem]
  · have hfits := Choice.fits_self ⟨o, false, o.mnemonic, i.shape o⟩
    simp only [line_eq, labelled, Entry.code, Instruction.statement, ho.opcode, instruction_planned hfits,
      Instruction.operand_shape]
    by_cases hm : o.mode.operandBytes = 0
    · simp only [hm, if_true]
      exact chosen_code ho hcursor fun h => absurd hm h
    · simp only [hm, if_false, value, ho.eval_term hknown hm]
      exact chosen_code ho hcursor fun _ => rfl

/-- The cursor is at the instruction after its origin, or without one if it was there already. -/
theorem follow_origin {expected : Option Nat} {s : Emission} (hcursor : ∀ c, expected = some c → s.cursor = c)
    {a : UInt16} {ls : List (SourceLine × Plan)}
    (hgives : List.Forall₂ Entry.GivesPlan (if expected = some a.toNat then [] else [Entry.origin a]) ls) :
    ∃ origin, s.follow env ls = { s with cursor := a.toNat, origin } := by
  split at hgives
  · rename_i hexpected
    cases hgives
    exact ⟨s.origin, by rw [← hcursor _ hexpected]; rfl⟩
  · obtain ⟨m, column, rest, rfl, hrest⟩ := Entry.givesPlan_cons hgives
    cases hrest
    exact ⟨a, by rw [follow, line_origin, follow]⟩

variable (env) in
/-- The second pass over the instructions of a walk writes the part of the image that was walked. -/
theorem follow_codes {image : Image} {first stop n : Nat} {is : List Instruction}
    (hwalks : Disassembler.Walks image stop n is) (hstop : stop ≤ 65536) {symbols : Option SymbolTable}
    (hknown : ∀ i ∈ is, ∀ t, symbols.bind i.symbol? = some t → env.symbols.address? t.name = some t.address)
    {expected : Option Nat} {s : Emission} (hcursor : ∀ c, expected = some c → s.cursor = c)
    (herrors : s.errors = #[]) (hfirst : first ≤ n) (hn : n ≤ stop) (hpart : s.image.IsPart image first n)
    {ls : List (SourceLine × Plan)} (hgives : List.Forall₂ Entry.GivesPlan (Entry.codes symbols expected is) ls) :
    (s.follow env ls).errors = #[] ∧ (s.follow env ls).image.IsPart image first stop := by
  -- along the walk the image written so far is the part of the walked image up to the cell reached
  induction hwalks generalizing expected s ls with
  | @done n hdone =>
    cases hgives
    obtain rfl : n = stop := by omega
    exact ⟨herrors, hpart⟩
  | @hole n is hlt hhole _ ih => exact ih hknown hcursor herrors (by omega) hlt (hpart.hole hhole) hgives
  | @found n i is hlt hstands _ ih =>
    obtain rfl := hstands.address
    have hbound := hstands.bound
    rw [Entry.codes] at hgives
    obtain ⟨ls₁, ls₂, rfl, horigin, hcode⟩ := forall₂_append_left hgives
    obtain ⟨m, column, ls₃, rfl, hrest⟩ := Entry.givesPlan_cons hcode
    obtain ⟨origin, hs⟩ := follow_origin hcursor horigin
    obtain ⟨l, hline⟩ := line_code (s := { s with cursor := i.address.toNat, origin }) hstands.valid
      (hknown i (by simp)) rfl m column
    have hfree : s.image.Free i.address.toNat i.bytes.length := hpart.free (show _ + i.size ≤ _ by omega)
    rw [follow_append, hs, follow, hline, write, bytes_of_free hfree]
    refine ih (fun j hj => hknown j (by simp [hj])) ?_ ?_ (by omega) hbound ?_ hrest
    · rintro _ ⟨⟩
      rfl
    · exact herrors
    · exact hpart.puts hfirst hstop hstands

/-- Equates write nothing. -/
theorem follow_equates {ss : List Symbol} (s : Emission) {ls : List (SourceLine × Plan)}
    (hgives : List.Forall₂ Entry.GivesPlan (Entry.equates ss) ls) : s.follow env ls = s := by
  have hidle : ∀ e ∈ Entry.equates ss, ∀ plan n column,
      s.line env env.limit plan ⟨n, none, e.statement, column⟩ = (s, []) := by
    intro e he plan n column
    rcases Entry.mem_equates he with ⟨t, -, rfl⟩ | rfl
    · exact line_equate s t plan n column
    · exact line_blank s plan n column
  generalize Entry.equates ss = es at hgives hidle
  induction es generalizing ls with
  | nil =>
    cases hgives
    rfl
  | cons e es ih =>
    obtain ⟨n, column, rest, rfl, hrest⟩ := Entry.givesPlan_cons hgives
    rw [follow, hidle e (by simp)]
    exact ih hrest fun e he => hidle e (by simp [he])

end Assembly.Emission

/-! ## Both passes -/

/-- A source of equates and of the instructions of a walk assembles to what was walked. -/
theorem Assembly.run_codes (settings : Settings) (registry : Macro.Registry) {text : String} {ss : List Symbol}
    {is : List Instruction} {symbols : Option SymbolTable}
    (hgives : List.Forall₂ Entry.Gives (Entry.equates ss ++ Entry.codes symbols none is) (readSource text))
    (hdistinct : ss.Pairwise fun s t => s.name ≠ t.name)
    (hused : ∀ i ∈ is, ∀ t, symbols.bind i.symbol? = some t → t ∈ ss)
    {image : Image} {first stop : Nat} (hwalks : Disassembler.Walks image stop first is) (hfirst : first ≤ stop)
    (hstop : stop ≤ 65536) :
    (run settings registry text).errors = [] ∧
      (run settings registry text).output.image.IsPart image first stop := by
  obtain ⟨herrors₁, hknown, hplans⟩ := Layout.run_entries registry settings.maxDepth hdistinct hwalks.valid hused hgives
  have hplanned : planned settings registry text =
      (readSource text).zip ((Entry.equates ss ++ Entry.codes symbols none is).map (·.plan)) := by
    rw [planned, parsed, hplans]
  obtain ⟨ls₁, ls₂, hls, hequates, hcodes⟩ := forall₂_append_left (Entry.gives_zip hgives)
  have hrun : (Emission.run (environment settings registry text) (planned settings registry text)).1 =
      Emission.start.follow (environment settings registry text) ls₂ := by
    rw [Emission.run_fst_eq, hplanned, hls, Emission.follow_append, Emission.follow_equates _ hequates]
  have hvalues : ∀ i ∈ is, ∀ t, symbols.bind i.symbol? = some t →
      (environment settings registry text).symbols.address? t.name = some t.address := by
    intro i hi t ht
    simp only [environment, parsed]
    exact hknown t (hused i hi t ht)
  obtain ⟨herrors₂, hpart⟩ := Emission.follow_codes (environment settings registry text) (s := .start) hwalks hstop
    hvalues (fun _ h => by cases h) rfl (Nat.le_refl _) hfirst (Image.IsPart.empty _ _) hcodes
  rw [run_eq]
  dsimp only
  rw [hrun, herrors₂, parsed, herrors₁]
  exact ⟨rfl, hpart⟩

/-! ## The symbols of a source -/

namespace Disassembler

theorem mem_usedSymbols {d : Disassembler} {is : List Instruction} {s : Symbol} :
    s ∈ d.usedSymbols is ↔ ∃ i ∈ is, d.options.symbols.bind i.symbol? = some s := by
  unfold usedSymbols
  cases d.options.symbols with
  | none => simp
  | some table =>
    simp only [List.mem_filter, List.contains_iff_mem, List.mem_filterMap, Option.bind_some]
    constructor
    · rintro ⟨-, hused⟩
      exact hused
    · rintro ⟨i, hi, hs⟩
      exact ⟨(Instruction.symbol?_spec hs).2.2, i, hi, hs⟩

theorem usedSymbols_distinct (d : Disassembler) (is : List Instruction) :
    (d.usedSymbols is).Pairwise fun s t => s.name ≠ t.name := by
  unfold usedSymbols
  cases d.options.symbols with
  | none => exact .nil
  | some table =>
    have hne : table.symbols.Pairwise fun s t => s.name ≠ t.name := by
      refine table.sorted.imp ?_
      intro s t hlt heq
      rw [heq] at hlt
      exact String.lt_irrefl _ hlt
    exact hne.filter _

theorem entries_plain (image : Image) (symbols : Option SymbolTable) (start : UInt16) (length : UInt32) :
    ∀ e ∈ entries ⟨image, symbols, true⟩ start length, Plain e.text := by
  intro e he
  rcases List.mem_append.1 he with he | he
  · rcases Entry.mem_equates he with ⟨s, hs, rfl⟩ | rfl
    · obtain ⟨i, -, hi⟩ := mem_usedSymbols.1 hs
      have hword := plain_word (word_of_isLabel (Instruction.isLabel_symbol hi)).1
      exact plain_append (plain_append hword (by decide)) (plain_hexWord _)
    · exact (by decide : Plain "")
  · obtain ⟨i, hi, rfl | rfl⟩ := Entry.mem_codes he
    · exact plain_append (by decide) (plain_hexWord _)
    · exact ((region_walks _ start length).valid i hi).plain symbols

theorem entries_reads {image : Image} {symbols : Option SymbolTable} {start : UInt16} {length : UInt32}
    (hequ : ∀ i ∈ region ⟨image, symbols, true⟩ start length, i.namesEqu symbols = false) :
    ∀ e ∈ entries ⟨image, symbols, true⟩ start length, Line.Reads e.text e.statement := by
  intro e he
  rcases List.mem_append.1 he with he | he
  · rcases Entry.mem_equates he with ⟨s, hs, rfl⟩ | rfl
    · obtain ⟨i, -, hi⟩ := mem_usedSymbols.1 hs
      exact Line.reads_equate (Instruction.isLabel_symbol hi) s.address
    · exact Line.reads_empty
  · obtain ⟨i, hi, rfl | rfl⟩ := Entry.mem_codes he
    · exact Line.reads_origin i.address
    · exact ((region_walks _ start length).valid i hi).reads (hequ i hi)

theorem le_regionEnd (start : UInt16) (length : UInt32) : start.toNat ≤ regionEnd start length := by
  have := start.toNat_lt
  unfold regionEnd
  omega

/-- Unless an operand is read as an equate, the source of a region assembles to the region. -/
theorem assemble_source (image : Image) (symbols : Option SymbolTable) (start : UInt16) (length : UInt32)
    (hequ : ∀ i ∈ region ⟨image, symbols, true⟩ start length, i.namesEqu symbols = false) :
    ∃ out, assemble (source ⟨image, symbols, true⟩ start length) = .ok out ∧
      out.image.IsPart image start.toNat (regionEnd start length) := by
  have hgives := Entry.gives_readSource (entries_plain image symbols start length) (entries_reads hequ)
  rw [← source_eq] at hgives
  obtain ⟨herrors, hpart⟩ := Assembly.run_codes {} .builtin hgives (usedSymbols_distinct _ _)
    (fun i hi t ht => mem_usedSymbols.2 ⟨i, hi, ht⟩) (region_walks _ start length) (le_regionEnd start length)
    (Nat.min_le_right _ _)
  exact ⟨_, toExcept_eq_ok (by rw [herrors]; rfl), hpart⟩

/-- An operand that is read as an equate spoils the source. -/
theorem assemble_source_error {image : Image} {symbols : Option SymbolTable} {start : UInt16} {length : UInt32}
    {i : Instruction} (hi : i ∈ region ⟨image, symbols, true⟩ start length) (hequ : i.namesEqu symbols = true) :
    ∃ errors, assemble (source ⟨image, symbols, true⟩ start length) = .error errors := by
  have hmem : Entry.code symbols i ∈ entries ⟨image, symbols, true⟩ start length :=
    List.mem_append_right _ (Entry.code_mem_codes none hi)
  obtain ⟨k, hk⟩ := List.getElem?_of_mem hmem
  obtain ⟨e, he⟩ := ((region_walks _ start length).valid i hi).unreadable hequ (k + 1)
  have hline : (readSource (source ⟨image, symbols, true⟩ start length))[k]? =
      some ((Entry.code symbols i).text.toList, .error e) := by
    rw [source_eq, readSource, Lines.split_join (entries_plain image symbols start length)]
    simp only [List.getElem?_mapIdx, List.getElem?_map, hk, Option.map_some]
    rw [← he]
    rfl
  -- an accepted source has no line that cannot be read
  cases h : assemble (source ⟨image, symbols, true⟩ start length) with
  | error errors => exact ⟨errors, rfl⟩
  | ok out =>
    obtain ⟨text, l, hl⟩ := (accepted_of_ok h).1.line_ok (List.getElem?_eq_some_iff.1 hline).1
    cases hline.symm.trans hl

theorem namesEqu_none (i : Instruction) : i.namesEqu none = false := by
  simp [Instruction.namesEqu]

/-- Up to the top of memory, the cells before the end of a region are those within its length. -/
theorem isPart_regionEnd {part image : Image} {start : UInt16} {length : UInt32}
    (h : part.IsPart image start.toNat (regionEnd start length)) (a : UInt16) :
    part.get? a =
      if start.toNat ≤ a.toNat ∧ a.toNat < start.toNat + length.toNat then image.get? a else none := by
  have ha := a.toNat_lt
  have hend : a.toNat < regionEnd start length ↔ a.toNat < start.toNat + length.toNat := by
    unfold regionEnd
    omega
  simpa only [hend] using h a

/-- Every region of every image, written without symbols, assembles to its own cells and to nothing else. -/
theorem source_reassembles (image : Image) (start : UInt16) (length : UInt32) :
    ∃ out, assemble (source ⟨image, { reassemblable := true }⟩ start length) = .ok out ∧
      ∀ a, out.image.get? a =
        if start.toNat ≤ a.toNat ∧ a.toNat < start.toNat + length.toNat then image.get? a else none := by
  obtain ⟨out, hout, hpart⟩ := assemble_source image none start length fun i _ => namesEqu_none i
  exact ⟨out, hout, isPart_regionEnd hpart⟩

/-- Written with the names of symbols it does so too, but for one case: an operand that is the name `EQU`, in
either case and not in parentheses, is taken for the sign of an equate, and then nothing is assembled. -/
theorem symbolic_source_reassembles (image : Image) (table : SymbolTable) (start : UInt16) (length : UInt32) :
    let d : Disassembler := ⟨image, { symbols := some table, reassemblable := true }⟩
    ((∃ out, assemble (d.source start length) = .ok out ∧
        ∀ a, out.image.get? a =
          if start.toNat ≤ a.toNat ∧ a.toNat < start.toNat + length.toNat then image.get? a else none) ↔
      ∀ i ∈ d.region start length, i.namesEqu (some table) = false) ∧
    ((∃ errors, assemble (d.source start length) = .error errors) ↔
      ∃ i ∈ d.region start length, i.namesEqu (some table) = true) := by
  intro d
  have hok : (∀ i ∈ d.region start length, i.namesEqu (some table) = false) →
      ∃ out, assemble (d.source start length) = .ok out ∧ ∀ a, out.image.get? a =
        if start.toNat ≤ a.toNat ∧ a.toNat < start.toNat + length.toNat then image.get? a else none := by
    intro hequ
    obtain ⟨out, hout, hpart⟩ := assemble_source image (some table) start length hequ
    exact ⟨out, hout, isPart_regionEnd hpart⟩
  refine ⟨⟨?_, hok⟩, ?_, ?_⟩
  · rintro ⟨out, hout, -⟩ i hi
    refine Bool.eq_false_iff.2 fun hequ => ?_
    obtain ⟨errors, herror⟩ := assemble_source_error hi hequ
    cases hout.symm.trans herror
  · rintro ⟨errors, herror⟩
    by_contra hnone
    obtain ⟨out, hout, -⟩ := hok fun i hi => Bool.eq_false_iff.2 fun hequ => hnone ⟨i, hi, hequ⟩
    cases hout.symm.trans herror
  · rintro ⟨i, hi, hequ⟩
    exact assemble_source_error hi hequ

/-- A jump to a symbol called `EQU` is written as the equate of `JMP` with nothing. -/
theorem symbolic_source_refused :
    let table : SymbolTable := ⟨[⟨"EQU", 0x0200, 2⟩], List.pairwise_singleton _ _⟩
    let d : Disassembler :=
      ⟨Image.empty.puts 0x0200 [0x4C, 0x00, 0x02], { symbols := some table, reassemblable := true }⟩
    d.source 0x0200 3 = "EQU = $0200\n\nORG $0200\n    JMP EQU\n" ∧
      ∃ errors, assemble (d.source 0x0200 3) = .error errors := by
  intro table d
  have hregion : d.region 0x0200 3 = [⟨0x0200, 0x4C, Opcode.ofCode? 0x4C, [0x00, 0x02]⟩] := by decide +kernel
  refine ⟨by decide +kernel, (symbolic_source_reassembles _ table 0x0200 3).2.2 ?_⟩
  exact ⟨_, hregion ▸ List.mem_singleton_self _, by decide +kernel⟩

end Disassembler

end Mos6502
