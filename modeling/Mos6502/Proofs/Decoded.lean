import Mos6502.Disassembly.Format
import Mos6502.Isa.Operand
import Mos6502.Proofs.Encoding
import Mos6502.Proofs.Reading

/-!
# Decoded instructions

An instruction that was decoded is written with an operand that selects the same
row of the table again, and that encodes to the bytes it was decoded from.
-/
namespace Mos6502

/-! ## The table -/

namespace Opcode

theorem find?_self : ∀ o ∈ documented, find? o.mnemonic o.mode = some o := by
  decide +kernel

theorem isBranch_mnemonic : ∀ o ∈ documented, isBranch o.mnemonic = decide (o.mode = .relative) := by
  decide +kernel

theorem upper_mnemonic (o : Opcode) : Text.upper o.mnemonic = o.mnemonic := by
  unfold mnemonic
  cases o.operation <;> rfl

theorem isWord_mnemonic (o : Opcode) : isWord o.mnemonic = true := by
  unfold mnemonic
  cases o.operation <;> rfl

theorem directive?_mnemonic (o : Opcode) (s : TokenStream) : Line.directive? o.mnemonic s = none := by
  unfold mnemonic
  cases o.operation <;> rfl

theorem ofCode?_eq_find? (b : UInt8) : ofCode? b = documented.find? (·.code.toNat == b.toNat) :=
  Vector.getElem_ofFn b.toNat_lt

theorem ofCode?_eq_some {b : UInt8} {o : Opcode} (h : ofCode? b = some o) : o ∈ documented ∧ o.code = b := by
  rw [ofCode?_eq_find?] at h
  have hcode : o.code.toNat = b.toNat := by
    simpa only [beq_iff_eq] using List.find?_some h
  exact ⟨List.mem_of_find?_eq_some h, UInt8.toNat_inj.1 hcode⟩

theorem ofCode?_code (o : Opcode) (h : o ∈ documented) : ofCode? o.code = some o := by
  have hfind : ∀ o ∈ documented, documented.find? (·.code.toNat == o.code.toNat) = some o := by
    decide +kernel
  rw [ofCode?_eq_find?, hfind o h]

end Opcode

/-! ## Selection -/

/-- The shape in which operands of the mode are written. -/
def Mode.shape (forced : Bool) : Mode → Shape
  | implied => .none
  | accumulator => .accumulator
  | immediate => .immediate
  | zeroPage | relative => .direct none false
  | zeroPageX => .direct (some .x) false
  | zeroPageY => .direct (some .y) false
  | absolute => .direct none forced
  | absoluteX => .direct (some .x) forced
  | absoluteY => .direct (some .y) forced
  | indirect => .indirect
  | indirectX => .indirectX
  | indirectY => .indirectY

theorem Mode.operandBytes_le (m : Mode) : m.operandBytes ≤ 2 := by
  cases m <;> decide

namespace Opcode

theorem zeroPageMode_one (index : Option Index) :
    (zeroPageMode index).operandBytes = 1 ∧ zeroPageMode index ≠ .relative := by
  match index with
  | none | some .x | some .y => exact ⟨rfl, nofun⟩

theorem absoluteMode_two (index : Option Index) :
    (absoluteMode index).operandBytes = 2 ∧ (absoluteMode index).zeroPageForm = some (zeroPageMode index) := by
  match index with
  | none | some .x | some .y => exact ⟨rfl, rfl⟩

theorem selectDirect_zeroPage {o : Opcode} (ho : o ∈ documented) {index : Option Index}
    (hm : o.mode = zeroPageMode index) {v : UInt16} (hv : v ≤ 0xFF) :
    selectDirect o.mnemonic index false (some v) = some o := by
  have hfind := find?_self o ho
  rw [hm] at hfind
  simp [selectDirect, hv, hfind]

theorem selectDirect_absolute {o : Opcode} (ho : o ∈ documented) {index : Option Index}
    (hm : o.mode = absoluteMode index) (v : UInt16) :
    selectDirect o.mnemonic index (o.needsForce v) (some v) = some o := by
  have hfind := find?_self o ho
  rw [hm] at hfind
  simp only [selectDirect, needsForce, hm, (absoluteMode_two index).2, hfind, Option.any_some]
  by_cases hv : v ≤ 0xFF
  · cases hzero : find? o.mnemonic (zeroPageMode index) <;> simp [hv]
  · simp [hv]

/-- The name, the written shape and the value of the operand select the instruction. -/
theorem select_self {o : Opcode} (ho : o ∈ documented) {v : UInt16} {value : Option UInt16}
    (hvalue : o.mode.operandBytes ≠ 0 → value = some v)
    (hv : o.mode.operandBytes = 1 → o.mode ≠ .relative → v ≤ 0xFF) :
    select o.mnemonic (o.mode.shape (o.needsForce v)) value = .ok o := by
  have hfind := find?_self o ho
  have hknown : isMnemonic o.mnemonic = true := by
    simp only [isMnemonic, upper_mnemonic, Bool.or_eq_true, List.any_eq_true]
    exact .inl ⟨o, ho, by simp⟩
  -- a direct operand could select either of two rows; its value and its suffix decide
  have hzero (index : Option Index) (hm : o.mode = zeroPageMode index) :
      selectDirect o.mnemonic index false value = some o := by
    obtain ⟨hone, hbranch⟩ := zeroPageMode_one index
    rw [← hm] at hone hbranch
    rw [hvalue (by omega)]
    exact selectDirect_zeroPage ho hm (hv hone hbranch)
  have habs (index : Option Index) (hm : o.mode = absoluteMode index) :
      selectDirect o.mnemonic index (o.needsForce v) value = some o := by
    have htwo := (absoluteMode_two index).1
    rw [← hm] at htwo
    rw [hvalue (by omega)]
    exact selectDirect_absolute ho hm v
  simp only [select, hknown, isBranch_mnemonic o ho]
  cases hm : o.mode with
  | relative => simp [Mode.shape, ← hm, hfind]
  | implied | accumulator | immediate | indirect | indirectX | indirectY =>
    rw [hm] at hfind
    simp [Mode.shape, selectPlain, hfind]
  | zeroPage => simp [Mode.shape, selectPlain, hzero none hm]
  | zeroPageX => simp [Mode.shape, selectPlain, hzero (some .x) hm]
  | zeroPageY => simp [Mode.shape, selectPlain, hzero (some .y) hm]
  | absolute => simp [Mode.shape, selectPlain, habs none hm]
  | absoluteX => simp [Mode.shape, selectPlain, habs (some .x) hm]
  | absoluteY => simp [Mode.shape, selectPlain, habs (some .y) hm]

end Opcode

/-! ## Encoding -/

namespace Instruction

/-- The instruction stands for a row of the table, with as many operand bytes as the row says. -/
structure Decoded (i : Instruction) (o : Opcode) : Prop where
  opcode : i.opcode = some o
  code : Opcode.ofCode? i.code = some o
  length : i.operands.length = o.mode.operandBytes

/-- The instruction of a row of the table, with its operand bytes. -/
def ofRow (a : UInt16) (o : Opcode) (operands : List UInt8) : Instruction :=
  ⟨a, o.code, some o, operands⟩

/-- The bytes of a row are decoded as the row, whatever bytes follow. -/
theorem decode?_ofRow (o : Opcode) (ho : o ∈ Opcode.documented) (ops : List UInt8)
    (hlen : ops.length = o.mode.operandBytes) (a : UInt16) (suffix : List UInt8) :
    decode? (o.code :: ops ++ suffix) a = some (ofRow a o ops) := by
  have hrow := Opcode.ofCode?_code o ho
  have htake : (ops ++ suffix).take o.mode.operandBytes = ops := by
    rw [← hlen, List.take_left]
  unfold decode?
  simp only [List.cons_append, hrow, htake, hlen, if_true]
  rfl

theorem Decoded.size_eq {i : Instruction} {o : Opcode} (h : i.Decoded o) : i.size = o.size := by
  simp [size, bytes, Opcode.size, Mode.size, h.length, Nat.add_comm]

/-- The value that is written for the operand. -/
def operandValue (i : Instruction) : UInt16 :=
  i.target?.getD i.value

theorem operandValue_plain {i : Instruction} {o : Opcode} (h : i.opcode = some o) (hm : o.mode ≠ .relative) :
    i.operandValue = i.value := by
  unfold operandValue target?
  rw [h]
  dsimp only
  cases hmode : o.mode with
  | relative => exact absurd hmode hm
  | _ => rfl

theorem Decoded.one {i : Instruction} {o : Opcode} (h : i.Decoded o) (hm : o.mode.operandBytes = 1) :
    ∃ low, i.operands = [low] ∧ i.value = low.toUInt16 := by
  obtain ⟨low, hlow⟩ := List.length_eq_one_iff.1 (h.length.trans hm)
  exact ⟨low, hlow, by simp [value, hlow]⟩

theorem Decoded.two {i : Instruction} {o : Opcode} (h : i.Decoded o) (hm : o.mode.operandBytes = 2) :
    ∃ low high, i.operands = [low, high] ∧ i.value = (low.toUInt16 ||| (high.toUInt16 <<< 8)) := by
  match hops : i.operands, h.length.trans hm with
  | [low, high], _ => exact ⟨low, high, rfl, by simp [value, hops]⟩

/-- The operand's value gives the operand's bytes. -/
theorem Decoded.operand {i : Instruction} {o : Opcode} (h : i.Decoded o) :
    Encoding.operand o.mode i.operandValue.toNat i.address = .ok i.operands := by
  have hplain := operandValue_plain h.opcode
  cases hm : o.mode with
  | implied | accumulator =>
    have hnil := List.eq_nil_of_length_eq_zero (h.length.trans (by rw [hm]; rfl))
    simp [Encoding.operand, hnil]
  | relative =>
    -- the value is the target, and the distance back from it is the byte
    obtain ⟨low, hops, hvalue⟩ := h.one (by rw [hm]; rfl)
    have htarget : i.operandValue = Branch.target i.address low.toInt8 := by
      simp [operandValue, target?, h.opcode, hm, hvalue]
    have hword := i.operandValue.toNat_lt
    have hcheck : Encoding.check .branchTarget i.operandValue.toNat = .ok (i.operandValue.toNat : Int) :=
      Encoding.check_of (show (0 : Int) ≤ _ by omega) (show _ ≤ (0xFFFF : Int) by omega)
    simp only [Encoding.operand, hcheck, bind, Except.bind, Encoding.ofInt_word]
    rw [htarget, Branch.displacement_target, hops]
    simp
  | immediate =>
    obtain ⟨low, hops, hvalue⟩ := h.one (by rw [hm]; rfl)
    have hlow := low.toNat_lt
    rw [hplain (by rw [hm]; nofun), hvalue, hops, UInt8.toNat_toUInt16, Encoding.operand, Encoding.byte,
      Encoding.check_of (show (-128 : Int) ≤ _ by omega) (show _ ≤ (0xFF : Int) by omega)]
    simp [Except.map, bind, Except.bind, Encoding.ofInt_byte]
  | zeroPage | zeroPageX | zeroPageY | indirectX | indirectY =>
    obtain ⟨low, hops, hvalue⟩ := h.one (by rw [hm]; rfl)
    have hlow := low.toNat_lt
    rw [hplain (by rw [hm]; nofun), hvalue, hops, UInt8.toNat_toUInt16, Encoding.operand,
      Encoding.check_of (show (0 : Int) ≤ _ by omega) (show _ ≤ (0xFF : Int) by omega)]
    simp [bind, Except.bind, Encoding.ofInt_byte]
  | absolute | absoluteX | absoluteY | indirect =>
    obtain ⟨low, high, hops, hvalue⟩ := h.two (by rw [hm]; rfl)
    have hword := i.value.toNat_lt
    rw [hplain (by rw [hm]; nofun), Encoding.operand,
      Encoding.check_of (show (0 : Int) ≤ _ by omega) (show _ ≤ (0xFFFF : Int) by omega)]
    simp only [bind, Except.bind, Encoding.ofInt_word]
    rw [hvalue, Encoding.littleEndian_word, hops]

/-- The instruction is encoded to the bytes it was decoded from; one without an operand needs no value. -/
theorem Decoded.encode {i : Instruction} {o : Opcode} (h : i.Decoded o) {value : Option Int}
    (hvalue : o.mode.operandBytes ≠ 0 → value = some (i.operandValue.toNat : Int)) :
    o.encode value i.address = .ok i.bytes := by
  have hcode : o.code = i.code := (Opcode.ofCode?_eq_some h.code).2
  unfold Opcode.encode
  split
  · rename_i hzero
    have hnil := List.eq_nil_of_length_eq_zero (h.length.trans hzero)
    rw [bytes, hcode, hnil]
  · rename_i hsome
    simp [hvalue hsome, h.operand, Except.map, bytes, hcode]

/-! ## Text -/

theorem symbol?_spec {i : Instruction} {table : SymbolTable} {s : Symbol} (h : i.symbol? table = some s) :
    i.target? = some s.address ∧ isLabel s.name = true ∧ s ∈ table.symbols := by
  unfold symbol? at h
  split at h
  · cases h
  · rename_i a ha
    have hs := List.find?_some h
    simp only [Bool.and_eq_true, beq_iff_eq] at hs
    exact ⟨by rw [ha, hs.1], hs.2, List.mem_of_find?_eq_some h⟩

theorem isLabel_symbol {i : Instruction} {symbols : Option SymbolTable} {s : Symbol}
    (h : symbols.bind i.symbol? = some s) : isLabel s.name = true := by
  obtain ⟨table, -, hs⟩ := Option.bind_eq_some_iff.1 h
  exact (symbol?_spec hs).2.1

/-- The operand's value as digits. -/
def numeral (i : Instruction) : Term :=
  match i.mode with
  | .relative => .word (i.target?.getD 0)
  | mode => if mode.operandBytes = 2 then .word i.value else .byte i.value.toUInt8

/-- The operand's value as it is written: by a name if a symbol has the value. -/
def term (i : Instruction) (symbols : Option SymbolTable) : Term :=
  match h : symbols.bind i.symbol? with
  | some s => .label s.name (isLabel_symbol h)
  | none => i.numeral

theorem term_of_some {i : Instruction} {symbols : Option SymbolTable} {s : Symbol}
    (h : symbols.bind i.symbol? = some s) : i.term symbols = .label s.name (isLabel_symbol h) := by
  unfold term
  split
  · rename_i hs
    cases h.symm.trans hs
    rfl
  · rename_i hs
    cases h.symm.trans hs

theorem term_of_none {i : Instruction} {symbols : Option SymbolTable} (h : symbols.bind i.symbol? = none) :
    i.term symbols = i.numeral := by
  unfold term
  split
  · rename_i hs
    cases h.symm.trans hs
  · rfl

theorem text_term (i : Instruction) (symbols : Option SymbolTable) :
    (i.term symbols).text = i.addressText ((symbols.bind i.symbol?).map (·.name)) := by
  cases h : symbols.bind i.symbol? with
  | some s =>
    rw [term_of_some h]
    rfl
  | none =>
    rw [term_of_none h, numeral]
    cases hm : i.mode <;> simp [addressText, hm, Term.word, Term.byte, Mode.operandBytes]

/-- An operand that names no address is written in digits. -/
theorem term_immediate {i : Instruction} {o : Opcode} (h : i.opcode = some o) (hm : o.mode = .immediate)
    (symbols : Option SymbolTable) : i.term symbols = .byte i.value.toUInt8 := by
  have hnone : symbols.bind i.symbol? = none := by
    cases symbols <;> simp [symbol?, target?, h, hm]
  simp [term_of_none hnone, numeral, mode, h, hm, Mode.operandBytes]

theorem operandText_eq {i : Instruction} {o : Opcode} (h : i.opcode = some o) (symbols : Option SymbolTable) :
    i.operandText ⟨symbols, true⟩ = (o.mode.shape (o.needsForce i.value)).text (i.term symbols).text := by
  have hforce : i.forceText ⟨symbols, true⟩ = Shape.forceText (o.needsForce i.value) := by
    simp [forceText, Shape.forceText, h]
  unfold operandText
  rw [h]
  simp only [hforce, ← text_term]
  cases hm : o.mode with
  | immediate =>
    rw [term_immediate h hm]
    rfl
  | _ => simp [Mode.shape, Shape.text, Shape.forceText, Shape.indexText, Index.name, String.append_assoc]

theorem Decoded.value_numeral {i : Instruction} {o : Opcode} (h : i.Decoded o) (hm : o.mode.operandBytes ≠ 0) :
    i.numeral.value = .number i.operandValue.toNat := by
  have hmode : i.mode = o.mode := by simp [mode, h.opcode]
  by_cases hbranch : o.mode = .relative
  · simp [numeral, hmode, hbranch, operandValue, target?, h.opcode, Term.word]
  · have hnumeral : i.numeral = if o.mode.operandBytes = 2 then .word i.value else .byte i.value.toUInt8 := by
      unfold numeral
      rw [hmode]
      split
      · contradiction
      · rfl
    rw [hnumeral, operandValue_plain h.opcode hbranch]
    split
    · rfl
    · obtain ⟨low, -, hvalue⟩ := h.one (by have := o.mode.operandBytes_le; omega)
      simp [Term.byte, hvalue]

/-- The written operand has the operand's value. -/
theorem Decoded.eval_term {i : Instruction} {o : Opcode} (h : i.Decoded o) {symbols : Option SymbolTable}
    {known : SymbolTable} (hknown : ∀ s, symbols.bind i.symbol? = some s → known.address? s.name = some s.address)
    (hm : o.mode.operandBytes ≠ 0) (a : UInt16) :
    (i.term symbols).value.eval known a = .ok (i.operandValue.toNat : Int) := by
  cases hs : symbols.bind i.symbol? with
  | some s =>
    obtain ⟨table, -, hsymbol⟩ := Option.bind_eq_some_iff.1 hs
    simp [term_of_some hs, Term.label, Expr.eval, hknown s hs, operandValue, (symbol?_spec hsymbol).1]
  | none => rw [term_of_none hs, h.value_numeral hm, Expr.eval]

/-! ## Lines -/

/-- The instruction is a data byte or was decoded from the table. -/
def Valid (i : Instruction) : Prop :=
  i = .data i.address i.code ∨ ∃ o, i.Decoded o

/-- The shape in which the operand is written. -/
def shape (i : Instruction) (o : Opcode) : Shape :=
  o.mode.shape (o.needsForce i.value)

/-- The written operand selects the instruction. -/
theorem Decoded.select {i : Instruction} {o : Opcode} (h : i.Decoded o) {value : Option UInt16}
    (hvalue : o.mode.operandBytes ≠ 0 → value = some i.operandValue) :
    Opcode.select o.mnemonic (i.shape o) value = .ok o := by
  have hplain := operandValue_plain h.opcode
  -- only a branch has another value than its bytes say, and a branch has no suffix
  have hshape : i.shape o = o.mode.shape (o.needsForce i.operandValue) := by
    by_cases hm : o.mode = .relative
    · simp [shape, hm, Mode.shape]
    · rw [shape, hplain hm]
  rw [hshape]
  refine Opcode.select_self (Opcode.ofCode?_eq_some h.code).1 hvalue fun hone hm => ?_
  obtain ⟨low, -, hlow⟩ := h.one hone
  have hlt := low.toNat_lt
  rw [hplain hm, hlow, UInt16.le_iff_toNat_le, UInt8.toNat_toUInt16]
  exact Nat.le_of_lt_succ hlt

/-- An operand is written exactly if the mode has bytes for it. -/
theorem operand_shape (i : Instruction) (o : Opcode) (e : Expr) :
    (i.shape o).operand e = if o.mode.operandBytes = 0 then none else some e := by
  unfold shape
  cases o.mode <;> rfl

/-- The statement that the line of the instruction holds. -/
def statement (i : Instruction) (symbols : Option SymbolTable) : Statement :=
  match i.opcode with
  | none => .bytes [.value (.number i.code.toNat)]
  | some o => .instruction o.mnemonic (i.shape o) ((i.shape o).operand (i.term symbols).value)

/-- The operand, written without parentheses, is a symbol with the name `EQU` in either case. -/
def namesEqu (i : Instruction) (symbols : Option SymbolTable) : Bool :=
  match symbols.bind i.symbol? with
  | none => false
  | some s =>
    match i.mode with
    | .indirect | .indirectX | .indirectY => false
    | _ => Text.sameLetters s.name "EQU"

theorem render_data {i : Instruction} (h : i.opcode = none) (options : FormatOptions) :
    "    " ++ i.render options = "    DB $" ++ Hex.byte i.code := by
  have htext : i.operandText options = "$" ++ Hex.byte i.code := by simp [operandText, h]
  have hempty : ("$" ++ Hex.byte i.code).isEmpty = false := by simp [Hex.byte]
  have hmnemonic : i.mnemonic = "DB" := by simp [mnemonic, h]
  simp only [render, htext, hempty, hmnemonic, Bool.false_eq_true, if_false]
  rw [← String.append_assoc, ← String.append_assoc]
  rfl

theorem render_decoded {i : Instruction} {o : Opcode} (h : i.opcode = some o) (symbols : Option SymbolTable) :
    "    " ++ i.render ⟨symbols, true⟩ =
      Line.instructionText o.mnemonic ((i.shape o).text (i.term symbols).text) := by
  unfold render Line.instructionText
  rw [operandText_eq h]
  simp [mnemonic, h, shape]

theorem lexeme_numeral (i : Instruction) : ∃ w, i.numeral.lexeme = .hex w := by
  unfold numeral
  split
  · exact ⟨_, rfl⟩
  · split <;> exact ⟨_, rfl⟩

/-- The written operand starts with a word for `=` exactly if it names such a symbol. -/
theorem namesEqu_eq {i : Instruction} {o : Opcode} (h : i.opcode = some o) (symbols : Option SymbolTable) :
    ((i.shape o).isDirect && Line.isEquals (i.term symbols).lexeme) = i.namesEqu symbols := by
  have hmode : i.mode = o.mode := by simp [mode, h]
  unfold namesEqu
  cases hs : symbols.bind i.symbol? with
  | none =>
    obtain ⟨w, hw⟩ := i.lexeme_numeral
    simp [term_of_none hs, hw, Line.isEquals]
  | some s =>
    obtain ⟨table, -, hsymbol⟩ := Option.bind_eq_some_iff.1 hs
    -- an operand that has a symbol has an address, which leaves the modes with one
    have htarget := (symbol?_spec hsymbol).1
    simp only [target?, h] at htarget
    rw [term_of_some hs]
    cases hm : o.mode <;> simp_all [shape, Mode.shape, Shape.isDirect, Line.isEquals, Term.label]

/-- The line of the instruction is read as its statement. -/
theorem Valid.reads {i : Instruction} (h : i.Valid) {symbols : Option SymbolTable}
    (hequ : i.namesEqu symbols = false) :
    Line.Reads ("    " ++ i.render ⟨symbols, true⟩) (some (i.statement symbols)) := by
  rcases h with hdata | ⟨o, ho⟩
  · have hnone : i.opcode = none := congrArg opcode hdata
    simp only [render_data hnone, statement, hnone]
    exact Line.reads_data i.code
  · simp only [render_decoded ho.opcode, statement, ho.opcode]
    exact Line.reads_instruction o.isWord_mnemonic o.directive?_mnemonic (namesEqu_eq ho.opcode symbols ▸ hequ)

theorem Valid.unreadable {i : Instruction} (h : i.Valid) {symbols : Option SymbolTable}
    (hequ : i.namesEqu symbols = true) : Line.Unreadable ("    " ++ i.render ⟨symbols, true⟩) := by
  rcases h with hdata | ⟨o, ho⟩
  · have hnone : symbols.bind i.symbol? = none := by
      cases symbols <;> simp [symbol?, target?, congrArg opcode hdata, data]
    simp [namesEqu, hnone] at hequ
  · rw [render_decoded ho.opcode]
    exact Line.unreadable_equ o.isWord_mnemonic (namesEqu_eq ho.opcode symbols ▸ hequ)

theorem Valid.plain {i : Instruction} (h : i.Valid) (symbols : Option SymbolTable) :
    Plain ("    " ++ i.render ⟨symbols, true⟩) := by
  rcases h with hdata | ⟨o, ho⟩
  · rw [render_data (congrArg opcode hdata)]
    exact plain_append (by decide) (plain_hexByte _)
  · have hword := plain_word o.isWord_mnemonic
    have htext := (i.shape o).plain_text (i.term symbols)
    rw [render_decoded ho.opcode, Line.instructionText]
    split
    · exact plain_append (by decide) hword
    · exact plain_append (by decide) (plain_append (plain_append hword (by decide)) htext)

end Instruction

end Mos6502
