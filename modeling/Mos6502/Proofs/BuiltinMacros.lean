import Mos6502.Macro.Builtin
import Mos6502.Proofs.Basic
import Mos6502.Proofs.Layout
import Mos6502.Proofs.Lexing

/-!
# Sizes of built-in macros

The built-in macros answer with bytes. Most of them heed nothing but their
arguments. The tables of words look labels up, and in the first pass a label
without a value counts as zero. So what has an answer in the second pass has
one of the same size in the first, as long as the second pass knows the symbols
of the first and all its names are labels.

Main statement: `builtin_sizes_agree`, for any two functions in the places of
sine and cosine.
-/
namespace Mos6502

/-! ## Lists of results -/

section MapM
variable {α β ε : Type} {f : α → Except ε β} {xs : List α}

theorem mapM_cons_eq_ok {x : α} {ys : List β} :
    (x :: xs).mapM f = .ok ys ↔ ∃ y zs, f x = .ok y ∧ xs.mapM f = .ok zs ∧ ys = y :: zs := by
  rw [List.mapM_cons, bind_eq_ok]
  constructor
  · rintro ⟨y, hy, h⟩
    obtain ⟨zs, hzs, h⟩ := bind_eq_ok.1 h
    exact ⟨y, zs, hy, hzs, (Except.ok.inj h).symm⟩
  · rintro ⟨y, zs, hy, hzs, rfl⟩
    exact ⟨y, hy, bind_eq_ok.2 ⟨zs, hzs, rfl⟩⟩

theorem length_mapM {ys : List β} (h : xs.mapM f = .ok ys) : ys.length = xs.length := by
  induction xs generalizing ys with
  | nil => exact congrArg List.length (Except.ok.inj h).symm
  | cons x xs ih =>
    obtain ⟨y, zs, -, hzs, rfl⟩ := mapM_cons_eq_ok.1 h
    rw [List.length_cons, List.length_cons, ih hzs]

/-- All items together have results if each of them has one. -/
theorem exists_mapM_eq_ok : (∃ ys, xs.mapM f = .ok ys) ↔ ∀ x ∈ xs, ∃ y, f x = .ok y := by
  induction xs with
  | nil => exact ⟨nofun, fun _ => ⟨[], rfl⟩⟩
  | cons x xs ih =>
    rw [List.forall_mem_cons, ← ih]
    constructor
    · rintro ⟨ys, h⟩
      obtain ⟨y, zs, hy, hzs, -⟩ := mapM_cons_eq_ok.1 h
      exact ⟨⟨y, hy⟩, zs, hzs⟩
    · rintro ⟨⟨y, hy⟩, zs, hzs⟩
      exact ⟨y :: zs, mapM_cons_eq_ok.2 ⟨y, zs, hy, hzs, rfl⟩⟩

end MapM

namespace Macro

/-! ## Answers -/

section Registry
variable {registry : Registry} {name : String} {handler : Handler}

theorem mem_handlers (h : registry.find? name = some handler) : (name, handler) ∈ registry.handlers := by
  obtain ⟨before, after, hmem, -⟩ := List.lookup_eq_some_iff.1 h
  rw [hmem]
  simp

theorem expand_eq_ok {arguments : String} {context : Context} {pass : Pass} {output : Output} :
    registry.expand name arguments context pass = .ok output ↔
      ∃ handler, registry.find? name = some handler ∧ handler (splitArguments arguments) context pass = .ok output := by
  unfold Registry.expand
  constructor
  · intro h
    split at h
    · cases h
    · rename_i handler hfind
      split at h
      · rename_i hanswer
        exact ⟨handler, hfind, hanswer.trans (congrArg _ (Except.ok.inj h))⟩
      · cases h
  · rintro ⟨handler, hfind, hanswer⟩
    simp only [hfind, hanswer]

end Registry

/-- The answer is bytes, or a refusal. -/
def GivesBytes (answer : Except String Output) : Prop :=
  ∀ output, answer = .ok output → ∃ bs, output = .bytes bs

theorem givesBytes_bind {α : Type} {x : Except String α} {f : α → Except String Output} (h : ∀ a, GivesBytes (f a)) :
    GivesBytes (x >>= f) := by
  intro output he
  obtain ⟨a, -, ha⟩ := bind_eq_ok.1 he
  exact h a output ha

theorem givesBytes_ok (bs : List UInt8) : GivesBytes (.ok (.bytes bs)) := by
  intro output h
  exact ⟨bs, (Except.ok.inj h).symm⟩

theorem givesBytes_error (message : String) : GivesBytes (.error message) :=
  nofun

theorem givesBytes_repeatByte (args : List String) (context : Context) (pass : Pass) :
    GivesBytes (Builtin.repeatByte args context pass) := by
  unfold Builtin.repeatByte
  split
  · refine givesBytes_bind fun b => ?_
    split
    · exact givesBytes_ok _
    · exact givesBytes_error _
  · exact givesBytes_error _

theorem givesBytes_waveTable (wave : Float → Float) (args : List String) (context : Context) (pass : Pass) :
    GivesBytes (Builtin.waveTable wave args context pass) := by
  intro output h
  obtain ⟨n, -, h⟩ := map_eq_ok.1 h
  exact ⟨_, h.symm⟩

variable {sine cosine : Float → Float} {name : String} {handler : Handler}

/-- The built-in macros answer with bytes. -/
theorem ofWaves_bytes (h : (Registry.ofWaves sine cosine).find? name = some handler) (args : List String)
    (context : Context) (pass : Pass) : GivesBytes (handler args context pass) := by
  have hmem := mem_handlers h
  simp only [Registry.ofWaves, List.mem_cons, List.not_mem_nil, or_false, Prod.mk.injEq] at hmem
  -- one case for each macro, in the order of the table
  rcases hmem with ⟨-, rfl⟩ | ⟨-, rfl⟩ | ⟨-, rfl⟩ | ⟨-, rfl⟩ | ⟨-, rfl⟩ | ⟨-, rfl⟩ | ⟨-, rfl⟩ | ⟨-, rfl⟩ | ⟨-, rfl⟩
  · exact givesBytes_bind fun _ => givesBytes_ok _
  · refine givesBytes_bind fun _ => ?_
    dsimp only
    split
    · exact givesBytes_ok _
    · exact givesBytes_error _
  · exact givesBytes_bind fun _ => givesBytes_bind fun _ => givesBytes_ok _
  · exact givesBytes_bind fun _ => givesBytes_bind fun _ => givesBytes_ok _
  · exact givesBytes_bind fun _ => givesBytes_bind fun _ => givesBytes_ok _
  · exact givesBytes_repeatByte args context pass
  · exact givesBytes_bind fun _ => givesBytes_bind fun _ => givesBytes_ok _
  · exact givesBytes_waveTable _ args context pass
  · exact givesBytes_waveTable _ args context pass

/-! ## Tables of addresses -/

namespace Builtin

/-- A table with an entry for each address. -/
def addressTable (name : String) (entry : Int → List UInt8) : Handler := fun args context pass => do
  let _ ← first name args
  let values ← args.mapM (address · context pass)
  .ok (.bytes (values.flatMap entry))

theorem wordTable_eq : wordTable = addressTable "word_table" wordBytes :=
  rfl

theorem jumpTable_eq : jumpTable = addressTable "jump_table" fun n => wordBytes (n - 1) :=
  rfl

theorem length_entries {entry : Int → List UInt8} (hentry : ∀ n, (entry n).length = 2) (values : List Int) :
    (values.flatMap entry).length = 2 * values.length := by
  induction values with
  | nil => rfl
  | cons n values ih =>
    rw [List.flatMap_cons, List.length_append, hentry, ih, List.length_cons]
    omega

/-- The argument of a table has a value in the context. -/
def Resolves (context : Context) (pass : Pass) (argument : String) : Prop :=
  ∃ n, address argument context pass = .ok n

theorem resolves_first {context : Context} {argument : String} :
    Resolves context .first argument ↔
      context.symbols.address? argument ≠ none ∨ number? argument ≠ none ∨ isWord argument = true := by
  unfold Resolves address
  split
  · simp_all
  · split
    · simp_all
    · split <;> simp_all

theorem resolves_second {context : Context} {argument : String} :
    Resolves context .second argument ↔ context.symbols.address? argument ≠ none ∨ number? argument ≠ none := by
  unfold Resolves address
  split
  · simp_all
  · split
    · simp_all
    · simp_all

theorem addressTable_cons {entry : Int → List UInt8} (arg : String) {args : List String} {context : Context}
    {pass : Pass} : addressTable name entry (arg :: args) context pass =
    ((arg :: args).mapM (address · context pass) >>= fun values => .ok (.bytes (values.flatMap entry))) :=
  rfl

/-- The macro makes a table of words. -/
def IsTable (name : String) : Prop :=
  name = "word_table" ∨ name = "jump_table"

/-- A built-in macro makes a table of addresses, or heeds neither the context nor the pass. -/
theorem ofWaves_handler (h : (Registry.ofWaves sine cosine).find? name = some handler) :
    (IsTable name ∧ ∃ entry, (∀ n, (entry n).length = 2) ∧ handler = addressTable name entry) ∨
      (¬ IsTable name ∧
        ∀ args context context' pass pass', handler args context pass = handler args context' pass') := by
  have hmem := mem_handlers h
  simp only [Registry.ofWaves, List.mem_cons, List.not_mem_nil, or_false, Prod.mk.injEq] at hmem
  -- the tables of words stand fourth and fifth
  rcases hmem with ⟨rfl, rfl⟩ | ⟨rfl, rfl⟩ | ⟨rfl, rfl⟩ | ⟨rfl, rfl⟩ | ⟨rfl, rfl⟩ | ⟨rfl, rfl⟩ | ⟨rfl, rfl⟩ |
    ⟨rfl, rfl⟩ | ⟨rfl, rfl⟩
  case inr.inr.inr.inl => exact .inl ⟨.inl rfl, _, fun _ => rfl, wordTable_eq⟩
  case inr.inr.inr.inr.inl => exact .inl ⟨.inr rfl, _, fun _ => rfl, jumpTable_eq⟩
  all_goals exact .inr ⟨by simp [IsTable], fun _ _ _ _ _ => rfl⟩

theorem builtin_handler (h : Registry.builtin.find? name = some handler) :
    (IsTable name ∧ ∃ entry, (∀ n, (entry n).length = 2) ∧ handler = addressTable name entry) ∨
      (¬ IsTable name ∧
        ∀ args context context' pass pass', handler args context pass = handler args context' pass') :=
  ofWaves_handler h

/-! ## Both passes -/

/-- The names of the table are words. -/
def HasWords (symbols : SymbolTable) : Prop :=
  ∀ name, symbols.address? name ≠ none → isWord name = true

section BothPasses
variable {context context' : Context} (hwords : HasWords context'.symbols)
  (hextends : context.symbols.Extends context'.symbols)
include hwords hextends

/-- The first pass takes every number and every word. -/
theorem resolves_first_iff {argument : String} :
    Resolves context .first argument ↔ number? argument ≠ none ∨ isWord argument = true := by
  rw [resolves_first]
  refine ⟨fun h => ?_, .inr⟩
  rcases h with hsymbol | h
  · obtain ⟨a, ha⟩ := Option.ne_none_iff_exists'.1 hsymbol
    have ha' := hextends argument a ha
    exact .inr (hwords argument (by rw [ha']; nofun))
  · exact h

/-- What the first pass refuses, the second refuses too. -/
theorem resolves_of_second {argument : String} (h : Resolves context' .second argument) :
    Resolves context .first argument := by
  rw [resolves_first_iff hwords hextends]
  rcases resolves_second.1 h with hsymbol | hnumber
  · exact .inr (hwords argument hsymbol)
  · exact .inl hnumber

/-- A table of the second pass is as long in the first. -/
theorem addressTable_size {entry : Int → List UInt8} (hentry : ∀ n, (entry n).length = 2) {args : List String}
    {output : Output} (h : addressTable name entry args context' .second = .ok output) :
    ∃ bs bs', addressTable name entry args context .first = .ok (.bytes bs) ∧ output = .bytes bs' ∧
      bs.length = bs'.length := by
  cases args with
  | nil => cases h
  | cons arg args =>
    rw [addressTable_cons] at h ⊢
    obtain ⟨values', hvalues', h⟩ := bind_eq_ok.1 h
    have hresolves := exists_mapM_eq_ok.1 ⟨values', hvalues'⟩
    obtain ⟨values, hvalues⟩ := exists_mapM_eq_ok.2 fun arg harg =>
      resolves_of_second hwords hextends (hresolves arg harg)
    refine ⟨_, _, bind_eq_ok.2 ⟨values, hvalues, rfl⟩, (Except.ok.inj h).symm, ?_⟩
    rw [length_entries hentry, length_entries hentry, length_mapM hvalues, length_mapM hvalues']

end BothPasses

end Builtin

end Macro

theorem hasWords_of_labels {symbols : SymbolTable} (h : ∀ y ∈ symbols.symbols, isLabel y.name = true) :
    Macro.Builtin.HasWords symbols := by
  intro name hname
  obtain ⟨a, ha⟩ := Option.ne_none_iff_exists'.1 hname
  obtain ⟨y, hy, -⟩ := Option.map_eq_some_iff.1 ha
  have hlabel := h y (List.mem_of_find?_eq_some hy)
  have heq : y.name = name := by simpa using List.find?_some hy
  have hword := (word_of_isLabel (heq ▸ hlabel)).1
  unfold Mos6502.isWord at hword
  unfold Macro.Builtin.isWord
  split at hword
  · cases hword
  · rename_i c cs htext
    rw [Bool.and_eq_true] at hword
    rw [htext, List.all_cons, Bool.and_eq_true]
    exact ⟨Scan.isWordChar_start hword.1, hword.2⟩

namespace Macro

/-- What a built-in macro answers in the second pass is bytes, and as many bytes as it answers in the first. -/
theorem builtin_sizes_agree (sine cosine : Float → Float) (context context' : Context)
    (hextends : context.symbols.Extends context'.symbols)
    (hlabels : ∀ y ∈ context'.symbols.symbols, checkLabel y.name = .ok ()) {name arguments : String} {output : Output}
    (h : (Registry.ofWaves sine cosine).expand name arguments context' .second = .ok output) :
    ∃ bs bs', (Registry.ofWaves sine cosine).expand name arguments context .first = .ok (.bytes bs) ∧
      output = .bytes bs' ∧ bs.length = bs'.length := by
  obtain ⟨handler, hfind, hanswer⟩ := expand_eq_ok.1 h
  rcases Builtin.ofWaves_handler hfind with ⟨-, entry, hentry, rfl⟩ | ⟨-, hsame⟩
  · have hwords := hasWords_of_labels fun y hy => by rw [isLabel, hlabels y hy]
    obtain ⟨bs, bs', hfirst, houtput, hlength⟩ := Builtin.addressTable_size hwords hextends hentry hanswer
    exact ⟨bs, bs', expand_eq_ok.2 ⟨_, hfind, hfirst⟩, houtput, hlength⟩
  · obtain ⟨bs, rfl⟩ := ofWaves_bytes hfind _ _ _ _ hanswer
    rw [hsame _ context' context .second .first] at hanswer
    exact ⟨bs, bs, expand_eq_ok.2 ⟨_, hfind, hanswer⟩, rfl, rfl⟩

/-- A jump table with a label that the first pass does not know yet, and three spellings of numbers. -/
theorem builtin_sizes_agree_late :
    let late : SymbolTable := ⟨[⟨"later", 0x0300, 7⟩], List.pairwise_singleton _ _⟩
    ∃ output bs bs',
      Registry.builtin.expand "jump_table" "later, $FF,%101 , -2" ⟨0, 0x0200, late⟩ .second = .ok output ∧
      Registry.builtin.expand "jump_table" "later, $FF,%101 , -2" ⟨0, 0x0200, .empty⟩ .first = .ok (.bytes bs) ∧
      output = .bytes bs' ∧ bs.length = bs'.length := by
  intro late
  have hextends : SymbolTable.empty.Extends late := by
    intro name a h
    cases h
  have hlabels : ∀ y ∈ late.symbols, checkLabel y.name = .ok () := by decide
  have h : Registry.builtin.expand "jump_table" "later, $FF,%101 , -2" ⟨0, 0x0200, late⟩ .second =
      .ok (.bytes [0xFF, 0x02, 0xFE, 0x00, 0x04, 0x00, 0xFD, 0xFF]) := by rfl
  obtain ⟨bs, bs', hfirst, houtput, hlength⟩ :=
    builtin_sizes_agree Float.sin Float.cos ⟨0, 0x0200, .empty⟩ ⟨0, 0x0200, late⟩ hextends hlabels h
  exact ⟨_, bs, bs', h, hfirst, houtput, hlength⟩

end Macro

end Mos6502
