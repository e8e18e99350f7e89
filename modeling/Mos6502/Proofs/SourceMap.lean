import Mathlib
import Mos6502.Proofs.BuiltinMacros
import Mos6502.Proofs.Passes

/-!
# The listing leads back to the source

With macros that answer with bytes, a line of an accepted source writes its
bytes in a row from its start on, into free cells. So the lines of the listing
share no cell and together give exactly the cells of the image.

Main statement: `listing_maps_image`.
-/
namespace Mos6502

/-! ## Macros without source text -/

namespace Macro

/-- The bytes of an answer; a refusal has none. -/
def answerSize {ε : Type} : Except ε Output → Nat
  | .ok (.bytes bs) => bs.length
  | _ => 0

theorem expand_builtin (name arguments : String) (context : Context) (pass : Pass) (text : String) :
    Registry.builtin.expand name arguments context pass ≠ .ok (.source text) := by
  intro he
  obtain ⟨handler, hfind, hanswer⟩ := expand_eq_ok.1 he
  obtain ⟨bs, hbs⟩ := ofWaves_bytes hfind _ _ _ _ hanswer
  cases hbs

end Macro

/-! ## What a line writes -/

namespace Assembly.Emission

variable {env : Setting}

/-- The step wrote the bytes in a row from the cursor on, into free cells. -/
def Writes (s : Emission) (r : Emission × List UInt8) : Prop :=
  s.image.Free s.cursor r.2.length ∧ r.1.image = s.image.puts s.cursor r.2

theorem writes_nil {s t : Emission} (h : t.image = s.image) : s.Writes (t, []) :=
  ⟨fun _ hk => absurd hk (Nat.not_lt_zero _), h⟩

theorem write_writes (hf : env.failed = []) {l : Line} {s t : Emission} {bs : List UInt8} (hc : t.cursor = s.cursor)
    (hi : t.image = s.image) (he : (t.write env l bs).1.errors = #[]) : s.Writes (t.write env l bs) := by
  have hfree := free_of_bytes hf he
  rw [Writes, write, bytes_of_free hfree, ← hc, ← hi]
  exact ⟨hfree, rfl⟩

theorem chosen_writes (hf : env.failed = []) {l : Line} {s t : Emission} {c : Choice} {shape : Shape}
    {v : Option Int} {r : Emission × List UInt8} (h : t.chosen env l c shape v = r) (hc : t.cursor = s.cursor)
    (hi : t.image = s.image) (he : r.1.errors = #[]) : s.Writes r := by
  unfold chosen at h
  split at h
  · subst h
    exact absurd he (report_ne hf _ _ _ _)
  · subst h
    exact write_writes hf hc hi he

/-- A value that is missing was reported. -/
theorem value_eq_none (hf : env.failed = []) {l : Line} {s t : Emission} {e : Expr}
    (h : s.value env l e = (t, none)) : t.errors ≠ #[] := by
  unfold value at h
  split at h
  · cases h
  · cases h
    exact report_ne hf _ _ _ _

theorem instruction_writes (hf : env.failed = []) {l : Line} {plan : Plan} {s : Emission} {mnemonic : String}
    {shape : Shape} {operand : Option Expr} {r : Emission × List UInt8}
    (h : s.instruction env l plan mnemonic shape operand = r) (he : r.1.errors = #[]) : s.Writes r := by
  unfold instruction at h
  split at h
  · subst h
    exact writes_nil rfl
  · split at h
    · subst h
      exact absurd he (report_ne hf _ _ _ _)
    · cases operand with
      | none => exact chosen_writes hf h rfl rfl he
      | some e =>
        have hv := value_reports env l s e
        dsimp only at h
        split at h
        · rename_i heq
          subst h
          exact (value_eq_none hf heq he).elim
        · rename_i heq
          rw [heq] at hv
          exact chosen_writes hf h hv.cursor hv.image he

theorem expansion_writes (hf : env.failed = [])
    (hp : ∀ name arguments context pass text, env.registry.expand name arguments context pass ≠ .ok (.source text))
    {levels : Nat} {s : Emission} {plan : Plan} {l : Line} {name arguments : String} {r : Emission × List UInt8}
    (h : s.expansion env levels plan l name arguments = r) (he : r.1.errors = #[]) : s.Writes r := by
  unfold expansion at h
  split at h
  · subst h
    exact absurd he (report_ne hf _ _ _ _)
  · subst h
    exact writes_nil rfl
  · subst h
    exact write_writes hf rfl rfl he
  · rename_i heq
    exact absurd heq (hp _ _ _ _ _)

/-- Without source text from macros, a line that is taken without an error writes its bytes from its start on. -/
theorem line_writes (hf : env.failed = [])
    (hp : ∀ name arguments context pass text, env.registry.expand name arguments context pass ≠ .ok (.source text))
    {levels : Nat} {s : Emission} {plan : Plan} {l : Line} (he : (s.line env levels plan l).1.errors = #[]) :
    s.Writes (s.line env levels plan l) := by
  -- the label moves nothing, so it is enough to look at the statement
  have hl := labelled_reports env s l
  have hw : (s.labelled env l).Writes (s.line env levels plan l) := by
    rw [line_eq] at he ⊢
    dsimp only at he ⊢
    cases hst : l.statement with
    | none => exact writes_nil rfl
    | some st =>
      simp only [hst] at he
      cases st with
      | origin e => exact writes_nil (setOrigin_image env l _ e)
      | equate name e => exact writes_nil rfl
      | bytes items =>
        have hr := collect_reports env _ (item_reports env l) (s.labelled env l) items
        exact write_writes hf hr.cursor hr.image he
      | words items =>
        have hr := collect_reports env _ (word_reports env l) (s.labelled env l) items
        exact write_writes hf hr.cursor hr.image he
      | instruction mnemonic shape operand => exact instruction_writes hf rfl he
      | invocation name arguments =>
        have hr := checkSize_reports env l plan name (s.labelled env l).cursor
          ((s.labelled env l).expansion env levels plan l name arguments).1
        obtain ⟨hfree, himage⟩ := expansion_writes hf hp rfl (hr.noErrors he)
        exact ⟨hfree, hr.image.trans himage⟩
  unfold Writes at hw ⊢
  rwa [hl.cursor, hl.image] at hw

end Assembly.Emission

/-! ## Listings that map an image -/

namespace ListingLine

/-- The line gave the byte at the address. -/
def Gives (l : ListingLine) (a : UInt16) (b : UInt8) : Prop :=
  ∃ start, l.address = some start ∧ start.toNat ≤ a.toNat ∧ l.bytes[a.toNat - start.toNat]? = some b

theorem covers_iff {l : ListingLine} {a : UInt16} :
    l.covers a = true ↔ ∃ start, l.address = some start ∧ start.toNat ≤ a.toNat ∧
      a.toNat < start.toNat + l.bytes.length := by
  unfold covers
  cases l.address with
  | none => simp
  | some start => simp [UInt16.le_iff_toNat_le]

theorem covers_iff_gives {l : ListingLine} {a : UInt16} : l.covers a = true ↔ ∃ b, l.Gives a b := by
  rw [covers_iff]
  constructor
  · rintro ⟨start, hs, hle, hlt⟩
    have hlt : a.toNat - start.toNat < l.bytes.length := by omega
    exact ⟨_, start, hs, hle, List.getElem?_eq_getElem hlt⟩
  · rintro ⟨b, start, hs, hle, hb⟩
    have := (List.getElem?_eq_some_iff.1 hb).1
    exact ⟨start, hs, hle, by omega⟩

/-- The bytes of a line that was written into free cells stand from the cursor on. -/
theorem gives_iff {image : Image} {n : Nat} {bs : List UInt8} (h : image.Free n bs.length) {number : Nat}
    {text : String} {a : UInt16} {b : UInt8} :
    Gives ⟨number, Assembly.cursorAddress? n, bs, text⟩ a b ↔ n ≤ a.toNat ∧ bs[a.toNat - n]? = some b := by
  rcases Nat.eq_zero_or_pos bs.length with h0 | h0
  · obtain rfl := List.length_eq_zero_iff.1 h0
    simp [Gives]
  · have hroom := h.bound h0
    have hn : (UInt16.ofNat n).toNat = n := Image.toNat_ofNat (by omega)
    have haddress : Assembly.cursorAddress? n = some (UInt16.ofNat n) := if_pos (by omega)
    simp [Gives, haddress, hn]

end ListingLine

/-- The lines give exactly the cells of the image, and no cell twice. -/
structure Maps (lines : List ListingLine) (image : Image) : Prop where
  byte (a : UInt16) (b : UInt8) : image.get? a = some b ↔ ∃ l ∈ lines, l.Gives a b
  apart : lines.Pairwise fun l m => ∀ a, l.covers a → ¬ m.covers a
  count : (lines.map (·.bytes.length)).sum = image.count

namespace Maps

theorem empty : Maps [] .empty :=
  ⟨by simp, .nil, by simp⟩

/-- A hole is in no line. -/
theorem not_covers {lines : List ListingLine} {image : Image} (h : Maps lines image) {a : UInt16}
    (ha : image.get? a = none) {l : ListingLine} (hl : l ∈ lines) : ¬ l.covers a := by
  intro hc
  obtain ⟨b, hb⟩ := ListingLine.covers_iff_gives.1 hc
  have := (h.byte a b).2 ⟨l, hl, hb⟩
  rw [ha] at this
  cases this

/-- Bytes written into free cells are mapped by one more line. -/
theorem concat {lines : List ListingLine} {image : Image} (h : Maps lines image) {n : Nat} {bs : List UInt8}
    (hfree : image.Free n bs.length) (number : Nat) (text : String) :
    Maps (lines ++ [⟨number, Assembly.cursorAddress? n, bs, text⟩]) (image.puts n bs) := by
  -- the cells of the new line were holes, so no line before it has them
  have hole : ∀ a b, ListingLine.Gives ⟨number, Assembly.cursorAddress? n, bs, text⟩ a b → image.get? a = none := by
    intro a b hg
    obtain ⟨hle, hb⟩ := (ListingLine.gives_iff hfree).1 hg
    have hlt := (List.getElem?_eq_some_iff.1 hb).1
    have hnone := (hfree _ hlt).2
    rwa [Nat.add_sub_cancel' hle, UInt16.ofNat_toNat] at hnone
  refine ⟨fun a b => ?_, ?_, ?_⟩
  · simp only [List.mem_append, List.mem_singleton, or_and_right, exists_or, exists_eq_left]
    rw [Image.get?_puts hfree, ← h.byte a b, ListingLine.gives_iff hfree]
    split
    · rename_i hin
      have hlt : a.toNat - n < bs.length := by omega
      have hg := hole a (bs[a.toNat - n]) ((ListingLine.gives_iff hfree).2 ⟨hin.1, List.getElem?_eq_getElem hlt⟩)
      simp [hg, hin.1]
    · rename_i hout
      constructor
      · exact .inl
      · rintro (hb | ⟨hle, hb⟩)
        · exact hb
        · have := (List.getElem?_eq_some_iff.1 hb).1
          omega
  · refine List.pairwise_append.2 ⟨h.apart, List.pairwise_singleton _ _, ?_⟩
    intro l hl m hm a hc hc'
    obtain rfl := List.mem_singleton.1 hm
    obtain ⟨b, hb⟩ := ListingLine.covers_iff_gives.1 hc'
    exact h.not_covers (hole a b hb) hl hc
  · rw [List.map_append, List.sum_append, h.count, Image.count_puts hfree]
    simp

/-- The line of a covered address is found, and it is the only one. -/
theorem lineAt?_eq {listing : Listing} {image : Image} (h : Maps listing.lines image) {k : Nat} {l : ListingLine}
    (hl : listing.lines[k]? = some l) {a : UInt16} (hc : l.covers a) :
    listing.lineAt? a = some l ∧ ∀ j m, listing.lines[j]? = some m → m.covers a → j = k := by
  have only : ∀ j m, listing.lines[j]? = some m → m.covers a → j = k := by
    intro j m hm hcm
    obtain ⟨hk, rfl⟩ := List.getElem?_eq_some_iff.1 hl
    obtain ⟨hj, rfl⟩ := List.getElem?_eq_some_iff.1 hm
    have hapart := List.pairwise_iff_getElem.1 h.apart
    rcases Nat.lt_trichotomy j k with hlt | heq | hgt
    · exact absurd hc (hapart j k hj hk hlt a hcm)
    · exact heq
    · exact absurd hcm (hapart k j hk hj hgt a hc)
  refine ⟨?_, only⟩
  cases hf : listing.lineAt? a with
  | none =>
    have := List.find?_eq_none.1 hf l (List.mem_of_getElem? hl)
    exact absurd hc this
  | some m =>
    obtain ⟨j, hj⟩ := List.getElem?_of_mem (List.mem_of_find?_eq_some hf)
    have hm : m.covers a = true := by simpa using List.find?_some hf
    have hjk := only j m hj hm
    rw [hjk, hl] at hj
    exact hj.symm

end Maps

namespace Assembly

theorem Emission.run_maps {env : Setting} (hf : env.failed = [])
    (hp : ∀ name arguments context pass text, env.registry.expand name arguments context pass ≠ .ok (.source text))
    {lines : List (SourceLine × Plan)} (he : (run env lines).1.errors = #[]) :
    Maps (run env lines).2.lines (run env lines).1.image := by
  induction lines using List.reverseRecOn with
  | nil => exact .empty
  | append_singleton lines x ih =>
    obtain ⟨⟨text, l⟩, plan⟩ := x
    have ih := ih (noErrors_before ((steps_grows env).run lines _) he)
    cases l with
    | error e =>
      rw [run_concat_error] at he
      exact absurd he (report_ne hf _ _ _ _)
    | ok l =>
      rw [run_concat] at he ⊢
      obtain ⟨hfree, himage⟩ := line_writes hf hp he
      rw [himage]
      exact ih.concat hfree _ _

/-- The listing of an accepted source is a map of its image: an address has a byte if and only if exactly one
line covers it, that line has the byte and is the one found for the address, no line is found for a hole, and
the lines have as many bytes as the image. -/
theorem listing_maps_image (source : String) (out : Output) (h : assemble source = .ok out) :
    (∀ a : UInt16, (out.image.get? a).isSome ↔
      ∃! k : Nat, ∃ (l : ListingLine) (start : UInt16), out.listing.lines[k]? = some l ∧
        l.address = some start ∧ start.toNat ≤ a.toNat ∧ a.toNat < start.toNat + l.bytes.length) ∧
    (∀ l ∈ out.listing.lines, ∀ start a : UInt16, l.address = some start → start.toNat ≤ a.toNat →
      a.toNat < start.toNat + l.bytes.length →
      out.image.get? a = l.bytes[a.toNat - start.toNat]? ∧ out.listing.lineAt? a = some l) ∧
    (∀ a, out.image.get? a = none → out.listing.lineAt? a = none) ∧
    (out.listing.lines.map (·.bytes.length)).sum = out.image.count := by
  rw [assemble] at h
  obtain ⟨hacc, himage, -, hlisting⟩ := accepted_of_ok h
  have hmaps : Maps out.listing.lines out.image := by
    rw [himage, hlisting]
    exact Emission.run_maps hacc.failed Macro.expand_builtin hacc.second
  refine ⟨fun a => ?_, ?_, ?_, hmaps.count⟩
  · constructor
    · intro ha
      obtain ⟨b, hb⟩ := Option.isSome_iff_exists.1 ha
      obtain ⟨l, hl, hg⟩ := (hmaps.byte a b).1 hb
      obtain ⟨k, hk⟩ := List.getElem?_of_mem hl
      have hc := ListingLine.covers_iff_gives.2 ⟨b, hg⟩
      obtain ⟨start, hs⟩ := ListingLine.covers_iff.1 hc
      refine ⟨k, ⟨l, start, hk, hs⟩, ?_⟩
      rintro j ⟨m, start', hj, hm⟩
      exact (hmaps.lineAt?_eq hk hc).2 j m hj (ListingLine.covers_iff.2 ⟨start', hm⟩)
    · rintro ⟨k, ⟨l, start, hk, hs⟩, -⟩
      obtain ⟨b, hb⟩ := ListingLine.covers_iff_gives.1 (ListingLine.covers_iff.2 ⟨start, hs⟩)
      rw [(hmaps.byte a b).2 ⟨l, List.mem_of_getElem? hk, hb⟩]
      rfl
  · intro l hl start a hs hle hlt
    obtain ⟨k, hk⟩ := List.getElem?_of_mem hl
    have hlt' : a.toNat - start.toNat < l.bytes.length := by omega
    refine ⟨?_, (hmaps.lineAt?_eq hk (ListingLine.covers_iff.2 ⟨start, hs, hle, hlt⟩)).1⟩
    rw [List.getElem?_eq_getElem hlt']
    exact (hmaps.byte a _).2 ⟨l, hl, start, hs, hle, List.getElem?_eq_getElem hlt'⟩
  · intro a ha
    exact List.find?_eq_none.2 fun l hl => hmaps.not_covers ha hl

/-- Two origins, a string, a macro and an instruction. -/
theorem listing_maps_image_mixed :
    ∃ out, assemble "ORG $20\nDB \"ab\",1\nORG 2\n@repeat_byte 7,2\nLDA $1234" = .ok out ∧
      out.listing.lineAt? 0x21 = some ⟨2, some 0x20, [97, 98, 1], "DB \"ab\",1"⟩ ∧
      (out.listing.lines.map (·.bytes.length)).sum = out.image.count := by
  have hok : assemble "ORG $20\nDB \"ab\",1\nORG 2\n@repeat_byte 7,2\nLDA $1234" =
      .ok (run {} .builtin "ORG $20\nDB \"ab\",1\nORG 2\n@repeat_byte 7,2\nLDA $1234").output :=
    toExcept_eq_ok (by decide +kernel)
  exact ⟨_, hok, by decide +kernel, (listing_maps_image _ _ hok).2.2.2⟩

end Assembly

end Mos6502
