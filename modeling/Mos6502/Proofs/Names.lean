import Mos6502.Proofs.Equates
import Mos6502.Proofs.Grammar

/-!
# The names of symbols

Only a line with a label or an equate defines a name, and a line that can be
read has labels in both places. So every symbol of a layout is a label, whether
the assembly succeeds or not and whatever its macros expand to.

Main statement: `Assembly.isLabel_symbols`.
-/
namespace Mos6502

/-! ## Lines -/

/-- The names that the line defines are labels. -/
structure Line.Named (l : Line) : Prop where
  label {name : String} : l.label = some name → isLabel name = true
  equate {name : String} {value : Expr} : l.statement = some (.equate name value) → isLabel name = true

theorem Line.read_named {text : List Char} {number : Nat} {l : Line} (h : read text number = .ok l) : l.Named := by
  obtain ⟨tokens, -, htokens⟩ := read_eq_ok h
  obtain ⟨rest, hcontent, -⟩ := ofTokens_eq_ok htokens
  obtain ⟨-, -, ys, zs, -, hlabel, hstatement⟩ := gives_content number hcontent
  constructor
  · intro name hname
    rw [hname] at hlabel
    cases hlabel
    assumption
  · intro name value hequate
    rw [hequate] at hstatement
    cases hstatement with
    | some hwritten =>
      cases hwritten
      assumption

/-! ## The first pass -/

theorem SymbolTable.mem_define {t u : SymbolTable} {s y : Symbol} (h : t.define s = .ok u) (hy : y ∈ u.symbols) :
    y = s ∨ y ∈ t.symbols := by
  unfold define at h
  split at h
  · split at h
    · cases h
      exact .inr hy
    · cases h
  · cases h
    exact mem_place.1 hy

namespace Assembly

namespace Layout

/-- Every name that has or waits for a value is a label. -/
structure Named (s : Layout) : Prop where
  symbols : ∀ y ∈ s.symbols.symbols, isLabel y.name = true
  pending : ∀ p ∈ s.pending, isLabel p.name = true

theorem named_define {s : Layout} (h : s.Named) {name : String} (hname : isLabel name = true) (address : UInt16)
    (line column : Nat) : (s.define name address line column).Named := by
  unfold define
  split
  · rename_i hdefine
    refine ⟨fun y hy => ?_, h.pending⟩
    rcases SymbolTable.mem_define hdefine hy with rfl | hy
    · exact hname
    · exact h.symbols y hy
  · exact ⟨h.symbols, h.pending⟩

theorem named_assign {s : Layout} (h : s.Named) {name : String} (hname : isLabel name = true) (value : Int)
    (line column : Nat) : (s.assign name value line column).Named := by
  unfold assign
  split
  · exact named_define h hname _ _ _
  · exact ⟨h.symbols, h.pending⟩

theorem named_push {s : Layout} (h : s.Named) {p : Pending} (hp : isLabel p.name = true) :
    ({ s with pending := s.pending.push p } : Layout).Named := by
  refine ⟨h.symbols, fun q hq => ?_⟩
  rcases Array.mem_push.1 hq with hq | rfl
  · exact h.pending q hq
  · exact hp

theorem steps_named : StepsFor Line.Named fun s t => s.Named → t.Named where
  inner _ hread := Line.read_named hread
  refl _ h := h
  trans hst htu h := htu (hst h)
  report _ _ _ _ _ h := ⟨h.symbols, h.pending⟩
  advance _ _ h := ⟨h.symbols, h.pending⟩
  label s name l hl hlabel h := by
    unfold Layout.label
    split
    · exact named_define h (hl.label hlabel) _ _ _
    · exact ⟨h.symbols, h.pending⟩
  equate s name value l hl hstatement h := by
    unfold Layout.equate
    split
    · exact named_assign h (hl.equate hstatement) _ _ _
    · exact named_push h (hl.equate hstatement)
  setOrigin s value l hl h := by
    unfold Layout.setOrigin
    split
    · exact ⟨h.symbols, h.pending⟩
    · split <;> exact ⟨h.symbols, h.pending⟩

theorem named_pass (registry : Macro.Registry) (limit : Nat) {lines : List (Except LineError Line)}
    (hlines : ∀ l, .ok l ∈ lines → l.Named) : (pass registry limit lines).1.Named := by
  induction lines using List.reverseRecOn with
  | nil => exact ⟨by simp [pass, start, SymbolTable.empty], by simp [pass, start]⟩
  | append_singleton lines l ih =>
    have hbefore := ih fun l hl => hlines l (List.mem_append_left _ hl)
    rw [pass_concat]
    cases l with
    | ok l => exact steps_named.line registry limit limit _ (hlines l (by simp)) hbefore
    | error e => exact ⟨hbefore.symbols, hbefore.pending⟩

/-! ## Waiting equates -/

theorem named_attempts {ps : List Pending} (hps : ∀ p ∈ ps, isLabel p.name = true) {s : Layout} (h : s.Named) :
    (ps.foldl attempt s).Named := by
  induction ps generalizing s with
  | nil => exact h
  | cons p ps ih =>
    have hp := hps p List.mem_cons_self
    refine ih (fun q hq => hps q (List.mem_cons_of_mem p hq)) ?_
    unfold attempt
    split
    · exact named_assign h hp _ _ _
    · exact named_push h hp

theorem named_retry {s : Layout} (h : s.Named) : s.retry.Named := by
  rw [retry_eq]
  exact named_attempts (fun p hp => h.pending p (Array.mem_toList_iff.1 hp)) ⟨h.symbols, by simp⟩

theorem named_settle {s : Layout} (h : s.Named) : s.settle.Named := by
  fun_induction settle s with
  | case1 s next _ ih => exact ih (named_retry h)
  | case2 s next _ => exact named_retry h

theorem reportPending_symbols (s : Layout) : s.reportPending.symbols = s.symbols := by
  rw [reportPending_eq]
  refine (foldl_rel (fun _ => rfl) (fun h k => h.trans k) Layout.symbols reportStuck (fun t p => ?_) _ s).symm
  unfold reportStuck
  split <;> rfl

end Layout

/-- Every symbol of an assembly is a label. -/
theorem isLabel_symbols (registry : Macro.Registry) (limit : Nat) (source : String) :
    ∀ y ∈ (Layout.run registry limit (parsed source)).1.symbols.symbols, isLabel y.name = true := by
  have hlines : ∀ l, .ok l ∈ parsed source → l.Named := by
    intro l hl
    obtain ⟨⟨text, x⟩, hx, rfl⟩ := List.mem_map.1 hl
    obtain ⟨i, hi, heq⟩ := List.mem_mapIdx.1 hx
    exact Line.read_named (Prod.mk.inj heq).2
  rw [Layout.run_fst, Layout.reportPending_symbols]
  exact (Layout.named_settle (Layout.named_pass registry limit hlines)).symbols

end Assembly

end Mos6502
