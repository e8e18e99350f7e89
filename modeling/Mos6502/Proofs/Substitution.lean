import Mos6502.Proofs.ParallelEmission

/-!
# Equates are transparent

An equate in the first line gives its name a value before anything else is
assembled. From there on it makes no difference whether an expression has the
name or the value itself, whatever other symbols are still without a value.

Main statement: `equates_transparent`.
-/
namespace Mos6502

/-! ## Expressions -/

/-- The second expression is the first with some occurrences of the name replaced by the value. -/
inductive Expr.Replaced (name : String) (v : UInt16) : Expr → Expr → Prop
  | occurrence : Replaced name v (.symbol name) (.number v.toNat)
  | same (e : Expr) : Replaced name v e e
  | neg {e e' : Expr} : Replaced name v e e' → Replaced name v (.neg e) (.neg e')
  | add {l l' r r' : Expr} : Replaced name v l l' → Replaced name v r r' → Replaced name v (.add l r) (.add l' r')
  | sub {l l' r r' : Expr} : Replaced name v l l' → Replaced name v r r' → Replaced name v (.sub l r) (.sub l' r')
  | low {e e' : Expr} : Replaced name v e e' → Replaced name v (.low e) (.low e')
  | high {e e' : Expr} : Replaced name v e e' → Replaced name v (.high e) (.high e')

theorem Expr.Replaced.eval {name : String} {v : UInt16} {e e' : Expr} (h : e.Replaced name v e') {t : SymbolTable}
    (ht : t.address? name = some v) (a : UInt16) : e'.eval t a = e.eval t a := by
  induction h with
  | occurrence => simp only [Expr.eval, ht]
  | same e => rfl
  | neg _ ih | low _ ih | high _ ih => simp only [Expr.eval, ih]
  | add _ _ ihl ihr | sub _ _ ihl ihr => simp only [Expr.eval, ihl, ihr]

theorem Expr.Replaced.agrees {name : String} {v : UInt16} {e e' : Expr} (h : e.Replaced name v e')
    {known : SymbolTable} (hknown : known.address? name = some v) : e.Agrees known e' := by
  refine ⟨?_, fun t a ht => h.eval (ht name v hknown) a⟩
  cases h <;> rfl

namespace Assembly

/-! ## The first line -/

/-- After an equate that is no error, its name has its value. -/
theorem Layout.line_equate_number {registry : Macro.Registry} {limit levels : Nat} {s : Layout} {l : Line}
    {name : String} {v : UInt16} (hequate : l.statement = some (.equate name (.number v.toNat)))
    (he : (line registry limit levels s l).1.errors = #[]) :
    (line registry limit levels s l).1.symbols.address? name = some v := by
  rw [line_eq] at he ⊢
  simp only [hequate, equate, Expr.eval] at he ⊢
  have hvalue : (Expr.number v.toNat).eval (s.labelled l).symbols (s.labelled l).address = .ok (v.toNat : Int) := rfl
  obtain ⟨a, ha, heval⟩ := assign_holds (q := ⟨name, .number v.toNat, (s.labelled l).address⟩) hvalue he
  have hav : (v.toNat : Int) = a.toNat := Except.ok.inj heval
  rw [ha, UInt16.toNat_inj.1 (Int.ofNat.inj hav)]

section Lines
variable {registry : Macro.Registry} {limit : Nat} {ls ls' : List Emission.SourceLine} {l : Line}
  {rest rest' : List (Except LineError Line)}

/-- The first pass after the first line. -/
def afterFirst (registry : Macro.Registry) (limit : Nat) (l : Line) : Layout :=
  (Layout.start.line registry limit limit l).1

theorem Clean.afterFirst_errors (h : Clean registry limit ls) (hls : ls.map (·.2) = .ok l :: rest) :
    (afterFirst registry limit l).errors = #[] := by
  have he := h.followed_errors
  rw [followed, hls] at he
  exact (Layout.steps_extends.follow registry limit (afterFirst registry limit l) rest).noErrors he

/-- Two sources with the same first line are assembled alike if the other lines match under its symbols. -/
theorem Clean.same_first (h : Clean registry limit ls) (hls : ls.map (·.2) = .ok l :: rest)
    (hls' : ls'.map (·.2) = .ok l :: rest')
    (hrest : List.Forall₂ (Line.ReadsMatch (afterFirst registry limit l).symbols (· = ·)) rest rest') :
    Clean registry limit ls' ∧
      (written registry limit ls).Matches (· = ·) (fun _ _ => True) (written registry limit ls') := by
  have he := h.followed_errors
  rw [followed, hls] at he
  have hfollow := Layout.follow_matches registry.alike_self limit limit le_rfl hrest
    (Layout.matches_self (h.afterFirst_errors hls)) he
  have hlines : List.Forall₂ (Line.ReadsMatch (afterFirst registry limit l).symbols (· = ·))
      (ls.map (·.2)) (ls'.map (·.2)) := by
    rw [hls, hls']
    exact .cons (Line.readsRelated_self .refl _) hrest
  rw [List.forall₂_map_left_iff, List.forall₂_map_right_iff] at hlines
  refine h.alike registry.alike_self le_rfl (hlines.imp fun _ _ hx => ⟨trivial, hx⟩) ?_
  rw [followed, followed, hls, hls']
  exact ⟨hfollow.1, congrArg (List.cons _) hfollow.2⟩

end Lines

end Assembly

open Assembly in
/-- If the first line is an equate of a name and a number, the name can be replaced by the number in any
expressions of the other lines: the source still succeeds or fails, and a success has the same image, symbols and
warnings. -/
theorem equates_transparent (a : Assembler) {source source' name : String} {v : UInt16} {l : Line}
    {rest rest' : List (Except LineError Line)} (hequate : l.statement = some (.equate name (.number v.toNat)))
    (hsource : parsed source = .ok l :: rest) (hsource' : parsed source' = .ok l :: rest')
    (hrest : List.Forall₂ (Line.ReadsRelated (Expr.Replaced name v) (· = ·)) rest rest') :
    ((∃ out, (a.assemble source).1 = .ok out) ↔ ∃ out', (a.assemble source').1 = .ok out') ∧
      ∀ out out', (a.assemble source).1 = .ok out → (a.assemble source').1 = .ok out' →
        out'.image = out.image ∧ out'.symbols = out.symbols ∧ out'.warnings = out.warnings := by
  -- the name has its value under the symbols of the first line
  have hagrees (hknown : (afterFirst a.registry a.settings.maxDepth l).symbols.address? name = some v) :
      List.Forall₂ (Line.ReadsMatch (afterFirst a.registry a.settings.maxDepth l).symbols (· = ·)) rest' rest :=
    (hrest.imp fun _ _ hx => hx.swap (fun _ _ h => (h.agrees hknown).symm) fun _ _ => Eq.symm).flip
  refine assemble_alike (fun h => ?_) (fun h => ?_)
  · have hback := hagrees (Layout.line_equate_number hequate (h.afterFirst_errors hsource))
    have hforth := (hback.imp fun _ _ hx => hx.swap (fun _ _ => Expr.Agrees.symm) fun _ _ => Eq.symm).flip
    obtain ⟨hacc, hout⟩ := h.same_first hsource hsource' hforth
    exact ⟨hacc, hout.image, hout.symbols.eq.symm, hout.warnings_eq.symm⟩
  · have hback := hagrees (Layout.line_equate_number hequate (h.afterFirst_errors hsource'))
    exact (h.same_first hsource' hsource hback).1

open Assembly in
/-- Two of three occurrences are replaced, one of them next to a label that is still to come. -/
theorem equates_transparent_late :
    let a : Assembler := { settings := {}, registry := .builtin }
    let source := "zp = $10\nORG zp\nlate = end-zp\nLDA late+zp\nend:"
    let source' := "zp = $10\nORG $10\nlate = end-$10\nLDA late+zp\nend:"
    ∃ out out', (a.assemble source).1 = .ok out ∧ (a.assemble source').1 = .ok out' ∧ out.warnings.length = 1 ∧
      out'.image = out.image ∧ out'.symbols = out.symbols ∧ out'.warnings = out.warnings := by
  intro a source source'
  have hok : (a.assemble source).1 = .ok (run a.settings a.registry source).output :=
    (assemble_fst source a).trans (toExcept_eq_ok (by decide +kernel))
  let l : Line := ⟨1, none, some (.equate "zp" (.number 0x10)), 0⟩
  let rest : List (Except LineError Line) :=
    [.ok ⟨2, none, some (.origin (.symbol "zp")), 0⟩,
      .ok ⟨3, none, some (.equate "late" (.sub (.symbol "end") (.symbol "zp"))), 0⟩,
      .ok ⟨4, none, some (.instruction "LDA" (.direct none false) (some (.add (.symbol "late") (.symbol "zp")))), 0⟩,
      .ok ⟨5, some "end", none, 4⟩]
  let rest' : List (Except LineError Line) :=
    [.ok ⟨2, none, some (.origin (.number 0x10)), 0⟩,
      .ok ⟨3, none, some (.equate "late" (.sub (.symbol "end") (.number 0x10))), 0⟩,
      .ok ⟨4, none, some (.instruction "LDA" (.direct none false) (some (.add (.symbol "late") (.symbol "zp")))), 0⟩,
      .ok ⟨5, some "end", none, 4⟩]
  have hsource : parsed source = .ok l :: rest := by decide +kernel
  have hsource' : parsed source' = .ok l :: rest' := by decide +kernel
  have hrest : List.Forall₂ (Line.ReadsRelated (Expr.Replaced "zp" 0x10) (· = ·)) rest rest' := by
    refine .cons (.ok ⟨rfl, rfl, ?_⟩) (.cons (.ok ⟨rfl, rfl, ?_⟩) (.cons ?_ (.cons ?_ .nil)))
    · exact .some (.origin .occurrence)
    · exact .some (.equate "late" (.sub (.same _) .occurrence))
    · exact .ok (Line.related_self .same rfl _)
    · exact .ok (Line.related_self .same rfl _)
  obtain ⟨hiff, hsame⟩ := equates_transparent a rfl hsource hsource' hrest
  obtain ⟨out', hok'⟩ := hiff.1 ⟨_, hok⟩
  exact ⟨_, out', hok, hok', by decide +kernel, hsame _ _ hok hok'⟩

end Mos6502
