import Mos6502.Source.Expr
import Mos6502.Source.Stream

/-!
# Reading expressions

An expression is a sum of terms, and a leading `<` or `>` takes one byte of the
whole sum. A term is a number, a symbol or `*`, with any number of minus signs
before it. Spaces may stand between any two tokens. Where a term is missing,
the fault is the rest of the tokens from that place on.

Main statement: reading an expression takes at least one token (`read_lt`).
-/
namespace Mos6502.Expr

/-- The value of a token that is a term by itself. -/
def ofLexeme? : Lexeme → Option Expr
  | .hex n | .decimal n | .binary n => some (number n.toNat)
  | .character b => some (number b.toNat)
  | .identifier name => some (symbol name)
  | .star => some here
  | _ => none

def readTerm : List Token → Except (List Token) (Expr × List Token)
  | [] => .error []
  | t :: ts =>
    match t.lexeme with
    | .blank => readTerm ts
    | .minus => (readTerm ts).map fun (e, rest) => (neg e, rest)
    | lexeme =>
      match ofLexeme? lexeme with
      | some e => .ok (e, ts)
      | none => .error (t :: ts)

theorem readTerm_lt {ts rest : List Token} {e : Expr} (h : readTerm ts = .ok (e, rest)) :
    rest.length < ts.length := by
  induction ts generalizing e with
  | nil => simp [readTerm] at h
  | cons t ts ih =>
    unfold readTerm at h
    split at h
    · exact Nat.lt_succ_of_lt (ih h)
    · cases hr : readTerm ts with
      | error => simp [hr, Except.map] at h
      | ok r =>
        obtain ⟨e', rest'⟩ := r
        simp [hr, Except.map] at h
        exact Nat.lt_succ_of_lt (ih (e := e') (by rw [hr, h.2]))
    · split at h
      · cases h; simp
      · cases h

/-- The expression that a sign joins from its two sides. -/
def join? : Lexeme → Option (Expr → Expr → Expr)
  | .plus => some add
  | .minus => some sub
  | _ => none

/-- The terms after the first one, joined from the left. Spaces after the last term are passed. -/
def readSum (left : Expr) (ts : List Token) : Except (List Token) (Expr × List Token) :=
  match _hts : ts.dropWhile (·.lexeme = .blank) with
  | [] => .ok (left, [])
  | t :: ts' =>
    match join? t.lexeme with
    | none => .ok (left, t :: ts')
    | some join =>
      match _hr : readTerm ts' with
      | .error rest => .error rest
      | .ok (right, rest) => readSum (join left right) rest
termination_by ts.length
decreasing_by
  have h₁ := readTerm_lt _hr
  have h₂ := (List.dropWhile_suffix (l := ts) fun t => decide (t.lexeme = .blank)).length_le
  rw [_hts] at h₂
  simp only [List.length_cons] at h₂
  omega

theorem readSum_le {left e : Expr} {ts rest : List Token} (h : readSum left ts = .ok (e, rest)) :
    rest.length ≤ ts.length := by
  fun_induction readSum left ts with
  | case1 => cases h; simp
  | case2 left ts t ts' hts =>
    cases h
    rw [← hts]
    exact (List.dropWhile_suffix _).length_le
  | case3 => cases h
  | case4 left ts t ts' hts join _ right rest' hr ih =>
    have h₁ := readTerm_lt hr
    have h₂ := (List.dropWhile_suffix (l := ts) fun t => decide (t.lexeme = .blank)).length_le
    rw [hts] at h₂
    simp only [List.length_cons] at h₂
    have := ih h
    omega

/-- The byte that a leading sign selects. -/
def select? : Lexeme → Option (Expr → Expr)
  | .less => some low
  | .greater => some high
  | _ => none

/-- A sum without a selecting sign. -/
def readPlain (ts : List Token) : Except (List Token) (Expr × List Token) := do
  let (first, rest) ← readTerm ts
  readSum first rest

/-- An expression and the tokens after it. -/
def read (ts : List Token) : Except (List Token) (Expr × List Token) :=
  let ts := ts.dropWhile (·.lexeme = .blank)
  match ts with
  | [] => .error []
  | t :: ts' =>
    match select? t.lexeme with
    | some select => (readPlain ts').map fun (e, rest) => (select e, rest)
    | none => readPlain (t :: ts')

theorem readPlain_lt {ts rest : List Token} {e : Expr} (h : readPlain ts = .ok (e, rest)) :
    rest.length < ts.length := by
  unfold readPlain at h
  cases ht : readTerm ts with
  | error => simp [ht, bind, Except.bind] at h
  | ok r =>
    obtain ⟨first, rest'⟩ := r
    simp only [ht, bind, Except.bind] at h
    exact Nat.lt_of_le_of_lt (readSum_le h) (readTerm_lt ht)

theorem read_lt {ts rest : List Token} {e : Expr} (h : read ts = .ok (e, rest)) :
    rest.length < ts.length := by
  have hd := (List.dropWhile_suffix (l := ts) fun t => decide (t.lexeme = .blank)).length_le
  unfold read at h
  dsimp only at h
  split at h
  · cases h
  · rename_i t ts' hts
    rw [hts, List.length_cons] at hd
    split at h
    · cases hp : readPlain ts' with
      | error => simp [hp, Except.map] at h
      | ok r =>
        obtain ⟨e', rest'⟩ := r
        simp only [hp, Except.map, Except.ok.injEq, Prod.mk.injEq] at h
        have := readPlain_lt hp
        rw [← h.2]
        omega
    · have := readPlain_lt h
      simp only [List.length_cons] at this
      omega

end Mos6502.Expr
