/-!
# Rows

A list cut into rows of one width. Only the last row may be shorter.
-/
namespace Mos6502.Rows

variable {α : Type}

/-- Rows of `n + 1` elements, after those already cut, which stand last first. -/
def splitFrom (n : Nat) (rows : List (List α)) (xs : List α) : List (List α) :=
  match xs with
  | [] => rows.reverse
  | x :: xs => splitFrom n ((x :: xs.take n) :: rows) (xs.drop n)
termination_by xs.length
decreasing_by simp only [List.length_drop, List.length_cons]; omega

/-- Rows of `width` elements, at least one to a row. -/
def split (width : Nat) (xs : List α) : List (List α) :=
  splitFrom (width - 1) [] xs

end Mos6502.Rows
