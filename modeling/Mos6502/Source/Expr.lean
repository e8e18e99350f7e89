import Mos6502.Symbol.Table
import Mos6502.Text.Hex

/-!
# Operand expressions

Numbers, symbols and the current address, joined by plus and minus, with the
low or the high byte of a whole expression. Values are whole numbers; the place
that uses a value checks its range.

No value on the way is cut off at a width. What an expression is made of fits in
sixteen bits, so the values of one with up to 32768 terms fit in a signed number
of 32 bits, and only longer ones could tell the difference.
-/
namespace Mos6502

inductive Expr
  | number (n : Int)
  | symbol (name : String)
  /-- `*`, the address of the statement. -/
  | here
  | neg (e : Expr)
  | add (l r : Expr)
  | sub (l r : Expr)
  /-- `<`, bits 0 to 7. -/
  | low (e : Expr)
  /-- `>`, bits 8 to 15. -/
  | high (e : Expr)
deriving DecidableEq

namespace Expr

/-- A symbol without a value. -/
structure Undefined where
  name : String
deriving DecidableEq

def Undefined.message (u : Undefined) : String :=
  s!"undefined symbol '{u.name}'"

/-- The value under the symbols known so far. The first symbol without a value is reported. -/
def eval (symbols : SymbolTable) (address : UInt16) : Expr → Except Undefined Int
  | number n => .ok n
  | symbol name =>
    match symbols.address? name with
    | some a => .ok a.toNat
    | none => .error ⟨name⟩
  | here => .ok address.toNat
  | neg e => do
    let v ← e.eval symbols address
    .ok (-v)
  | add l r => do
    let v ← l.eval symbols address
    let w ← r.eval symbols address
    .ok (v + w)
  | sub l r => do
    let v ← l.eval symbols address
    let w ← r.eval symbols address
    .ok (v - w)
  | low e => do
    let v ← e.eval symbols address
    .ok (v % 256)
  | high e => do
    let v ← e.eval symbols address
    .ok (v / 256 % 256)

/-- No symbol is mentioned. -/
def isConstant : Expr → Bool
  | number _ | here => true
  | symbol _ => false
  | neg e | low e | high e => e.isConstant
  | add l r | sub l r => l.isConstant && r.isConstant

/-- The value is one byte of another value, whatever that is. -/
def isByteSelect : Expr → Bool
  | low _ | high _ => true
  | _ => false

/-- The expression as text, without spaces. -/
def render : Expr → String
  | number n => if 0 ≤ n then "$" ++ Hex.number n.toNat else toString n
  | symbol name => name
  | here => "*"
  | neg e => "-" ++ e.render
  | add l r => l.render ++ "+" ++ r.render
  | sub l r => l.render ++ "-" ++ r.render
  | low e => "<" ++ e.render
  | high e => ">" ++ e.render

end Expr

end Mos6502
