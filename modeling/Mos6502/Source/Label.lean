import Mos6502.Text.Upper

/-!
# Labels

A label is a word of at most 32 bytes that starts with a letter or underscore
and goes on with letters, digits and underscores. The names of the registers
are no labels.
-/
namespace Mos6502

/-- Why a name is no label. -/
inductive LabelError
  | empty
  | tooLong (name : String)
  | badStart (c : Char)
  | badCharacter (c : Char)
  | register (name : String)
deriving DecidableEq

def LabelError.message : LabelError → String
  | empty => "label name cannot be empty"
  | tooLong name => s!"label name too long (max 32 characters): {name}"
  | badStart c => s!"label must start with a letter or underscore, not '{c}'"
  | badCharacter c =>
    s!"label contains invalid character '{c}' (only letters, digits, and underscores allowed)"
  | register name => s!"'{name}' is a register name"

/-- The names that stand for registers. -/
def isRegister (name : String) : Bool :=
  ["A", "X", "Y"].contains (Text.upper name)

/-- Answers with the first rule that the name breaks. -/
def checkLabel (name : String) : Except LabelError Unit :=
  match name.toList with
  | [] => .error .empty
  | c :: cs =>
    if name.utf8ByteSize > 32 then .error (.tooLong name)
    else if !c.isAlpha && c ≠ '_' then .error (.badStart c)
    else match (c :: cs).find? fun d => !d.isAlphanum && d ≠ '_' with
      | some d => .error (.badCharacter d)
      | none => if isRegister name then .error (.register name) else .ok ()

/-- The name follows every rule for labels. -/
def isLabel (name : String) : Bool :=
  match checkLabel name with
  | .ok _ => true
  | .error _ => false

end Mos6502
