/-!
# File names

The last part of a path and the extension after its last dot. A dot at the start
of the name starts no extension.
-/
namespace Mos6502.Path

/-- The part after the last slash. -/
def fileName (path : List Char) : List Char :=
  (path.reverse.takeWhile (· ≠ '/')).reverse

/-- The file name before and after its last dot, if that dot starts an extension. -/
def splitExtension? (name : List Char) : Option (List Char × List Char) :=
  let after := name.reverse.takeWhile (· ≠ '.')
  match name.reverse.dropWhile (· ≠ '.') with
  | _ :: before => if before.isEmpty || name = ['.', '.'] then none else some (before.reverse, after.reverse)
  | [] => none

/-- The extension of a path. -/
def extension? (path : String) : Option String :=
  (splitExtension? (fileName path.toList)).map fun (_, after) => String.ofList after

/-- The path with another extension in place of its own. A name of only dots up
to its extension, `..` or `.`, leads to a directory and gets no new one. -/
def withExtension (path extension : String) : String :=
  let cs := path.toList
  let name := fileName cs
  let folder := cs.take (cs.length - name.length)
  match splitExtension? name with
  | some (['.'], _) => String.ofList (folder ++ ['.', '.'])
  | some (stem, _) => String.ofList (folder ++ stem) ++ "." ++ extension
  | none => if name = ['.'] ∨ name = ['.', '.'] then path else path ++ "." ++ extension

end Mos6502.Path
