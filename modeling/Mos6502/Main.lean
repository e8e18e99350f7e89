import Mos6502.CommandLine.Run

/-!
# The program

The command line on the files and streams of the process.
-/
namespace Mos6502.CommandLine

/-- The cause of a failed file operation. -/
def FileError.ofError (e : IO.Error) : FileError :=
  match e with
  | .noFileOrDirectory .. => .notFound
  | .inappropriateType _ 21 _ => .isDirectory
  | .inappropriateType _ 20 _ => .notDirectory
  | e => .other (toString e)

instance : Host IO where
  readFile path := do
    try
      return .ok (← IO.FS.readBinFile path).toList
    catch e =>
      return .error (.ofError e)
  writeFile path bytes := do
    try
      IO.FS.writeBinFile path ⟨bytes.toArray⟩
      return .ok ()
    catch e =>
      return .error (.ofError e)
  print := IO.print
  remark := IO.eprintln
  complain text := IO.eprintln ("ERROR " ++ text)

end Mos6502.CommandLine

open Mos6502 in
def main (args : List String) : IO UInt32 := do
  match ← CommandLine.run args with
  | .ok code => return code.toUInt32
  | .error e =>
    IO.eprintln ("error: " ++ e.message ++ "\n\n" ++ CommandLine.Page.program.usage)
    return 2
