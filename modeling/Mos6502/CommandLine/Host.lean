/-!
# The host of a command

What a command asks of its surroundings: to read and to write files, and to
print. A directory of files in memory is one such host.
-/
namespace Mos6502.CommandLine

/-- Why a file cannot be read or written. -/
inductive FileError
  | notFound
  | notDirectory
  | isDirectory
  | nameTooLong
  /-- The bytes are not UTF-8. -/
  | notText
  | other (message : String)
deriving DecidableEq

def FileError.message : FileError → String
  | notFound => "No such file or directory (os error 2)"
  | notDirectory => "Not a directory (os error 20)"
  | isDirectory => "Is a directory (os error 21)"
  | nameTooLong => "File name too long (os error 36)"
  | notText => "stream did not contain valid UTF-8"
  | other message => message

/-- A place where commands run. -/
class Host (m : Type → Type) where
  readFile : String → m (Except FileError (List UInt8))
  writeFile : String → List UInt8 → m (Except FileError Unit)
  /-- Text for the standard output. -/
  print : String → m Unit
  /-- A line about what is being done. -/
  remark : String → m Unit
  /-- A line about what went wrong. -/
  complain : String → m Unit

/-! ## Files in memory -/

/-- A place in a tree of files, as the parts of a path from the working
directory. It starts with a slash, a part by itself, if it lies below the root,
and with double dots if it lies above the working directory. -/
abbrev Place := List String

namespace Place

/-- The working directory or one above it, or the root. -/
def isAncestor (p : Place) : Bool :=
  p == ["/"] || p.all (· == "..")

/-- One directory up; the root is above itself. -/
def parent (p : Place) : Place :=
  if p == ["/"] then p
  else if p.isAncestor then ".." :: p
  else p.dropLast

end Place

/-- Files, and directories that may be empty. The working directory, those above
it and the root are always there. -/
structure Directory where
  files : List (Place × List UInt8)
  folders : List Place := []

namespace Directory

/-- The parts of a path between slashes, without empty ones. -/
def parts (path : String) : List String :=
  (path.splitOn "/").filter (!·.isEmpty)

def isFile (d : Directory) (p : Place) : Bool :=
  (d.files.lookup p).isSome

def isDirectory (d : Directory) (p : Place) : Bool :=
  p.isAncestor || d.folders.contains p ||
    d.files.any fun (name, _) => p.length < name.length && p.isPrefixOf name

/-- The place is a directory. -/
def requireDirectory (d : Directory) (p : Place) : Except FileError Unit :=
  if d.isDirectory p then .ok () else .error (if d.isFile p then .notDirectory else .notFound)

/-- Goes on from a directory by one part of a path. -/
def enter (d : Directory) (dir : Place) (part : String) : Except FileError Place := do
  d.requireDirectory dir
  if part = "." then return dir
  else if part = ".." then return dir.parent
  else if part.utf8ByteSize > 255 then throw .nameTooLong
  else return dir ++ [part]

/-- The place that parts of a path lead to, whether or not something is there. -/
def walk (d : Directory) (path : String) (parts : List String) : Except FileError Place :=
  if path.isEmpty then .error .notFound
  else if path.utf8ByteSize > 4095 then .error .nameTooLong
  else parts.foldlM d.enter (if path.startsWith "/" then ["/"] else [])

/-- Only a directory is read with a slash after its name. -/
def read (d : Directory) (path : String) : Except FileError (List UInt8) := do
  let place ← d.walk path (parts path)
  if d.isDirectory place then throw .isDirectory
  match d.files.lookup place with
  | none => throw .notFound
  | some bytes => if path.endsWith "/" then throw .notDirectory else return bytes

/-- A name with a slash after it is taken for a directory's, whatever is there. -/
def write (d : Directory) (path : String) (bytes : List UInt8) : Except FileError Directory := do
  if path.endsWith "/" then
    d.requireDirectory (← d.walk path (parts path).dropLast)
    throw .isDirectory
  let place ← d.walk path (parts path)
  if d.isDirectory place then throw .isDirectory
  return { d with files := (place, bytes) :: d.files.filter (·.1 != place) }

end Directory

/-- A line on the error output. -/
inductive Message
  | remark (text : String)
  | complaint (text : String)
deriving DecidableEq

/-- Files in memory and what a command printed. -/
structure Transcript where
  directory : Directory
  output : String := ""
  messages : Array Message := #[]

instance : Host (StateM Transcript) where
  readFile path := do
    let t ← get
    return t.directory.read path
  writeFile path bytes := do
    let t ← get
    match t.directory.write path bytes with
    | .ok directory =>
      set { t with directory }
      return .ok ()
    | .error e => return .error e
  print text := modify fun t => { t with output := t.output ++ text }
  remark text := modify fun t => { t with messages := t.messages.push (.remark text) }
  complain text := modify fun t => { t with messages := t.messages.push (.complaint text) }

end Mos6502.CommandLine
