import Mos6502.CommandLine.Page
import Mos6502.Text.Column

/-!
# Help

The text of a page: what it is about, how it is used, and a section each for
commands, arguments and options. The rows of a section have a label and a text
beside it. If the labels take more than two fifths of the width, and some text
does not fit beside them, every text of the section stands below its label.
-/
namespace Mos6502.CommandLine

/-- A label and what is said about it. -/
structure Row where
  label : String
  text : String
deriving DecidableEq

namespace Row

/-- The columns of a page. -/
def pageWidth : Nat := 100

/-- The width of the longest label. -/
def labelWidth (rows : List Row) : Nat :=
  rows.foldl (fun width row => max width row.label.length) 0

/-- The columns that labels take, with the blanks around them. -/
def taken (rows : List Row) : Nat :=
  labelWidth rows + 4

/-- Texts stand below their labels. -/
def stacked (rows : List Row) : Bool :=
  5 * taken rows > 2 * pageWidth && rows.any fun row => row.text.length + taken rows > pageWidth

def render (rows : List Row) : String :=
  let line (row : Row) : String :=
    if stacked rows then "  " ++ row.label ++ "\n" ++ Column.left 10 "" ++ row.text ++ "\n"
    else "  " ++ Column.left (labelWidth rows + 2) row.label ++ row.text ++ "\n"
  String.join (rows.map line)

end Row

/-! ## Labels and texts -/

namespace OptionSpec

/-- What stands for the value of an option. -/
def placeholder (spec : OptionSpec) : String :=
  "<" ++ spec.name.map (fun c => if c = '-' then '_' else c.toUpper) ++ ">"

def label (spec : OptionSpec) : String :=
  let short := match spec.letter with
    | some c => String.ofList ['-', c, ',', ' ']
    | none => Column.left 4 ""
  let value := match spec.kind with
    | .value _ => " " ++ spec.placeholder
    | _ => ""
  short ++ "--" ++ spec.name ++ value

/-- The usual value and the values to choose from. -/
def remarks (spec : OptionSpec) : List String :=
  let usual := match spec.usual with
    | some text => ["[default: " ++ text ++ "]"]
    | none => []
  let choices := match spec.kind with
    | .value kind => kind.choices
    | _ => []
  usual ++ if choices.isEmpty then [] else ["[possible values: " ++ ", ".intercalate choices ++ "]"]

def row (spec : OptionSpec) : Row where
  label := spec.label
  text := " ".intercalate ((if spec.about.isEmpty then [] else [spec.about]) ++ spec.remarks)

end OptionSpec

namespace Page

def programName : String := "tool6502"

/-- The version of the program, in one line. -/
def version : String := programName ++ " 0.1.0\n"

/-- How a command is written. -/
def usage (page : Page) : String :=
  " ".intercalate ((["Usage:", programName] ++ if page.name.isEmpty then [] else [page.name]) ++
    (if page.options.isEmpty then [] else ["[OPTIONS]"]) ++
    page.arguments.map Argument.label ++
    if page.commands.isEmpty then [] else ["<COMMAND>"])

/-- Nothing for a section without rows. -/
def titled (title : String) (rows : List Row) : String :=
  if rows.isEmpty then "" else "\n" ++ title ++ ":\n" ++ Row.render rows

def render (page : Page) : String :=
  page.about ++ "\n\n" ++ page.usage ++ "\n" ++
    titled "Commands" (page.commands.map fun (name, about) => { label := name, text := about }) ++
    titled "Arguments" (page.arguments.map fun a => { label := a.label, text := a.about }) ++
    titled "Options" (page.options.map OptionSpec.row)

end Page

end Mos6502.CommandLine
