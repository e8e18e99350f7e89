import Mos6502.Assembly.Assembler
import Mos6502.Machine.Run

/-!
# The workbench

One machine and the program that was last put into it. A source that assembles
takes the place of the program, and one that does not leaves everything as it
was. A reset puts the program back into fresh memory.
-/
namespace Mos6502

structure Workbench where
  machine : Machine
  program : Image

namespace Workbench

/-- A machine with a program in fresh memory, about to execute its lowest byte. -/
def boot (program : Image) : Workbench where
  machine := .reset ((Memory.zero.loadImage program).setResetVector (program.start?.getD 0))
  program := program

/-- Zeros in memory and no program. -/
def new : Workbench where
  machine := .reset .zero
  program := .empty

/-- Assembles a source into the machine. -/
def assemble (w : Workbench) (source : String) : Except (List Assembly.Error) Image × Workbench :=
  match Mos6502.assemble source with
  | .ok output => (.ok output.image, boot output.image)
  | .error errors => (.error errors, w)

/-- Executes one instruction. -/
def step (w : Workbench) : Except Fault Unit × Workbench :=
  match w.machine.step with
  | .ok machine => (.ok (), { w with machine })
  | .error f => (.error f, w)

/-- Executes `n` instructions, or those before the first fault. -/
def steps (w : Workbench) (n : Nat) : Except Fault Unit × Workbench :=
  let (machine, result) := w.machine.steps n
  (result, { w with machine })

/-- Back to the start of the program. -/
def reset (w : Workbench) : Workbench :=
  boot w.program

def setPc (w : Workbench) (pc : UInt16) : Workbench :=
  { w with machine.registers.pc := pc }

def write (w : Workbench) (address : UInt16) (b : UInt8) : Workbench :=
  { w with machine.memory := w.machine.memory.write address b }

def read (w : Workbench) (address : UInt16) : UInt8 :=
  w.machine.memory.read address

/-- The 256 bytes of a page. -/
def page (w : Workbench) (number : UInt8) : List UInt8 :=
  w.machine.memory.slice (number.toUInt16 <<< 8) 256

end Workbench

end Mos6502
