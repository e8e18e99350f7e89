import Mos6502.Machine.Effect
import Mos6502.Text.Hex

/-!
# Single steps

A machine is a processor with its memory. A step executes the instruction at the
program counter. A byte that is no instruction, or an instruction that the top
of memory cuts off, is a fault, and a fault changes nothing.
-/
namespace Mos6502

structure Machine where
  registers : Registers
  memory : Memory
  /-- Base cycles of the instructions executed so far. -/
  cycles : Nat := 0
deriving DecidableEq

/-- Why an instruction cannot be executed. -/
inductive Fault
  | illegalOpcode (code : UInt8) (address : UInt16)
  | outOfRange (address : UInt16)
deriving DecidableEq

def Fault.message : Fault → String
  | illegalOpcode code address => s!"illegal opcode ${Hex.byte code} at ${Hex.word address}"
  | outOfRange address => s!"memory access out of range at ${Hex.word address}"

namespace Machine

/-- A processor after reset: it starts where the reset vector points to. -/
def reset (memory : Memory) : Machine where
  registers := { pc := memory.readWord 0xFFFC }
  memory := memory

/-- The byte at the program counter. -/
def code (m : Machine) : UInt8 :=
  m.memory.read m.registers.pc

/-- The instruction at the program counter. -/
def fetch (m : Machine) : Except Fault Opcode :=
  match Opcode.ofCode? m.code with
  | none => .error (.illegalOpcode m.code m.registers.pc)
  | some o => if m.registers.pc.toNat + o.size > 65536 then .error (.outOfRange 0xFFFF) else .ok o

/-- The effect of an instruction at the program counter. -/
def effect (m : Machine) (o : Opcode) : Effect :=
  let operand := Effect.operand o.mode m.registers m.memory
  let r := { m.registers with pc := m.registers.pc + UInt16.ofNat o.size }
  Effect.ofOperation o.operation operand r m.memory

/-- The machine after an effect that took some cycles. -/
def apply : Machine → Effect → Nat → Machine
  | ⟨_, memory, spent⟩, e, cycles =>
    ⟨e.registers, e.writes.foldl (fun memory w => memory.write w.address w.value) memory, spent + cycles⟩

/-- Executes an instruction that was fetched, and also answers with the bytes written. -/
def execute (m : Machine) (o : Opcode) : Machine × List Write :=
  let e := m.effect o
  (m.apply e o.cycles, e.writes)

/-- Executes one instruction and also answers with the bytes written. -/
def stepWrites (m : Machine) : Except Fault (Machine × List Write) :=
  m.fetch.map m.execute

/-- Executes one instruction. -/
def step (m : Machine) : Except Fault Machine :=
  (m.stepWrites).map (·.1)

end Machine

end Mos6502
