import Mos6502.Machine.Step

/-!
# Runs

Repeated steps. A plain run counts steps and ends early at a fault. A session
also stops before a break and when the program counter stays where it is, and it
records the state before each instruction.
-/
namespace Mos6502

/-- The state before an instruction. -/
structure TraceRecord where
  step : Nat
  registers : Registers
  code : UInt8
deriving DecidableEq

namespace TraceRecord

/-- The names of the columns. -/
def header : String :=
  "Step\tPC\tA\tX\tY\tSP\tFlags\tInstruction"

/-- The name of the instruction, if the byte is one. -/
def mnemonic? (t : TraceRecord) : Option String :=
  (Opcode.ofCode? t.code).map (·.mnemonic)

/-- The columns of the record. -/
def render (t : TraceRecord) : String :=
  let r := t.registers
  let bytes := [r.a, r.x, r.y, r.sp, r.status, t.code].map fun b => "\t$" ++ Hex.byte b
  s!"{t.step}\t${Hex.word r.pc}" ++ String.join bytes

/-- The columns and the name of the instruction. -/
def renderNamed (t : TraceRecord) : String :=
  t.render ++ "\t" ++ t.mnemonic?.getD "???"

end TraceRecord

/-- Why a session ended. -/
inductive StopReason
  | stepLimit
  /-- A break instruction is next. -/
  | brk (pc : UInt16)
  /-- An instruction went back to itself. -/
  | stall (pc : UInt16)
  | fault (f : Fault)
deriving DecidableEq

/-- When a session ends. -/
structure SessionLimits where
  maxSteps : Nat := 10000
  stopOnBreak : Bool := true
  detectStalls : Bool := true
deriving DecidableEq

/-- The machine after a number of steps, with what happened on the way. -/
structure Progress where
  machine : Machine
  steps : Nat
  records : Array TraceRecord
  writes : Array Write

namespace Machine

/-- Executes `n` instructions, or those before the first fault. -/
def stepsFrom (writes : Array Write) (m : Machine) : Nat → Machine × Array Write × Except Fault Unit
  | 0 => (m, writes, .ok ())
  | n + 1 =>
    match m.fetch with
    | .error f => (m, writes, .error f)
    | .ok o =>
      let (m, ws) := m.execute o
      stepsFrom (writes ++ ws) m n

/-- Executes `n` instructions, or those before the first fault. -/
def steps (m : Machine) (n : Nat) : Machine × Except Fault Unit :=
  let (m, _, result) := m.stepsFrom #[] n
  (m, result)

/-- Branches, jumps and calls may well lead to themselves. -/
def mayLoop (code : UInt8) : Bool :=
  [0x10, 0x30, 0x50, 0x70, 0x90, 0xB0, 0xD0, 0xF0, 0x4C, 0x6C, 0x20].contains code

/-- The state before the next instruction. -/
def record (m : Machine) (step : Nat) : TraceRecord :=
  ⟨step, m.registers, m.code⟩

/-- Goes on with a session for at most `n` more steps. -/
def sessionFrom (limits : SessionLimits) : Progress → Nat → Progress × StopReason
  | p, 0 => (p, .stepLimit)
  | ⟨m, steps, records, writes⟩, n + 1 =>
    let t := m.record steps
    let pc := t.registers.pc
    let records := records.push t
    if limits.stopOnBreak && t.code == 0 then (⟨m, steps, records, writes⟩, .brk pc)
    else match m.fetch with
      | .error f => (⟨m, steps, records, writes⟩, .fault f)
      | .ok o =>
        let (m, ws) := m.execute o
        let p := ⟨m, steps + 1, records, writes ++ ws⟩
        if limits.detectStalls && m.registers.pc == pc && !mayLoop t.code then (p, .stall pc)
        else sessionFrom limits p n

/-- Runs the machine until one of the limits is met. -/
def session (m : Machine) (limits : SessionLimits) : Progress × StopReason :=
  sessionFrom limits ⟨m, 0, #[], #[]⟩ limits.maxSteps

end Machine

end Mos6502
