import Mos6502.Proofs.Session

/-!
# Faults

A step fails for two reasons only: the byte at the program counter is no
instruction, or the top of memory cuts the instruction off. Both are seen before
anything changes, so a fault leaves the machine as it is. A run of steps ends at
its first fault, in the machine that the steps before it led to.

Main statement: `Machine.faults_exact`.
-/
namespace Mos6502.Machine

/-! ## One step -/

/-- The row of the table for the byte at the program counter. -/
def StandsAt (m : Machine) (o : Opcode) : Prop :=
  o ∈ Opcode.documented ∧ o.code = m.code

theorem ofCode?_eq_some_iff {m : Machine} {o : Opcode} : Opcode.ofCode? m.code = some o ↔ m.StandsAt o := by
  constructor
  · exact Opcode.ofCode?_eq_some
  · rintro ⟨hrow, hcode⟩
    rw [← hcode]
    exact Opcode.ofCode?_code o hrow

/-- What makes a fetch fail. -/
theorem fetch_eq_error {m : Machine} {f : Fault} :
    m.fetch = .error f ↔
      (¬ ∃ o, m.StandsAt o) ∧ f = .illegalOpcode m.code m.registers.pc ∨
        (∃ o, m.StandsAt o ∧ 0x10000 < m.registers.pc.toNat + o.size) ∧ f = .outOfRange 0xFFFF := by
  simp only [← ofCode?_eq_some_iff]
  unfold fetch
  cases hrow : Opcode.ofCode? m.code with
  | none => simp [eq_comm]
  | some o =>
    dsimp only
    split
    · rename_i hcut
      simp [hcut, eq_comm]
    · rename_i hwhole
      simp [hwhole]

theorem fetch_eq_ok_iff {m : Machine} {o : Opcode} :
    m.fetch = .ok o ↔ m.StandsAt o ∧ m.registers.pc.toNat + o.size ≤ 0x10000 := by
  rw [fetch_eq_ok, ofCode?_eq_some_iff]

theorem step_illegal_iff {m : Machine} {code : UInt8} {a : UInt16} :
    m.step = .error (.illegalOpcode code a) ↔ (¬ ∃ o, m.StandsAt o) ∧ code = m.code ∧ a = m.registers.pc := by
  rw [step_eq_error, fetch_eq_error]
  simp

theorem step_outOfRange_iff {m : Machine} {a : UInt16} :
    m.step = .error (.outOfRange a) ↔
      (∃ o, m.StandsAt o ∧ 0x10000 < m.registers.pc.toNat + o.size) ∧ a = 0xFFFF := by
  rw [step_eq_error, fetch_eq_error]
  simp

theorem step_ok_iff {m : Machine} :
    (∃ m', m.step = .ok m') ↔ ∃ o, m.StandsAt o ∧ m.registers.pc.toNat + o.size ≤ 0x10000 := by
  constructor
  · rintro ⟨m', h⟩
    obtain ⟨o, ho, -⟩ := step_eq_ok.1 h
    exact ⟨o, fetch_eq_ok_iff.1 ho⟩
  · rintro ⟨o, ho⟩
    exact ⟨_, step_eq_ok.2 ⟨o, fetch_eq_ok_iff.2 ho, rfl⟩⟩

/-! ## Runs -/

theorem reaches_zero {m m' : Machine} : m.Reaches 0 m' ↔ m' = m := by
  constructor
  · intro h
    cases h
    rfl
  · rintro rfl
    exact .refl

/-- A run of at least one step, split after its first. -/
theorem reaches_succ {m m' : Machine} {n : Nat} :
    m.Reaches (n + 1) m' ↔ ∃ a, m.step = .ok a ∧ a.Reaches n m' := by
  constructor
  · intro h
    induction n generalizing m' with
    | zero =>
      rcases h with _ | ⟨hstart, hlast⟩
      obtain rfl := reaches_zero.1 hstart
      exact ⟨m', hlast, .refl⟩
    | succ n ih =>
      rcases h with _ | ⟨hstart, hlast⟩
      obtain ⟨a, ha, hrest⟩ := ih hstart
      exact ⟨a, ha, hrest.step hlast⟩
  · rintro ⟨a, hstep, hrest⟩
    induction hrest with
    | refl => exact Reaches.refl.step hstep
    | step _ hlast ih => exact ih.step hlast

/-- A machine that cannot step reaches itself only. -/
theorem reaches_of_fault {m m' : Machine} {n : Nat} {f : Fault} (h : m.step = .error f) :
    m.Reaches n m' ↔ n = 0 ∧ m' = m := by
  cases n with
  | zero => simp [reaches_zero]
  | succ n => simp [reaches_succ, h]

theorem stepsFrom_ok_iff (writes : Array Write) (m m' : Machine) (n : Nat) :
    (stepsFrom writes m n).1 = m' ∧ (stepsFrom writes m n).2.2 = .ok () ↔ m.Reaches n m' := by
  induction n generalizing m writes with
  | zero => simp [stepsFrom_zero, reaches_zero, eq_comm]
  | succ n ih =>
    rw [stepsFrom_succ]
    cases hfetch : m.fetch with
    | error f => simp [reaches_of_fault (step_eq_error.2 hfetch)]
    | ok o =>
      have hstep : m.step = .ok (m.execute o).1 := step_eq_ok.2 ⟨o, hfetch, rfl⟩
      simp [reaches_succ, hstep, ih]

theorem stepsFrom_error_iff (writes : Array Write) (m m' : Machine) (n : Nat) (f : Fault) :
    (stepsFrom writes m n).1 = m' ∧ (stepsFrom writes m n).2.2 = .error f ↔
      ∃ k < n, m.Reaches k m' ∧ m'.step = .error f := by
  induction n generalizing m writes with
  | zero => simp [stepsFrom_zero]
  | succ n ih =>
    rw [stepsFrom_succ]
    cases hfetch : m.fetch with
    | error g =>
      -- the run ends where it is, so only the first of the steps can be the one that fails
      have hfault := step_eq_error.2 hfetch
      simp only [reaches_of_fault hfault]
      constructor
      · rintro ⟨rfl, hg⟩
        cases hg
        exact ⟨0, by omega, ⟨rfl, rfl⟩, hfault⟩
      · rintro ⟨k, -, ⟨-, rfl⟩, hf⟩
        cases hfault.symm.trans hf
        exact ⟨rfl, rfl⟩
    | ok o =>
      have hstep : m.step = .ok (m.execute o).1 := step_eq_ok.2 ⟨o, hfetch, rfl⟩
      rw [ih]
      constructor
      · rintro ⟨k, hk, hreach, hfault⟩
        exact ⟨k + 1, by omega, reaches_succ.2 ⟨_, hstep, hreach⟩, hfault⟩
      · rintro ⟨k, hk, hreach, hfault⟩
        cases k with
        | zero =>
          obtain rfl := reaches_zero.1 hreach
          cases hstep.symm.trans hfault
        | succ k =>
          obtain ⟨a, ha, hrest⟩ := reaches_succ.1 hreach
          cases hstep.symm.trans ha
          exact ⟨k, by omega, hrest, hfault⟩

theorem steps_eq_iff {m m' : Machine} {n : Nat} {r : Except Fault Unit} :
    m.steps n = (m', r) ↔ (stepsFrom #[] m n).1 = m' ∧ (stepsFrom #[] m n).2.2 = r :=
  Prod.ext_iff

/-- A step fails with an illegal opcode exactly if the byte at the program counter is in no row of the table, and
out of range exactly if it is in a row whose instruction the top of memory cuts off; else it succeeds. A step
that fails leaves the machine as it is and writes nothing. A run of `n` steps succeeds exactly if `n` steps can
be made one after another, and leads where they lead; it fails exactly if one of them is a fault, and then it
leaves the machine that the steps before the fault lead to. -/
theorem faults_exact (m : Machine) :
    (∀ code address, m.step = .error (.illegalOpcode code address) ↔
      (¬ ∃ o, m.StandsAt o) ∧ code = m.code ∧ address = m.registers.pc) ∧
    (∀ address, m.step = .error (.outOfRange address) ↔
      (∃ o, m.StandsAt o ∧ 0x10000 < m.registers.pc.toNat + o.size) ∧ address = 0xFFFF) ∧
    ((∃ m', m.step = .ok m') ↔ ∃ o, m.StandsAt o ∧ m.registers.pc.toNat + o.size ≤ 0x10000) ∧
    (∀ f, m.step = .error f ↔ m.stepsFrom #[] 1 = (m, #[], .error f)) ∧
    (∀ n m', m.steps n = (m', .ok ()) ↔ m.Reaches n m') ∧
    (∀ n m' f, m.steps n = (m', .error f) ↔ ∃ k < n, m.Reaches k m' ∧ m'.step = .error f) := by
  refine ⟨fun _ _ => step_illegal_iff, fun _ => step_outOfRange_iff, step_ok_iff, fun f => ?_, fun n m' => ?_,
    fun n m' f => ?_⟩
  · rw [stepsFrom_succ, step_eq_error]
    cases m.fetch with
    | error g => simp
    | ok o => simp [stepsFrom_zero]
  · rw [steps_eq_iff, stepsFrom_ok_iff]
  · rw [steps_eq_iff, stepsFrom_error_iff]

end Mos6502.Machine
