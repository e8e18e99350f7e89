import Mos6502.Machine.Run
import Mos6502.Proofs.Footprint

/-!
# Sessions are repeated steps

A session leads to the machine that its number of single steps leads to. It
records the states on the way, and it ends as soon as there is a reason to.

Main statement: `Machine.session_refines_steps`.
-/
namespace Mos6502.Machine

/-! ## Repeated steps -/

/-- A number of steps, none of them a fault, leads from one machine to another. -/
inductive Reaches (m : Machine) : Nat → Machine → Prop
  | refl : Reaches m 0 m
  | step {n : Nat} {a b : Machine} : Reaches m n a → a.step = .ok b → Reaches m (n + 1) b

theorem Reaches.unique {m a b : Machine} {n : Nat} (ha : m.Reaches n a) (hb : m.Reaches n b) : a = b := by
  induction ha generalizing b with
  | refl =>
    cases hb
    rfl
  | step _ hstep ih =>
    cases hb with
    | step hb hstep' =>
      rw [ih hb, hstep'] at hstep
      exact (Except.ok.inj hstep).symm

/-- The instructions that may lead to themselves: the branches, the two jumps and the call. -/
def controlFlow : List UInt8 :=
  [0x10, 0x30, 0x50, 0x70, 0x90, 0xB0, 0xD0, 0xF0, 0x4C, 0x6C, 0x20]

/-- The last of `n` steps left the program counter at `pc`, with an instruction that is no branch, jump or
call. -/
def Stalls (m : Machine) (n : Nat) (pc : UInt16) : Prop :=
  ∃ k a b, n = k + 1 ∧ m.Reaches k a ∧ a.step = .ok b ∧ a.registers.pc = pc ∧ b.registers.pc = pc ∧
    a.memory.read pc ∉ controlFlow

/-! ## How a session ends -/

/-- A session that looks for stalls meets one after `n` steps. -/
def Stuck (limits : SessionLimits) (m : Machine) (n : Nat) : Prop :=
  limits.detectStalls = true ∧ ∃ pc, m.Stalls n pc

/-- A session has this reason to end after `n` steps. -/
def Ends (limits : SessionLimits) (m : Machine) (n : Nat) : StopReason → Prop
  | .stall pc => limits.detectStalls = true ∧ m.Stalls n pc
  | .stepLimit => ¬ Stuck limits m n ∧ n = limits.maxSteps
  | .brk pc => ¬ Stuck limits m n ∧ n < limits.maxSteps ∧ limits.stopOnBreak = true ∧
      ∃ a, m.Reaches n a ∧ a.memory.read pc = 0 ∧ a.registers.pc = pc
  | .fault f => ¬ Stuck limits m n ∧ n < limits.maxSteps ∧ ∃ a, m.Reaches n a ∧ a.step = .error f

/-- A record numbered `i` shows the registers of a machine, its flags and the byte it executes next. -/
structure Captures (t : TraceRecord) (i : Nat) (m : Machine) : Prop where
  step : t.step = i
  pc : t.registers.pc = m.registers.pc
  a : t.registers.a = m.registers.a
  x : t.registers.x = m.registers.x
  y : t.registers.y = m.registers.y
  sp : t.registers.sp = m.registers.sp
  flags : t.registers.flags = m.registers.flags
  code : t.code = m.memory.read m.registers.pc

/-- The records are those of the machines after zero, one and so on up to `n - 1` steps. -/
structure Records (m : Machine) (records : Array TraceRecord) (n : Nat) : Prop where
  size : records.size = n
  record : ∀ i < n, ∃ a t, m.Reaches i a ∧ records[i]? = some t ∧ Captures t i a

/-- The number of records of a session of `n` steps. An instruction that the session ends at is recorded
too, though it is not executed. -/
def recorded (n : Nat) : StopReason → Nat
  | .stepLimit | .stall _ => n
  | .brk _ | .fault _ => n + 1

/-- A session that made some progress and ended for a reason. -/
structure Session (limits : SessionLimits) (m : Machine) (p : Progress) (reason : StopReason) : Prop where
  steps_le : p.steps ≤ limits.maxSteps
  reaches : m.Reaches p.steps p.machine
  records : m.Records p.records (recorded p.steps reason)
  reason_iff : ∀ r, reason = r ↔ Ends limits m p.steps r
  first : ∀ k < p.steps, ∀ r, ¬ Ends limits m k r
  stall : ∀ pc, reason = .stall pc → ∃ k a o, p.steps = k + 1 ∧ m.Reaches k a ∧
    Opcode.ofCode? a.code = some o ∧ o.operation ∈ [.brk, .rts, .rti]

/-! ## Reasons to end exclude each other -/

theorem step_eq_error {m : Machine} {f : Fault} : m.step = .error f ↔ m.fetch = .error f := by
  unfold step stepWrites
  cases m.fetch <;> simp [Except.map]

/-- A break is a whole instruction wherever it stands. -/
theorem fetch_brk {m : Machine} (h : m.code = 0) : m.fetch = .ok ⟨0x00, .brk, .implied, 7⟩ := by
  refine fetch_eq_ok.2 ⟨?_, m.registers.pc.toNat_lt⟩
  rw [h]
  exact Opcode.ofCode?_code ⟨0x00, .brk, .implied, 7⟩ (by decide +kernel)

theorem Stalls.unique {m : Machine} {n : Nat} {p q : UInt16} (hp : m.Stalls n p) (hq : m.Stalls n q) : p = q := by
  obtain ⟨j, a, _, rfl, ha, _, rfl, _⟩ := hp
  obtain ⟨k, b, _, hk, hb, _, rfl, _⟩ := hq
  cases hk
  rw [ha.unique hb]

theorem Ends.unique {limits : SessionLimits} {m : Machine} {n : Nat} {r s : StopReason}
    (hr : Ends limits m n r) (hs : Ends limits m n s) : r = s := by
  cases r with
  | stall p =>
    have hstuck : Stuck limits m n := ⟨hr.1, p, hr.2⟩
    cases s with
    | stall q => rw [hr.2.unique hs.2]
    | stepLimit | brk _ | fault _ => exact absurd hstuck hs.1
  | stepLimit =>
    cases s with
    | stall q => exact absurd ⟨hs.1, q, hs.2⟩ hr.1
    | stepLimit => rfl
    | brk _ | fault _ => exact absurd hr.2 (Nat.ne_of_lt hs.2.1)
  | brk p =>
    obtain ⟨hquiet, hlt, _, a, ha, hcode, rfl⟩ := hr
    cases s with
    | stall q => exact absurd ⟨hs.1, q, hs.2⟩ hquiet
    | stepLimit => exact absurd hs.2 (Nat.ne_of_lt hlt)
    | brk q =>
      obtain ⟨_, _, _, b, hb, _, rfl⟩ := hs
      rw [ha.unique hb]
    | fault f =>
      obtain ⟨_, _, b, hb, hfault⟩ := hs
      rw [← ha.unique hb, step_eq_error, fetch_brk hcode] at hfault
      cases hfault
  | fault e =>
    obtain ⟨hquiet, hlt, a, ha, hfault⟩ := hr
    cases s with
    | stall q => exact absurd ⟨hs.1, q, hs.2⟩ hquiet
    | stepLimit => exact absurd hs.2 (Nat.ne_of_lt hlt)
    | brk q =>
      obtain ⟨_, _, _, b, hb, hcode, rfl⟩ := hs
      rw [ha.unique hb, step_eq_error, fetch_brk hcode] at hfault
      cases hfault
    | fault f =>
      obtain ⟨_, _, b, hb, hfault'⟩ := hs
      rw [ha.unique hb, hfault'] at hfault
      rw [Except.error.inj hfault]

/-! ## Stalls -/

theorem mayLoop_eq_false {code : UInt8} : mayLoop code = false ↔ code ∉ controlFlow := by
  simp only [mayLoop, controlFlow, List.contains_eq_mem, decide_eq_false_iff_not]

theorem operation_of_notMem_controlFlow :
    ∀ o ∈ Opcode.documented, o.code ∉ controlFlow → o.operation ∈ Operation.redirecting →
      o.operation ∈ [.brk, .rts, .rti] := by
  decide +kernel

/-- An instruction other than a jump of some kind moves the program counter on. -/
theorem step_pc_ne {m : Machine} {o : Opcode} (h : m.fetch = .ok o) (hop : o.operation ∉ Operation.redirecting) :
    (m.apply (m.effect o) o.cycles).registers.pc ≠ m.registers.pc := by
  intro heq
  have hnext := (execute_footprint h).pc hop
  have hsize : o.size ≤ 3 ∧ 0 < o.size := by
    have := o.mode.operandBytes_le
    simp only [Opcode.size, Mode.size]
    omega
  have hlt := m.registers.pc.toNat_lt
  rw [heq] at hnext
  omega

theorem Stalls.operation {m : Machine} {n : Nat} {pc : UInt16} (h : m.Stalls n pc) :
    ∃ k a o, n = k + 1 ∧ m.Reaches k a ∧ Opcode.ofCode? a.code = some o ∧ o.operation ∈ [.brk, .rts, .rti] := by
  obtain ⟨k, a, b, rfl, ha, hstep, rfl, hpc, hloop⟩ := h
  obtain ⟨o, ho, rfl⟩ := step_eq_ok.1 hstep
  have hrow := (fetch_eq_ok.1 ho).1
  obtain ⟨hmem, hcode⟩ := Opcode.ofCode?_eq_some hrow
  have hop : o.operation ∈ Operation.redirecting := by
    by_contra hop
    exact step_pc_ne ho hop hpc
  exact ⟨k, a, o, rfl, ha, hrow, operation_of_notMem_controlFlow o hmem (hcode ▸ hloop) hop⟩

/-! ## One round of a session -/

/-- A session is under way: it was recorded and met no reason to end so far. -/
structure Running (limits : SessionLimits) (m : Machine) (p : Progress) : Prop where
  reaches : m.Reaches p.steps p.machine
  records : m.Records p.records p.steps
  quiet : ¬ Stuck limits m p.steps
  first : ∀ k < p.steps, ∀ r, ¬ Ends limits m k r

theorem captures_record (m : Machine) (i : Nat) : Captures (m.record i) i m :=
  ⟨rfl, rfl, rfl, rfl, rfl, rfl, rfl, rfl⟩

theorem Records.push {m a : Machine} {rs : Array TraceRecord} {n : Nat} (h : m.Records rs n) (ha : m.Reaches n a) :
    m.Records (rs.push (a.record n)) (n + 1) := by
  have hsize := h.size
  constructor
  · rw [Array.size_push, hsize]
  · intro i hi
    by_cases hin : i = n
    · subst hin
      exact ⟨a, a.record i, ha, by rw [← hsize, Array.getElem?_push_size], captures_record a i⟩
    · obtain ⟨b, t, hb, hget, ht⟩ := h.record i (by omega)
      exact ⟨b, t, hb, by rw [Array.getElem?_push, if_neg (by omega), hget], ht⟩

theorem Session.of_ends {limits : SessionLimits} {m : Machine} {p : Progress} {reason : StopReason}
    (hle : p.steps ≤ limits.maxSteps) (hreaches : m.Reaches p.steps p.machine)
    (hrecords : m.Records p.records (recorded p.steps reason)) (hends : Ends limits m p.steps reason)
    (hfirst : ∀ k < p.steps, ∀ r, ¬ Ends limits m k r) : Session limits m p reason where
  steps_le := hle
  reaches := hreaches
  records := hrecords
  reason_iff r := ⟨fun h => h ▸ hends, hends.unique⟩
  first := hfirst
  stall pc h := by
    subst h
    exact hends.2.operation

theorem Running.start (limits : SessionLimits) (m : Machine) : Running limits m ⟨m, 0, #[], #[]⟩ where
  reaches := .refl
  records := ⟨rfl, nofun⟩
  quiet := by
    rintro ⟨-, pc, k, a, b, hk, -⟩
    cases hk
  first := nofun

section Round
variable {limits : SessionLimits} {m b : Machine} {p : Progress} (h : Running limits m p)
  (hlt : p.steps < limits.maxSteps)
include h hlt

theorem Running.brk (hon : limits.stopOnBreak = true) (hcode : p.machine.code = 0) :
    Session limits m { p with records := p.records.push (p.machine.record p.steps) }
      (.brk p.machine.registers.pc) :=
  .of_ends (Nat.le_of_lt hlt) h.reaches (h.records.push h.reaches)
    ⟨h.quiet, hlt, hon, p.machine, h.reaches, hcode, rfl⟩ h.first

theorem Running.fault {f : Fault} (hfault : p.machine.step = .error f) :
    Session limits m { p with records := p.records.push (p.machine.record p.steps) } (.fault f) :=
  .of_ends (Nat.le_of_lt hlt) h.reaches (h.records.push h.reaches)
    ⟨h.quiet, hlt, p.machine, h.reaches, hfault⟩ h.first

variable (hbrk : ¬ (limits.stopOnBreak = true ∧ p.machine.code = 0)) (hstep : p.machine.step = .ok b)
include hbrk hstep

/-- A machine that makes a step had no reason to end before it. -/
theorem Running.first_succ : ∀ k < p.steps + 1, ∀ r, ¬ Ends limits m k r := by
  intro k hk r hr
  rcases Nat.lt_succ_iff_lt_or_eq.1 hk with hk | rfl
  · exact h.first k hk r hr
  cases r with
  | stall pc => exact h.quiet ⟨hr.1, pc, hr.2⟩
  | stepLimit => exact Nat.ne_of_lt hlt hr.2
  | brk pc =>
    obtain ⟨_, _, hon, a, ha, hcode, rfl⟩ := hr
    rw [ha.unique h.reaches] at hcode
    exact hbrk ⟨hon, hcode⟩
  | fault f =>
    obtain ⟨_, _, a, ha, hfault⟩ := hr
    rw [ha.unique h.reaches, hstep] at hfault
    cases hfault

theorem Running.stall (hon : limits.detectStalls = true) (hpc : b.registers.pc = p.machine.registers.pc)
    (hloop : p.machine.code ∉ controlFlow) (writes : Array Write) :
    Session limits m ⟨b, p.steps + 1, p.records.push (p.machine.record p.steps), writes⟩
      (.stall p.machine.registers.pc) :=
  .of_ends hlt (h.reaches.step hstep) (h.records.push h.reaches)
    ⟨hon, p.steps, p.machine, b, rfl, h.reaches, hstep, rfl, hpc, hloop⟩ (h.first_succ hlt hbrk hstep)

theorem Running.next
    (hquiet : ¬ (limits.detectStalls = true ∧ b.registers.pc = p.machine.registers.pc ∧
      p.machine.code ∉ controlFlow)) (writes : Array Write) :
    Running limits m ⟨b, p.steps + 1, p.records.push (p.machine.record p.steps), writes⟩ where
  reaches := h.reaches.step hstep
  records := h.records.push h.reaches
  quiet := by
    rintro ⟨hon, pc, k, a, c, hk, ha, hac, rfl, hpc, hloop⟩
    cases hk
    obtain rfl := ha.unique h.reaches
    rw [hstep] at hac
    cases hac
    exact hquiet ⟨hon, hpc, hloop⟩
  first := h.first_succ hlt hbrk hstep

end Round

/-! ## Whole sessions -/

section Loop
-- the table behind a fetch is never evaluated while a loop is opened
attribute [local irreducible] fetch

theorem stepsFrom_zero (writes : Array Write) (m : Machine) : stepsFrom writes m 0 = (m, writes, .ok ()) :=
  rfl

theorem stepsFrom_succ (writes : Array Write) (m : Machine) (n : Nat) :
    stepsFrom writes m (n + 1) =
      match m.fetch with
      | .error f => (m, writes, .error f)
      | .ok o => stepsFrom (writes ++ (m.execute o).2) (m.execute o).1 n :=
  rfl

theorem sessionFrom_succ (limits : SessionLimits) (p : Progress) (n : Nat) :
    sessionFrom limits p (n + 1) =
      let records := p.records.push (p.machine.record p.steps)
      let pc := p.machine.registers.pc
      if limits.stopOnBreak && p.machine.code == 0 then (⟨p.machine, p.steps, records, p.writes⟩, .brk pc)
      else match p.machine.fetch with
        | .error f => (⟨p.machine, p.steps, records, p.writes⟩, .fault f)
        | .ok o =>
          let (b, ws) := p.machine.execute o
          let q := ⟨b, p.steps + 1, records, p.writes ++ ws⟩
          if limits.detectStalls && b.registers.pc == pc && !mayLoop p.machine.code then (q, .stall pc)
          else sessionFrom limits q n :=
  rfl

end Loop

theorem sessionFrom_session {limits : SessionLimits} {m : Machine} {p : Progress} {n : Nat}
    (h : Running limits m p) (hn : p.steps + n = limits.maxSteps) :
    Session limits m (sessionFrom limits p n).1 (sessionFrom limits p n).2 := by
  induction n generalizing p with
  | zero => exact .of_ends (Nat.le_of_eq hn) h.reaches h.records ⟨h.quiet, hn⟩ h.first
  | succ n ih =>
    have hlt : p.steps < limits.maxSteps := by omega
    rw [sessionFrom_succ]
    dsimp only
    split
    · rename_i hbrk
      simp only [Bool.and_eq_true, beq_iff_eq] at hbrk
      exact h.brk hlt hbrk.1 hbrk.2
    · rename_i hbrk
      simp only [Bool.and_eq_true, beq_iff_eq] at hbrk
      split
      · rename_i f hf
        exact h.fault hlt (step_eq_error.2 hf)
      · rename_i o ho
        have hstep := step_eq_ok.2 ⟨o, ho, rfl⟩
        split
        · rename_i hstall
          simp only [Bool.and_eq_true, beq_iff_eq, Bool.not_eq_true', mayLoop_eq_false] at hstall
          exact h.stall hlt hbrk hstep hstall.1.1 hstall.1.2 hstall.2 _
        · rename_i hstall
          simp only [Bool.and_eq_true, beq_iff_eq, Bool.not_eq_true', mayLoop_eq_false, and_assoc] at hstall
          exact ih (h.next hlt hbrk hstep hstall _) (by simp only; omega)

theorem sessionFrom_plain (limit : Nat) (p : Progress) (writes : Array Write) (n : Nat) :
    (sessionFrom ⟨limit, false, false⟩ p n).1.machine = (stepsFrom writes p.machine n).1 ∧
      ((sessionFrom ⟨limit, false, false⟩ p n).2 = .stepLimit ↔
        (stepsFrom writes p.machine n).2.2 = .ok ()) := by
  induction n generalizing p writes with
  | zero => exact ⟨rfl, fun _ => rfl, fun _ => rfl⟩
  | succ n ih =>
    rw [sessionFrom_succ, stepsFrom_succ]
    simp only [Bool.false_and, Bool.false_eq_true, if_false]
    cases p.machine.fetch with
    | error f => simp
    | ok o => exact ih _ _

/-- A session ends after as many steps as it counts, in the machine that these steps lead to, for the first
reason that comes up. Without stops at breaks and stalls it is a plain run of steps. -/
theorem session_refines_steps (m : Machine) (limits : SessionLimits) :
    Session limits m (m.session limits).1 (m.session limits).2 ∧
      ∀ n, ((m.session ⟨n, false, false⟩).2 = .stepLimit ↔ (m.steps n).2 = .ok ()) ∧
        (m.session ⟨n, false, false⟩).1.machine = (m.steps n).1 := by
  constructor
  · exact sessionFrom_session (.start limits m) (Nat.zero_add _)
  · intro n
    obtain ⟨hmachine, hreason⟩ := sessionFrom_plain n ⟨m, 0, #[], #[]⟩ #[] n
    exact ⟨hreason, hmachine⟩

/-- A load, a copy and a break. -/
def loadCopyBreak : Machine where
  registers := { pc := 0x0200 }
  memory := Memory.zero.load 0x0200 [0xA9, 0x01, 0xAA, 0x00]

/-- The session stops at the break, which it records as well. -/
theorem session_refines_steps_break :
    (loadCopyBreak.session {}).2 = .brk 0x0203 ∧ (loadCopyBreak.session {}).1.steps = 2 ∧
      (loadCopyBreak.session {}).1.records =
        #[⟨0, { pc := 0x0200 }, 0xA9⟩, ⟨1, { a := 0x01, pc := 0x0202 }, 0xAA⟩,
          ⟨2, { a := 0x01, x := 0x01, pc := 0x0203 }, 0x00⟩] ∧
      loadCopyBreak.Records (loadCopyBreak.session {}).1.records 3 := by
  have hrun : (loadCopyBreak.session {}).2 = .brk 0x0203 ∧ (loadCopyBreak.session {}).1.steps = 2 ∧
      (loadCopyBreak.session {}).1.records =
        #[⟨0, { pc := 0x0200 }, 0xA9⟩, ⟨1, { a := 0x01, pc := 0x0202 }, 0xAA⟩,
          ⟨2, { a := 0x01, x := 0x01, pc := 0x0203 }, 0x00⟩] := by decide +kernel
  have hrecords := (session_refines_steps loadCopyBreak {}).1.records
  rw [hrun.1, hrun.2.1] at hrecords
  exact ⟨hrun.1, hrun.2.1, hrun.2.2, hrecords⟩

end Mos6502.Machine
