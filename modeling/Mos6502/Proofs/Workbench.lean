import Mathlib.Data.List.DropRight
import Mos6502.Proofs.Loading

/-!
# Runs of the workbench

A workbench is used by one action after another, and any of them may fail. The
only one that changes its program is an assembly that succeeds, and that leaves
the workbench as if it had just been started with the program. So a reset, which
starts it again, goes back to the last such assembly, whatever the program did to
its memory since.

Main statement: `Workbench.reset_restores_program`.
-/
namespace Mos6502.Workbench

/-- What a user does with the workbench. -/
inductive Action
  | assemble (source : String)
  | step
  | steps (n : Nat)
  | setPc (pc : UInt16)
  | write (address : UInt16) (b : UInt8)
  | reset

namespace Action

/-- The workbench after an action, whether or not the action failed. -/
def perform (w : Workbench) : Action → Workbench
  | assemble source => (w.assemble source).2
  | step => w.step.2
  | steps n => (w.steps n).2
  | setPc pc => w.setPc pc
  | write address b => w.write address b
  | reset => w.reset

/-- The action is an assembly that succeeds. -/
def installs : Action → Bool
  | assemble source => (Mos6502.assemble source).isOk
  | _ => false

end Action

/-- The workbench after some actions from its beginning. -/
def after (actions : List Action) : Workbench :=
  actions.foldl Action.perform new

theorem after_concat (actions : List Action) (a : Action) : after (actions ++ [a]) = a.perform (after actions) := by
  simp [after]

/-! ## One action -/

/-- The beginning is the start of a program without a byte. -/
theorem new_eq_boot : new = boot .empty := by
  have hcells : Image.empty.cellList = [] := by
    rw [List.eq_nil_iff_forall_not_mem]
    rintro ⟨a, b⟩ hmem
    cases (Image.get?_empty a).symm.trans (Image.mem_cellList.1 hmem)
  have hstart : Image.empty.start? = none := Image.start?_eq_none.2 Image.get?_empty
  have hmemory : (Memory.zero.loadImage .empty).setResetVector (Image.empty.start?.getD 0) = .zero := by
    rw [Memory.loadImage, hcells, hstart]
    ext a
    simp [Memory.setResetVector, Memory.read_write]
  rw [new, boot, hmemory]

theorem assemble_of_error {source : String} {errors : List Assembly.Error} (h : Mos6502.assemble source = .error errors)
    (w : Workbench) : w.assemble source = (.error errors, w) := by
  simp only [assemble, h]

/-- An assembly that succeeds starts its program. -/
theorem Action.perform_of_installs {a : Action} (h : a.installs = true) (w : Workbench) :
    a.perform w = boot (a.perform w).program := by
  cases a with
  | assemble source =>
    cases hs : Mos6502.assemble source with
    | ok output =>
      rw [perform, assemble_of_ok hs]
      rfl
    | error errors => simp [installs, hs, Except.isOk, Except.toBool] at h
  | _ => cases h

theorem program_step (w : Workbench) : w.step.2.program = w.program := by
  unfold step
  split <;> rfl

-- otherwise a step is unfolded down to the table of instructions
attribute [local irreducible] Workbench.step in
/-- Every other action keeps the program. -/
theorem Action.program_perform {a : Action} (h : a.installs = false) (w : Workbench) :
    (a.perform w).program = w.program := by
  cases a with
  | assemble source =>
    cases hs : Mos6502.assemble source with
    | ok output => simp [installs, hs, Except.isOk, Except.toBool] at h
    | error errors => rw [perform, assemble_of_error hs]
  | step => exact program_step w
  | steps n => rfl
  | setPc pc => rfl
  | write address b => rfl
  | reset => rfl

/-! ## Runs -/

/-- The actions up to the last assembly that succeeded. -/
def upToProgram (actions : List Action) : List Action :=
  actions.rdropWhile fun a => !a.installs

/-- A run has the program of its last assembly that succeeded, and that assembly started it. -/
theorem after_upToProgram (actions : List Action) :
    (after actions).program = (after (upToProgram actions)).program ∧
      after (upToProgram actions) = boot (after (upToProgram actions)).program := by
  induction actions using List.reverseRecOn with
  | nil => exact ⟨rfl, new_eq_boot⟩
  | append_singleton actions a ih =>
    cases ha : a.installs with
    | true =>
      have hkeep : upToProgram (actions ++ [a]) = actions ++ [a] :=
        List.rdropWhile_concat_neg _ _ _ (by simp [ha])
      rw [hkeep, after_concat]
      exact ⟨rfl, Action.perform_of_installs ha _⟩
    | false =>
      have hdrop : upToProgram (actions ++ [a]) = upToProgram actions :=
        List.rdropWhile_concat_pos _ _ _ (by simp [ha])
      rw [hdrop, after_concat, Action.program_perform ha]
      exact ih

/-- An assembly that fails changes nothing, and a reset leads back to where the workbench stood right after the
last assembly that succeeded, or to its beginning if there was none. -/
theorem reset_restores_program (actions : List Action) :
    (∀ source errors, ((after actions).assemble source).1 = .error errors →
      after (actions ++ [.assemble source]) = after actions) ∧
      after (actions ++ [.reset]) = after (upToProgram actions) := by
  constructor
  · intro source errors h
    cases hs : Mos6502.assemble source with
    | ok output =>
      rw [assemble_of_ok hs] at h
      cases h
    | error errors' => rw [after_concat, Action.perform, assemble_of_error hs]
  · obtain ⟨hprogram, hboot⟩ := after_upToProgram actions
    rw [after_concat, Action.perform, reset, hprogram, ← hboot]

/-- A program that is overwritten comes back, and a source that is refused in between does not matter. -/
theorem reset_restores_program_overwritten :
    after [.assemble "RTS", .write 0 0xEA, .assemble "JMP nowhere", .step, .reset] = after [.assemble "RTS"] := by
  have hinstalls : (Action.assemble "RTS").installs = true := by decide +kernel
  have hrefused : (Action.assemble "JMP nowhere").installs = false := by decide +kernel
  have hrun := (reset_restores_program [.assemble "RTS", .write 0 0xEA, .assemble "JMP nowhere", .step]).2
  have hlast : upToProgram [.assemble "RTS", .write 0 0xEA, .assemble "JMP nowhere", .step] = [.assemble "RTS"] := by
    simp [upToProgram, List.rdropWhile, hinstalls, hrefused, show (Action.write 0 0xEA).installs = false from rfl,
      show Action.step.installs = false from rfl]
  rwa [hlast] at hrun

end Mos6502.Workbench
