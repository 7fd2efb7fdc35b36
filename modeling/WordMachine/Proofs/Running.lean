import Mathlib.Data.ENat.Lattice
import Mathlib.Logic.Function.Iterate
import WordMachine.Proofs.Stepping

/-!
Runs of the machine. A run is a number of steps, which its budget and the first halting step
decide between them, and so two runs after one another are one run.
-/
namespace WordMachine.Machine

theorem runFrom_eq (start budget : ℕ) (m : Machine) :
    runFrom start budget m = (start + executed budget m, run budget m) := by
  unfold run executed
  induction budget generalizing start m with
  | zero => rfl
  | succ budget ih =>
    simp only [runFrom]
    split
    · rfl
    · rw [ih (start + 1), ih (0 + 1)]
      simp only [Prod.mk.injEq, and_true]
      omega

@[simp] theorem run_zero (m : Machine) : run 0 m = m := rfl

@[simp] theorem executed_zero (m : Machine) : executed 0 m = 0 := rfl

theorem run_succ (budget : ℕ) (m : Machine) :
    run (budget + 1) m = if m.halted then m else run budget m.step := by
  rw [run, runFrom]
  split
  · rfl
  · rw [runFrom_eq]

theorem executed_succ (budget : ℕ) (m : Machine) :
    executed (budget + 1) m = if m.halted then 0 else executed budget m.step + 1 := by
  rw [executed, runFrom]
  split
  · rfl
  · rw [runFrom_eq, Nat.add_comm]

theorem run_of_halted (budget : ℕ) {m : Machine} (h : m.halted = true) : run budget m = m := by
  cases budget with
  | zero => rfl
  | succ budget => rw [run_succ, if_pos h]

theorem executed_of_halted (budget : ℕ) {m : Machine} (h : m.halted = true) :
    executed budget m = 0 := by
  cases budget with
  | zero => rfl
  | succ budget => rw [executed_succ, if_pos h]

theorem run_of_halt (budget : ℕ) {m : Machine} (hrunning : m.halted = false)
    (h : m.instruction.operation = .halt) :
    run (budget + 1) m = m.step ∧ executed (budget + 1) m = 1 ∧ m.step.halted = true := by
  have hhalted : m.step.halted = true := by
    rw [step_halted, h]
    exact Bool.or_true _
  rw [run_succ, executed_succ, hrunning, if_neg Bool.false_ne_true, if_neg Bool.false_ne_true,
    run_of_halted budget hhalted, executed_of_halted budget hhalted]
  exact ⟨rfl, rfl, hhalted⟩

theorem run_eq_iterate (budget : ℕ) (m : Machine) :
    run budget m = step^[executed budget m] m := by
  induction budget generalizing m with
  | zero => rfl
  | succ budget ih =>
    rw [run_succ, executed_succ]
    split
    · rfl
    · rw [ih, Function.iterate_succ_apply]

theorem executed_le (budget : ℕ) (m : Machine) : executed budget m ≤ budget := by
  induction budget generalizing m with
  | zero => exact Nat.le_refl 0
  | succ budget ih =>
    rw [executed_succ]
    split
    · omega
    · have hlater := ih m.step
      omega

theorem executed_of_running {budget : ℕ} {m : Machine}
    (h : ∀ i < budget, (step^[i] m).halted = false) : executed budget m = budget := by
  induction budget generalizing m with
  | zero => rfl
  | succ budget ih =>
    have hnow : m.halted = false := h 0 (Nat.succ_pos budget)
    have hlater : ∀ i < budget, (step^[i] m.step).halted = false := by
      intro i hi
      exact h (i + 1) (by omega)
    rw [executed_succ, hnow, if_neg Bool.false_ne_true, ih hlater]

theorem run_add (a b : ℕ) (m : Machine) : run (a + b) m = run b (run a m) := by
  induction a generalizing m with
  | zero => rw [Nat.zero_add, run_zero]
  | succ a ih =>
    rw [Nat.succ_add, run_succ, run_succ]
    split
    · next h => rw [run_of_halted b h]
    · rw [ih]

theorem executed_add (a b : ℕ) (m : Machine) :
    executed (a + b) m = executed a m + executed b (run a m) := by
  induction a generalizing m with
  | zero => rw [Nat.zero_add, executed_zero, run_zero, Nat.zero_add]
  | succ a ih =>
    rw [Nat.succ_add, executed_succ, executed_succ, run_succ]
    split
    · next h => rw [executed_of_halted b h]
    · rw [ih]
      omega

/-- A machine that halts with its `n`-th step takes no more of a budget than that. -/
theorem executed_of_halted_iterate {n : ℕ} {m : Machine}
    (hrunning : ∀ i < n, (step^[i] m).halted = false) (hhalted : (step^[n] m).halted = true)
    (budget : ℕ) : executed budget m = min budget n := by
  by_cases hle : budget ≤ n
  · rw [executed_of_running fun i hi => hrunning i (by omega), min_eq_left hle]
  · obtain ⟨more, rfl⟩ : ∃ more, budget = n + more := ⟨budget - n, by omega⟩
    have hsteps : executed n m = n := executed_of_running hrunning
    have hstops : executed more (run n m) = 0 := by
      apply executed_of_halted
      rw [run_eq_iterate, hsteps]
      exact hhalted
    rw [executed_add, hsteps, hstops]
    omega

theorem iterate_step_steps (n : ℕ) (m : Machine) : (step^[n] m).steps = m.steps + n := by
  induction n generalizing m with
  | zero => rfl
  | succ n ih =>
    rw [Function.iterate_succ_apply, ih, step_steps]
    omega

/-- The number of the first step that executes a halt, counted from 1. -/
noncomputable def firstHalt (m : Machine) : ℕ∞ :=
  ⨅ (k : ℕ) (_ : (step^[k] m).instruction.operation = .halt), ((k + 1 : ℕ) : ℕ∞)

theorem firstHalt_eq (m : Machine) :
    m.firstHalt = if m.instruction.operation = .halt then 1 else m.step.firstHalt + 1 := by
  have hsplit : m.firstHalt =
      (⨅ (_ : m.instruction.operation = .halt), (1 : ℕ∞)) ⊓ (m.step.firstHalt + 1) := by
    unfold firstHalt
    rw [← inf_iInf_nat_succ]
    simp only [ENat.iInf_add, Function.iterate_succ_apply, Function.iterate_zero_apply]
    norm_cast
  rw [hsplit]
  split
  · next h =>
    rw [iInf_pos h]
    exact inf_eq_left.mpr le_add_self
  · next h =>
    rw [iInf_neg h]
    exact top_inf_eq _

theorem executed_eq_min (budget : ℕ) {m : Machine} (h : m.halted = false) :
    (executed budget m : ℕ∞) = min (budget : ℕ∞) m.firstHalt := by
  induction budget generalizing m with
  | zero => simp
  | succ budget ih =>
    rw [executed_succ, h, if_neg Bool.false_ne_true, firstHalt_eq]
    by_cases hop : m.instruction.operation = .halt
    · have hhalted : m.step.halted = true := by simp [step_halted, hop]
      rw [executed_of_halted budget hhalted, if_pos hop]
      simp
    · have hrunning : m.step.halted = false := by simp [step_halted, h, hop]
      rw [if_neg hop, Nat.cast_add, ih hrunning, Nat.cast_add]
      exact (min_add_add_right (budget : ℕ∞) m.step.firstHalt 1).symm

end WordMachine.Machine
