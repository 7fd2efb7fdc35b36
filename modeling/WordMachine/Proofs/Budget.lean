import WordMachine.Proofs.Requests

/-!
What a budget buys. A session that is run twice has done what one run with both budgets does,
and a run takes the steps that its budget and the first halt allow, which it counts rightly.
-/
namespace WordMachine

namespace Session

theorem run_eq (s : Session) (budget : Int) :
    (s.run budget).1 =
      ⟨(s.machine.run budget.toNat).output, s.machine.executed budget.toNat,
        (s.machine.run budget.toNat).ending⟩ ∧
    (s.run budget).2.machine = s.machine.run budget.toNat ∧
    (s.run budget).2.stream = streamed s.stream s.machine (s.machine.run budget.toNat) := by
  rw [run_eq_after]
  exact ⟨rfl, machine_note _ _, stream_note _ _⟩

theorem name_ending (m : Machine) :
    m.ending.name = if m.halted then "halted" else "step_limit" := by
  unfold Machine.ending
  split <;> rfl

theorem run_run (s : Session) (a b : ℕ) :
    ((s.run a).2.run b).2.machine = (s.run ((a + b : ℕ) : Int)).2.machine ∧
    ((s.run a).2.run b).2.stream = (s.run ((a + b : ℕ) : Int)).2.stream ∧
    (s.run a).1.executed + ((s.run a).2.run b).1.executed =
      (s.run ((a + b : ℕ) : Int)).1.executed ∧
    ((s.run a).2.run b).1.output = (s.run ((a + b : ℕ) : Int)).1.output ∧
    ((s.run a).2.run b).1.ending = (s.run ((a + b : ℕ) : Int)).1.ending := by
  obtain ⟨hfirst, hmiddle, hreceived⟩ := s.run_eq a
  obtain ⟨hsecond, hlast, hlater⟩ := (s.run a).2.run_eq b
  obtain ⟨hboth, hend, hall⟩ := s.run_eq ((a + b : ℕ) : Int)
  simp only [Int.toNat_natCast] at *
  have hreach : s.machine.Before (s.machine.run a) := .run a s.machine
  have hon : (s.machine.run a).Before ((s.machine.run a).run b) := .run b (s.machine.run a)
  rw [hlast, hend, hlater, hall, hfirst, hsecond, hboth, hmiddle, Machine.run_add,
    Machine.executed_add]
  rw [hreceived, streamed_trans s.stream hreach hon]
  exact ⟨rfl, rfl, rfl, rfl, rfl⟩

theorem run_counts (s : Session) (limit : Int) :
    (s.run limit).2.machine = Machine.step^[(s.run limit).1.executed] s.machine ∧
    (s.run limit).2.machine.steps = s.machine.steps + (s.run limit).1.executed ∧
    (s.run limit).1.output = (s.run limit).2.machine.output ∧
    ((s.run limit).1.ending.name =
      if (s.run limit).2.machine.halted then "halted" else "step_limit") := by
  obtain ⟨hanswer, hmachine, -⟩ := s.run_eq limit
  have hiterate := Machine.run_eq_iterate limit.toNat s.machine
  rw [hanswer, hmachine, name_ending]
  refine ⟨hiterate, ?_, rfl, rfl⟩
  rw [hiterate, Machine.iterate_step_steps]

/-- Runs compose, and each takes the steps that its budget and the first halt allow: a negative
budget none, and a machine that has halted none. A halt is final and output only grows, whatever
is asked for. -/
theorem run_budget_laws (s : Session) :
    (∀ a b : ℕ,
      ((s.run a).2.run b).2.machine = (s.run ((a + b : ℕ) : Int)).2.machine ∧
      ((s.run a).2.run b).2.stream = (s.run ((a + b : ℕ) : Int)).2.stream ∧
      (s.run a).1.executed + ((s.run a).2.run b).1.executed =
        (s.run ((a + b : ℕ) : Int)).1.executed ∧
      ((s.run a).2.run b).1.output = (s.run ((a + b : ℕ) : Int)).1.output ∧
      ((s.run a).2.run b).1.ending = (s.run ((a + b : ℕ) : Int)).1.ending) ∧
    (∀ limit : Int,
      ((s.run limit).2.machine = Machine.step^[(s.run limit).1.executed] s.machine ∧
      (s.run limit).2.machine.steps = s.machine.steps + (s.run limit).1.executed ∧
      (s.run limit).1.output = (s.run limit).2.machine.output ∧
      (s.run limit).1.ending.name =
        if (s.run limit).2.machine.halted then "halted" else "step_limit") ∧
      (s.machine.halted = false →
        ((s.run limit).1.executed : ℕ∞) = min (limit.toNat : ℕ∞) s.machine.firstHalt) ∧
      (s.machine.halted = true →
        (s.run limit).1.executed = 0 ∧ (s.run limit).2.machine = s.machine ∧
          (s.run limit).2.stream = s.stream)) ∧
    ∀ requests : List Request,
      (s.machine.halted = true → (s.performAll requests).2.machine.halted = true) ∧
      ∃ more, (s.performAll requests).2.machine.output = s.machine.output ++ more := by
  refine ⟨s.run_run, fun limit => ⟨s.run_counts limit, ?_, ?_⟩, fun requests => ⟨?_, ?_⟩⟩
  · intro hrunning
    rw [(s.run_eq limit).1]
    exact Machine.executed_eq_min limit.toNat hrunning
  · intro hhalted
    have hstays := Machine.run_of_halted limit.toNat hhalted
    obtain ⟨hanswer, hmachine, hstream⟩ := s.run_eq limit
    rw [hstays] at hmachine hstream
    refine ⟨?_, hmachine, hstream.trans (streamed_of_emitted s.stream rfl)⟩
    rw [hanswer]
    exact Machine.executed_of_halted limit.toNat hhalted
  · exact (s.before_performAll requests).halted
  · exact ⟨_, output_of_before (s.before_performAll requests)⟩

def haltingSession : Session :=
  (start false false true).write 0 5

theorem haltingSession_operation : haltingSession.machine.instruction.operation = .halt := by
  have hword : haltingSession.machine.memory.read haltingSession.machine.pc = 5 :=
    Memory.read_write_self .zero 0 5
  rw [Machine.instruction_eq, hword]
  rfl

/-- A session that halts at once takes one step of ten, and none after that. -/
theorem run_budget_laws_halting :
    haltingSession.machine.halted = false ∧
    (haltingSession.run 10).1.executed = 1 ∧
    (haltingSession.run 10).2.machine.halted = true ∧
    ((haltingSession.run 10).2.run 7).1.executed = 0 := by
  have hrunning : haltingSession.machine.halted = false := rfl
  obtain ⟨-, hruns, -⟩ := run_budget_laws haltingSession
  obtain ⟨⟨hsteps, -, -, -⟩, hcount, -⟩ := hruns 10
  have hone : (haltingSession.run 10).1.executed = 1 := by
    have hmin := hcount hrunning
    have hbudget : (1 : ℕ∞) ≤ (Int.toNat 10 : ℕ∞) := by
      exact_mod_cast (by decide : 1 ≤ Int.toNat 10)
    rw [Machine.firstHalt_eq, if_pos haltingSession_operation, min_eq_right hbudget] at hmin
    exact_mod_cast hmin
  have hhalted : (haltingSession.run 10).2.machine.halted = true := by
    rw [hsteps, hone, Function.iterate_one, Machine.step_halted, haltingSession_operation]
    simp
  obtain ⟨-, hlater, -⟩ := run_budget_laws (haltingSession.run 10).2
  exact ⟨hrunning, hone, hhalted, ((hlater 7).2.2 hhalted).1⟩

end Session

end WordMachine
