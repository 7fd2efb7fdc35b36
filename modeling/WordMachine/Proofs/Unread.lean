import Mathlib.Data.Set.Insert
import WordMachine.Proofs.Reads

/-!
What a run does not read does not matter. Cells that no step of a run fetches from or reads through
memory may hold anything: the run is the same, what it writes to such a cell is the same, and where
it writes nothing each of these cells keeps its own word.
-/
namespace WordMachine

namespace Machine

/-- Machines that differ in nothing but the words of the cells in `S`. -/
def AgreeOutside (S : Set Word) : Machine → Machine → Prop :=
  Alike fun a v w => a ∉ S → w = v

/-- The next step fetches from a cell or reads it through memory. -/
def Reads (m : Machine) (a : Word) : Prop :=
  a ∈ m.fetchedCells ∨ a ∈ m.dereferencedCells

theorem overlooks_of_not_reads {m : Machine} {S : Set Word} (h : ∀ a ∈ S, ¬ m.Reads a) :
    m.Overlooks fun a v w => a ∉ S → w = v where
  opcode v w hsame := by
    have hpc : m.pc ∉ S := fun hmem => h m.pc hmem (.inl m.pc_mem_fetchedCells)
    rw [hsame hpc]
  others a ha v w hsame := by
    refine hsame fun hmem => h a hmem ?_
    rcases List.mem_append.mp ha with hfetched | hread
    · exact .inl (List.mem_of_mem_tail hfetched)
    · exact .inr hread

end Machine

namespace Session

open Machine

/-- Two runs from machines that agree outside of cells which the first one does not read have the
same outcome and agree outside of these cells again. The cells that are written to agree too, and
the others keep the words that they had in either machine. -/
theorem run_of_agreeOutside {S : Set Word} {s s' : Session} {limit : Int}
    (hagree : AgreeOutside S s.machine s'.machine)
    (hunread : ∀ i < (s.run limit).1.executed, ∀ a ∈ S, ¬ (Machine.step^[i] s.machine).Reads a) :
    (s'.run limit).1 = (s.run limit).1 ∧
    AgreeOutside S (s.run limit).2.machine (s'.run limit).2.machine ∧
    ∀ a,
      ((∃ i < (s.run limit).1.executed, (Machine.step^[i] s.machine).StoresAt a) →
        (s'.run limit).2.machine.memory.read a = (s.run limit).2.machine.memory.read a) ∧
      ((¬ ∃ i < (s.run limit).1.executed, (Machine.step^[i] s.machine).StoresAt a) →
        (s.run limit).2.machine.memory.read a = s.machine.memory.read a ∧
        (s'.run limit).2.machine.memory.read a = s'.machine.memory.read a) := by
  have hrefl : ∀ a w : Word, a ∉ S → w = w := fun _ _ _ => rfl
  have hoverlooks : ∀ i < (s.run limit).1.executed,
      (Machine.step^[i] s.machine).Overlooks fun a v w => a ∉ S → w = v :=
    fun i hi => overlooks_of_not_reads (hunread i hi)
  obtain ⟨houtcome, hfinal⟩ := run_of_alike hrefl hagree hoverlooks
  obtain ⟨hsteps, -⟩ := s.run_counts limit
  obtain ⟨hsteps', -⟩ := s'.run_counts limit
  rw [houtcome] at hsteps'
  refine ⟨houtcome, hfinal, fun a => ⟨?_, ?_⟩⟩
  · intro hstores
    rw [hsteps, hsteps']
    exact hagree.read_iterate_of_storesAt hrefl hoverlooks hstores
  · intro hnone
    have hkeeps : ∀ i < (s.run limit).1.executed, ¬ (Machine.step^[i] s.machine).StoresAt a :=
      fun i hi hstores => hnone ⟨i, hi, hstores⟩
    have hkeeps' : ∀ i < (s.run limit).1.executed, ¬ (Machine.step^[i] s'.machine).StoresAt a := by
      intro i hi hstores
      exact hkeeps i hi ((hagree.storesAt_iterate_iff hrefl hi hoverlooks a).mp hstores)
    rw [hsteps, hsteps']
    exact ⟨read_iterate_of_not_storesAt hkeeps, read_iterate_of_not_storesAt hkeeps'⟩

def copying : Session :=
  (((start false false false).write 0 0x1401).write 1 16).write 2 65

def disturbed : Session :=
  (copying.write 16 7).write 100 9

theorem read_copying (a : Word) : copying.machine.memory.read a =
    if 2 = a then 65 else if 1 = a then 16 else if 0 = a then 0x1401 else 0 := by
  have hblank : (start false false false).machine.memory.read a = 0 := Memory.read_zero a
  unfold copying
  rw [read_write, read_write, read_write, hblank]
  rfl

theorem instruction_copying : copying.machine.instruction = .decode 0x1401 := by
  rw [instruction_eq, read_copying]
  rfl

theorem executed_copying : (copying.run 1).1.executed = 1 := by
  have hrunning : copying.machine.halted = false := rfl
  rw [(copying.run_eq 1).1]
  change executed (0 + 1) copying.machine = 1
  rw [executed_succ, hrunning, executed_zero, if_neg Bool.false_ne_true]

theorem agreeOutside_disturbed :
    AgreeOutside {16, 100} copying.machine disturbed.machine where
  registers := sameRegisters_write (sameRegisters_write (.refl copying.machine) 16 7) 100 9
  cells a hout := by
    unfold disturbed
    rw [read_write, read_write, if_neg, if_neg]
    · rintro rfl
      exact hout (.inl rfl)
    · rintro rfl
      exact hout (.inr rfl)

theorem not_reads_copying : ∀ a ∈ ({16, 100} : Set Word), ¬ copying.machine.Reads a := by
  have hfetched : copying.machine.fetchedCells = [0, 1, 2] := by
    unfold fetchedCells
    rw [instruction_copying]
    rfl
  have hread : copying.machine.dereferencedCells = [] := by
    unfold dereferencedCells
    rw [instruction_copying]
    rfl
  unfold Reads
  rw [hfetched, hread]
  rintro a (rfl | rfl)
  · decide
  · decide

/-- The step writes to one of two cells that it does not read. There the machines meet again, and
in the other cell they stay apart. -/
theorem run_of_agreeOutside_disturbed :
    AgreeOutside {16, 100} copying.machine disturbed.machine ∧
    (∀ a ∈ ({16, 100} : Set Word), ¬ copying.machine.Reads a) ∧
    (disturbed.run 1).1 = (copying.run 1).1 ∧
    (disturbed.run 1).2.machine.memory.read 16 = (copying.run 1).2.machine.memory.read 16 ∧
    (copying.run 1).2.machine.memory.read 100 = 0 ∧
    (disturbed.run 1).2.machine.memory.read 100 = 9 := by
  have htarget : copying.machine.next.target = 16 := by
    rw [next_target, instruction_copying, read_copying]
    rfl
  have hback : copying.machine.instruction.writeBack = true := by
    rw [instruction_copying]
    rfl
  have hunread : ∀ i < (copying.run 1).1.executed, ∀ a ∈ ({16, 100} : Set Word),
      ¬ (Machine.step^[i] copying.machine).Reads a := by
    intro i hi
    rw [executed_copying] at hi
    obtain rfl : i = 0 := by omega
    exact not_reads_copying
  obtain ⟨houtcome, -, hcells⟩ := run_of_agreeOutside agreeOutside_disturbed hunread
  have hmeet := (hcells 16).1 ⟨0, by rw [executed_copying]; decide, hback, htarget⟩
  have hapart := (hcells 100).2 (by
    rintro ⟨i, hi, -, hstores⟩
    rw [executed_copying] at hi
    obtain rfl : i = 0 := by omega
    rw [Function.iterate_zero_apply, htarget] at hstores
    exact absurd hstores (by decide))
  refine ⟨agreeOutside_disturbed, not_reads_copying, houtcome, hmeet, ?_, ?_⟩
  · rw [hapart.1, read_copying]
    rfl
  · rw [hapart.2]
    unfold disturbed
    rw [read_write]
    rfl

end Session

end WordMachine
