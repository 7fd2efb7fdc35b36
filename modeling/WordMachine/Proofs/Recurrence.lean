import WordMachine.Proofs.Cells
import WordMachine.Proofs.Reads

/-!
States that come back. A step depends on the memory, the program counter, the slots and the
output register, and neither on the steps before it nor on what they emitted. So a machine that
finds itself in the same state after some steps goes round for ever: it never halts, spends every
budget, and emits the same bytes each time round.
-/
namespace WordMachine

namespace Machine

/-- Machines with the same memory and registers. What they have counted and emitted may differ. -/
structure SameState (m m' : Machine) : Prop where
  memory : m'.memory = m.memory
  pc : m'.pc = m.pc
  slots : m'.slots = m.slots
  out : m'.out = m.out

/-- What the next step emits. -/
def emission (m : Machine) : List UInt8 :=
  if m.instruction.operation = .poke then [(m.inputs .second).low] else []

def emissions : ℕ → Machine → List UInt8
  | 0, _ => []
  | n + 1, m => m.emission ++ emissions n m.step

theorem emitted_step (m : Machine) : m.step.emitted.toList = m.emitted.toList ++ m.emission := by
  rw [step_emitted]
  unfold emission
  split
  · exact Array.toList_push
  · exact (List.append_nil _).symm

theorem emitted_iterate (n : ℕ) (m : Machine) :
    (step^[n] m).emitted.toList = m.emitted.toList ++ emissions n m := by
  induction n generalizing m with
  | zero => exact (List.append_nil _).symm
  | succ n ih =>
    rw [Function.iterate_succ_apply, ih, emitted_step, List.append_assoc]
    rfl

theorem emissions_add (a b : ℕ) (m : Machine) :
    emissions (a + b) m = emissions a m ++ emissions b (step^[a] m) := by
  induction a generalizing m with
  | zero => rw [Nat.zero_add]; rfl
  | succ a ih =>
    rw [Nat.succ_add, Function.iterate_succ_apply]
    simp only [emissions, ih, List.append_assoc]

namespace SameState

variable {m m' m'' : Machine}

theorem refl (m : Machine) : m.SameState m :=
  ⟨rfl, rfl, rfl, rfl⟩

theorem trans (h : m.SameState m') (h' : m'.SameState m'') : m.SameState m'' where
  memory := h'.memory.trans h.memory
  pc := h'.pc.trans h.pc
  slots := h'.slots.trans h.slots
  out := h'.out.trans h.out

/-- As machines over cells they are told apart by what a step does not look at. -/
theorem cells_eq (h : m.SameState m') : m'.cells = { m.cells with
    halted := m'.halted
    steps := m'.steps
    emitted := m'.cells.emitted } := by
  have hslot : m'.slot = m.slot := by
    funext s
    unfold slot
    rw [h.slots]
  unfold cells
  rw [h.memory, h.pc, h.out, hslot]

theorem instruction_eq (h : m.SameState m') : m'.instruction = m.instruction := by
  rw [Machine.instruction_eq, Machine.instruction_eq, h.memory, h.pc]

theorem inputs_eq (h : m.SameState m') (s : Slot) : m'.inputs s = m.inputs s := by
  rw [← cells_inputs, h.cells_eq, ← cells_inputs]
  cases s <;> rfl

theorem step (h : m.SameState m') : m.step.SameState m'.step where
  memory := by
    have hmemory : m'.step.cells.memory = m.step.cells.memory := by
      rw [cells_step, cells_step, h.cells_eq]
      rfl
    exact Memory.ext_read (congrFun hmemory)
  pc := by
    change m'.step.cells.pc = m.step.cells.pc
    rw [cells_step, cells_step, h.cells_eq]
    rfl
  slots := by
    apply slots_ext
    intro s
    rw [step_slot, step_slot, h.inputs_eq]
  out := by
    change m'.step.cells.out = m.step.cells.out
    rw [cells_step, cells_step, h.cells_eq]
    rfl

theorem iterate (h : m.SameState m') (n : ℕ) :
    (Machine.step^[n] m).SameState (Machine.step^[n] m') := by
  induction n generalizing m m' with
  | zero => exact h
  | succ n ih => exact ih h.step

theorem emission_eq (h : m.SameState m') : m'.emission = m.emission := by
  unfold emission
  rw [h.instruction_eq, h.inputs_eq]

theorem emissions_eq (h : m.SameState m') (n : ℕ) : emissions n m' = emissions n m := by
  induction n generalizing m m' with
  | zero => rfl
  | succ n ih => rw [emissions, emissions, h.emission_eq, ih h.step]

end SameState

section

variable {m : Machine} {k : ℕ}

theorem sameState_iterate_mul (hback : m.SameState (step^[k] m)) (n : ℕ) :
    m.SameState (step^[n * k] m) := by
  induction n with
  | zero =>
    rw [Nat.zero_mul]
    exact .refl m
  | succ n ih =>
    rw [Nat.succ_mul, Function.iterate_add_apply]
    exact ih.trans (hback.iterate (n * k))

theorem emissions_mul (hback : m.SameState (step^[k] m)) (n : ℕ) :
    emissions (n * k) m = (List.replicate n (emissions k m)).flatten := by
  induction n with
  | zero =>
    rw [Nat.zero_mul]
    rfl
  | succ n ih =>
    -- the last round begins where the first did
    have hround : emissions k (step^[n * k] m) = emissions k m :=
      (sameState_iterate_mul hback n).emissions_eq k
    rw [Nat.succ_mul, emissions_add, hround, ih, List.replicate_succ', List.flatten_append]
    simp

theorem instruction_iterate_mod (hback : m.SameState (step^[k] m)) (i : ℕ) :
    (step^[i] m).instruction = (step^[i % k] m).instruction := by
  have hround := (sameState_iterate_mul hback (i / k)).iterate (i % k)
  rw [← Function.iterate_add_apply, Nat.mod_add_div'] at hround
  exact hround.instruction_eq

theorem running_iterate (hrunning : m.halted = false) (hpos : 0 < k)
    (hsteps : ∀ i < k, (step^[i] m).instruction.operation ≠ .halt)
    (hback : m.SameState (step^[k] m)) (n : ℕ) : (step^[n] m).halted = false := by
  induction n with
  | zero => exact hrunning
  | succ n ih =>
    -- the step to come is one of the first round again, and none of those halts
    have hother := hsteps (n % k) (Nat.mod_lt n hpos)
    rw [← instruction_iterate_mod hback] at hother
    rw [Function.iterate_succ_apply', step_halted, ih]
    simpa using hother

end

end Machine

namespace Session

open Machine

theorem characters_emitted (m : Machine) : characters m.emitted.toList = m.output := rfl

theorem characters_replicate (n : ℕ) (bytes : List UInt8) :
    characters (List.replicate n bytes).flatten =
      String.join (List.replicate n (characters bytes)) := by
  induction n with
  | zero => rfl
  | succ n ih =>
    rw [List.replicate_succ, List.replicate_succ, List.flatten_cons, characters_append, ih]
    simp [String.join_cons]

/-- A session whose machine comes to the same state again after `k` steps, none of which halts
it, goes on for ever. Whatever its budget, a run spends it and ends with it, and after every round
of `k` steps the machine is in that state once more and has emitted the same bytes once more. -/
theorem run_of_recurrence {s : Session} {k : ℕ} (hrunning : s.machine.halted = false)
    (hpos : 0 < k)
    (hsteps : ∀ i < k, (Machine.step^[i] s.machine).instruction.operation ≠ .halt)
    (hback : s.machine.SameState (Machine.step^[k] s.machine)) :
    (∀ limit : ℕ,
      (s.run limit).1.executed = limit ∧ (s.run limit).1.ending.name = "step_limit" ∧
      (s.run limit).2.machine = Machine.step^[limit] s.machine ∧
      (s.run limit).2.machine.halted = false) ∧
    ∃ bytes : List UInt8,
      (Machine.step^[k] s.machine).emitted.toList = s.machine.emitted.toList ++ bytes ∧
      ∀ n : ℕ,
        s.machine.SameState (Machine.step^[n * k] s.machine) ∧
        (Machine.step^[n * k] s.machine).emitted.toList =
          s.machine.emitted.toList ++ (List.replicate n bytes).flatten ∧
        (s.run ((n * k : ℕ) : Int)).1.output =
          s.machine.output ++ String.join (List.replicate n (characters bytes)) := by
  have hforever := running_iterate hrunning hpos hsteps hback
  have hruns : ∀ limit : ℕ,
      (s.run limit).1.executed = limit ∧ (s.run limit).1.ending.name = "step_limit" ∧
      (s.run limit).2.machine = Machine.step^[limit] s.machine ∧
      (s.run limit).2.machine.halted = false := by
    intro limit
    obtain ⟨hmachine, -, -, hending⟩ := s.run_counts limit
    have hexecuted : (s.run limit).1.executed = limit := by
      rw [(s.run_eq limit).1]
      exact executed_of_running fun i _ => hforever i
    rw [hexecuted] at hmachine
    have hstill : (s.run limit).2.machine.halted = false := by
      rw [hmachine]
      exact hforever limit
    refine ⟨hexecuted, ?_, hmachine, hstill⟩
    rw [hending, hstill]
    rfl
  refine ⟨hruns, emissions k s.machine, emitted_iterate k s.machine, fun n => ?_⟩
  have hemitted : (Machine.step^[n * k] s.machine).emitted.toList =
      s.machine.emitted.toList ++ (List.replicate n (emissions k s.machine)).flatten := by
    rw [emitted_iterate, emissions_mul hback]
  refine ⟨sameState_iterate_mul hback n, hemitted, ?_⟩
  obtain ⟨-, -, houtput, -⟩ := s.run_counts ((n * k : ℕ) : Int)
  rw [houtput, (hruns (n * k)).2.2.1, ← characters_replicate, ← characters_emitted, hemitted,
    characters_append, characters_emitted]

def chattering : Session :=
  (((start false false true).write 0 0x2004).write 2 65).write 3 0x2003

theorem sameState_chattering :
    chattering.machine.SameState (Machine.step^[2] chattering.machine) where
  memory := by
    have hfirst : chattering.machine.instruction.writeBack = false := by decide +kernel
    have hsecond : chattering.machine.step.instruction.writeBack = false := by decide +kernel
    change chattering.machine.step.step.memory = chattering.machine.memory
    rw [step_memory, hsecond, step_memory, hfirst]
    rfl
  pc := by decide +kernel
  slots := by decide +kernel
  out := by decide +kernel

/-- The program is back at its beginning after two steps. A budget of seven is spent in the middle
of the fourth round, and three rounds emit three letters. -/
theorem run_of_recurrence_chattering :
    chattering.machine.halted = false ∧
    (∀ i < 2, (Machine.step^[i] chattering.machine).instruction.operation ≠ .halt) ∧
    chattering.machine.SameState (Machine.step^[2] chattering.machine) ∧
    (chattering.run 7).1.executed = 7 ∧
    (chattering.run 7).1.ending.name = "step_limit" ∧
    (Machine.step^[6] chattering.machine).emitted.toList = [65, 65, 65] := by
  have hrunning : chattering.machine.halted = false := rfl
  have hsteps : ∀ i < 2,
      (Machine.step^[i] chattering.machine).instruction.operation ≠ .halt := by
    decide +kernel
  obtain ⟨hruns, bytes, hround, hrounds⟩ :=
    run_of_recurrence hrunning (by decide) hsteps sameState_chattering
  have hletter : (Machine.step^[2] chattering.machine).emitted.toList = [65] := by decide +kernel
  have hbytes : bytes = [65] := hround.symm.trans hletter
  have hthree := (hrounds 3).2.1
  rw [hbytes] at hthree
  exact ⟨hrunning, hsteps, sameState_chattering, (hruns 7).1, (hruns 7).2.1, hthree⟩

end Session

end WordMachine
