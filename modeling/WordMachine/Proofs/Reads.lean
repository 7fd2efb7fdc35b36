import WordMachine.Proofs.Budget

/-!
What a step reads. It fetches from consecutive cells and reads the slots that its instruction says
through memory, and two machines with the same registers whose cells are alike take the same step as
long as what sets their cells apart is not read. So runs that overlook the differences keep them.
-/
namespace WordMachine

/-- Machines with the same registers, counters and output. -/
structure Machine.SameRegisters (m m' : Machine) : Prop where
  pc : m'.pc = m.pc
  slots : m'.slots = m.slots
  out : m'.out = m.out
  halted : m'.halted = m.halted
  steps : m'.steps = m.steps
  emitted : m'.emitted = m.emitted

namespace Machine

theorem SameRegisters.refl (m : Machine) : m.SameRegisters m :=
  ⟨rfl, rfl, rfl, rfl, rfl, rfl⟩

/-- The cells from which the next step fetches, in order. The first holds the instruction word. -/
def fetchedCells (m : Machine) : List Word :=
  (List.range m.instruction.length.toNat).map fun k => m.pc + UInt16.ofNat k

/-- The cells from which the next step replaces slots, in order. -/
def dereferencedCells (m : Machine) : List Word :=
  ([.first, .second, .third].filter m.instruction.reads).map m.loaded

theorem next_words_eq_map_read (m : Machine) :
    m.next.words = m.fetchedCells.map m.memory.read := by
  rw [next_words, fetchedCells, List.map_map]
  rfl

/-- The trace shows each cell that is read through memory, with its word. -/
theorem readEvents_eq (m : Machine) :
    readEvents m.fetchInstruction.2 m.ready m.instruction =
      m.dereferencedCells.map fun a => .read (m.memory.read a) a := by
  have hinput : ∀ s, m.instruction.reads s = true →
      m.ready.slot s = m.memory.read (m.loaded s) := by
    intro s hs
    exact (m.inputs_eq s).trans (if_pos hs)
  have hfirst := hinput .first
  have hsecond := hinput .second
  unfold readEvents dereferencedCells
  simp only [Instruction.reads] at hfirst hsecond
  cases hone : m.instruction.readFirst <;> cases htwo : m.instruction.readSecond <;>
    simp_all [Instruction.reads, loaded]

theorem add_ofNat_mem_tail_fetchedCells {m : Machine} {k : ℕ} (hpos : 0 < k)
    (hk : k < m.instruction.length.toNat) : m.pc + UInt16.ofNat k ∈ m.fetchedCells.tail := by
  obtain ⟨n, hn⟩ : ∃ n, m.instruction.length.toNat = n + 1 := ⟨_, (Nat.succ_pred (by omega)).symm⟩
  obtain ⟨j, rfl⟩ : ∃ j, k = j + 1 := ⟨k - 1, by omega⟩
  unfold fetchedCells
  rw [hn, List.range_succ_eq_map, List.map_cons, List.tail_cons, List.map_map]
  exact List.mem_map.mpr ⟨j, List.mem_range.mpr (by omega), rfl⟩

theorem pc_mem_fetchedCells (m : Machine) : m.pc ∈ m.fetchedCells := by
  have hlength := m.length_eq
  refine List.mem_map.mpr ⟨0, List.mem_range.mpr (by omega), ?_⟩
  simp

theorem loaded_mem_dereferencedCells {m : Machine} {s : Slot} (h : m.instruction.reads s = true) :
    m.loaded s ∈ m.dereferencedCells := by
  refine List.mem_map.mpr ⟨s, List.mem_filter.mpr ⟨?_, h⟩, rfl⟩
  cases s <;> simp

/-- Machines that may be told apart only by words of their cells that `alike` relates. -/
structure Alike (alike : Word → Word → Word → Prop) (m m' : Machine) : Prop where
  registers : m.SameRegisters m'
  cells : ∀ a, alike a (m.memory.read a) (m'.memory.read a)

/-- The next step takes alike words for the same: the instruction word for what it decodes to, the
others as they are. -/
structure Overlooks (m : Machine) (alike : Word → Word → Word → Prop) : Prop where
  opcode : ∀ v w, alike m.pc v w → Instruction.decode w = Instruction.decode v
  others : ∀ a ∈ m.fetchedCells.tail ++ m.dereferencedCells, ∀ v w, alike a v w → w = v

/-- The next step writes to a cell. -/
def StoresAt (m : Machine) (a : Word) : Prop :=
  m.instruction.writeBack = true ∧ m.next.target = a

instance (m : Machine) (a : Word) : Decidable (m.StoresAt a) :=
  inferInstanceAs (Decidable (_ ∧ _))

theorem read_step (m : Machine) (a : Word) :
    m.step.memory.read a = if m.StoresAt a then m.result else m.memory.read a := by
  rw [step_memory]
  by_cases hback : m.instruction.writeBack = true
  · simp only [StoresAt, hback, if_true, true_and, Memory.read_write]
  · rw [if_neg hback, if_neg fun h : m.StoresAt a => hback h.1]

theorem read_iterate_of_not_storesAt {m : Machine} {a : Word} {n : ℕ}
    (h : ∀ i < n, ¬ (step^[i] m).StoresAt a) : (step^[n] m).memory.read a = m.memory.read a := by
  induction n with
  | zero => rfl
  | succ n ih =>
    rw [Function.iterate_succ_apply', read_step, if_neg (h n (Nat.lt_succ_self n))]
    exact ih fun i hi => h i (by omega)

theorem slots_ext {m m' : Machine} (h : ∀ s, m'.slot s = m.slot s) : m'.slots = m.slots := by
  apply Vector.ext
  intro k hk
  have hk' : k = 0 ∨ k = 1 ∨ k = 2 := by omega
  rcases hk' with rfl | rfl | rfl
  · exact h .first
  · exact h .second
  · exact h .third

namespace Alike

variable {alike : Word → Word → Word → Prop} {m m' : Machine}

theorem instruction_eq (h : Alike alike m m') (ho : m.Overlooks alike) :
    m'.instruction = m.instruction := by
  rw [Machine.instruction_eq, Machine.instruction_eq, h.registers.pc]
  exact ho.opcode _ _ (h.cells m.pc)

theorem read_pc_add (h : Alike alike m m') (ho : m.Overlooks alike) {k : ℕ} (hpos : 0 < k)
    (hk : k < m.instruction.length.toNat) :
    m'.memory.read (m'.pc + UInt16.ofNat k) = m.memory.read (m.pc + UInt16.ofNat k) := by
  rw [h.registers.pc]
  have hmem := List.mem_append_left m.dereferencedCells (add_ofNat_mem_tail_fetchedCells hpos hk)
  exact ho.others _ hmem _ _ (h.cells _)

theorem next_target_eq (h : Alike alike m m') (ho : m.Overlooks alike) :
    m'.next.target = m.next.target := by
  rw [next_target, next_target, h.instruction_eq ho]
  cases hback : m.instruction.writeBack with
  | false => rfl
  | true =>
    have hlength := m.length_eq
    rw [hback] at hlength
    exact h.read_pc_add ho (k := 1) (by decide) (by simp only [Bool.toNat_true] at hlength; omega)

theorem loaded_eq (h : Alike alike m m') (ho : m.Overlooks alike) (s : Slot) :
    m'.loaded s = m.loaded s := by
  rw [Machine.loaded_eq, Machine.loaded_eq, h.instruction_eq ho]
  split
  · next hcount =>
    have hlength := m.length_eq
    exact h.read_pc_add ho (by omega) (by omega)
  · unfold slot
    rw [h.registers.slots]

theorem inputs_eq (h : Alike alike m m') (ho : m.Overlooks alike) (s : Slot) :
    m'.inputs s = m.inputs s := by
  rw [Machine.inputs_eq, Machine.inputs_eq, h.instruction_eq ho, h.loaded_eq ho]
  split
  · next hreads =>
    have hmem := List.mem_append_right m.fetchedCells.tail (loaded_mem_dereferencedCells hreads)
    exact ho.others _ hmem _ _ (h.cells _)
  · rfl

theorem result_eq (h : Alike alike m m') (ho : m.Overlooks alike) : m'.result = m.result := by
  unfold result
  rw [h.instruction_eq ho, h.inputs_eq ho, h.inputs_eq ho, h.registers.out]

theorem storesAt_iff (h : Alike alike m m') (ho : m.Overlooks alike) (a : Word) :
    m'.StoresAt a ↔ m.StoresAt a := by
  unfold StoresAt
  rw [h.instruction_eq ho, h.next_target_eq ho]

theorem step_registers (h : Alike alike m m') (ho : m.Overlooks alike) :
    m.step.SameRegisters m'.step where
  pc := by
    have hjumps : m'.Jumps ↔ m.Jumps := by
      unfold Jumps
      rw [h.instruction_eq ho, h.inputs_eq ho]
    simp only [step_pc, hjumps, h.instruction_eq ho, h.inputs_eq ho, h.registers.pc]
  slots := by
    apply slots_ext
    intro s
    rw [step_slot, step_slot, h.inputs_eq ho]
  out := by rw [step_out, step_out, h.result_eq ho]
  halted := by rw [step_halted, step_halted, h.instruction_eq ho, h.registers.halted]
  steps := by rw [step_steps, step_steps, h.registers.steps]
  emitted := by
    rw [step_emitted, step_emitted, h.instruction_eq ho, h.inputs_eq ho, h.registers.emitted]

theorem step (hrefl : ∀ a w, alike a w w) (h : Alike alike m m') (ho : m.Overlooks alike) :
    Alike alike m.step m'.step where
  registers := h.step_registers ho
  cells a := by
    rw [read_step, read_step]
    simp only [h.storesAt_iff ho, h.result_eq ho]
    split
    · exact hrefl a m.result
    · exact h.cells a

theorem iterate (hrefl : ∀ a w, alike a w w) (h : Alike alike m m') {n : ℕ}
    (ho : ∀ i < n, (Machine.step^[i] m).Overlooks alike) :
    Alike alike (Machine.step^[n] m) (Machine.step^[n] m') := by
  induction n with
  | zero => exact h
  | succ n ih =>
    rw [Function.iterate_succ_apply', Function.iterate_succ_apply']
    exact (ih fun i hi => ho i (by omega)).step hrefl (ho n (Nat.lt_succ_self n))

theorem executed_eq (hrefl : ∀ a w, alike a w w) (h : Alike alike m m') {budget : ℕ}
    (ho : ∀ i < executed budget m, (Machine.step^[i] m).Overlooks alike) :
    executed budget m' = executed budget m := by
  induction budget generalizing m m' with
  | zero => rfl
  | succ budget ih =>
    rw [executed_succ] at ho
    rw [executed_succ, executed_succ, h.registers.halted]
    split
    · rfl
    · next hrunning =>
      rw [if_neg hrunning] at ho
      rw [ih (h.step hrefl (ho 0 (by omega))) fun i hi => ho (i + 1) (by omega)]

theorem run (hrefl : ∀ a w, alike a w w) (h : Alike alike m m') {budget : ℕ}
    (ho : ∀ i < executed budget m, (Machine.step^[i] m).Overlooks alike) :
    Alike alike (Machine.run budget m) (Machine.run budget m') := by
  rw [run_eq_iterate, run_eq_iterate, h.executed_eq hrefl ho]
  exact h.iterate hrefl ho

theorem read_iterate_of_storesAt (hrefl : ∀ a w, alike a w w) (h : Alike alike m m') {n : ℕ}
    (ho : ∀ i < n, (Machine.step^[i] m).Overlooks alike) {a : Word}
    (hstores : ∃ i < n, (Machine.step^[i] m).StoresAt a) :
    (Machine.step^[n] m').memory.read a = (Machine.step^[n] m).memory.read a := by
  induction n with
  | zero =>
    obtain ⟨i, hi, -⟩ := hstores
    omega
  | succ n ih =>
    have hearlier : ∀ i < n, (Machine.step^[i] m).Overlooks alike := fun i hi => ho i (by omega)
    have hlast := ho n (Nat.lt_succ_self n)
    have hbefore := h.iterate hrefl hearlier
    rw [Function.iterate_succ_apply', Function.iterate_succ_apply', read_step, read_step]
    simp only [hbefore.storesAt_iff hlast, hbefore.result_eq hlast]
    split
    · rfl
    · next hnone =>
      -- the write was before the last step, which leaves the cell as it is
      obtain ⟨i, hi, hi'⟩ := hstores
      refine ih hearlier ⟨i, ?_, hi'⟩
      rcases Nat.lt_succ_iff_lt_or_eq.mp hi with hlt | rfl
      · exact hlt
      · exact absurd hi' hnone

theorem storesAt_iterate_iff (hrefl : ∀ a w, alike a w w) (h : Alike alike m m') {i n : ℕ}
    (hi : i < n) (ho : ∀ i < n, (Machine.step^[i] m).Overlooks alike) (a : Word) :
    (Machine.step^[i] m').StoresAt a ↔ (Machine.step^[i] m).StoresAt a :=
  (h.iterate hrefl fun j hj => ho j (by omega)).storesAt_iff (ho i hi) a

end Alike

end Machine

namespace Session

theorem sameRegisters_write {m : Machine} {s : Session} (h : m.SameRegisters s.machine)
    (address value : Int) : m.SameRegisters (s.write address value).machine :=
  ⟨h.pc, h.slots, h.out, h.halted, h.steps, h.emitted⟩

theorem read_write (s : Session) (address value : Int) (a : Word) :
    (s.write address value).machine.memory.read a =
      if UInt16.ofInt address = a then UInt16.ofInt value else s.machine.memory.read a :=
  Memory.read_write _ _ _ _

/-- A run whose steps overlook the differences has the same outcome and leaves alike cells. -/
theorem run_of_alike {alike : Word → Word → Word → Prop} (hrefl : ∀ a w, alike a w w)
    {s s' : Session} (h : s.machine.Alike alike s'.machine) {limit : Int}
    (ho : ∀ i < (s.run limit).1.executed, (Machine.step^[i] s.machine).Overlooks alike) :
    (s'.run limit).1 = (s.run limit).1 ∧
    (s.run limit).2.machine.Alike alike (s'.run limit).2.machine := by
  obtain ⟨hanswer, hmachine, -⟩ := s.run_eq limit
  obtain ⟨hanswer', hmachine', -⟩ := s'.run_eq limit
  rw [hanswer] at ho
  have hrun := h.run hrefl ho
  have hexecuted := h.executed_eq hrefl ho
  have houtput : (s'.machine.run limit.toNat).output = (s.machine.run limit.toNat).output := by
    unfold Machine.output
    rw [hrun.registers.emitted]
  have hending : (s'.machine.run limit.toNat).ending = (s.machine.run limit.toNat).ending := by
    unfold Machine.ending
    rw [hrun.registers.halted]
  rw [hanswer, hanswer', hmachine, hmachine', houtput, hexecuted, hending]
  exact ⟨rfl, hrun⟩

end Session

end WordMachine
