import Mathlib.Data.Nat.Notation
import WordMachine.Machine

/-!
What one step of the machine does, field by field. The words of an instruction are fetched
one after the other; here each of them is read at its own distance from the program counter,
and every later argument about steps starts from these equations.
-/
namespace WordMachine

namespace Machine

theorem add_ofNat_succ (a : Word) (k : ℕ) :
    a + 1 + UInt16.ofNat k = a + UInt16.ofNat (k + 1) := by
  rw [UInt16.ofNat_add, UInt16.add_comm (UInt16.ofNat k), ← UInt16.add_assoc]
  rfl

theorem fetchOperands_snd (slot count : ℕ) (m : Machine) :
    (fetchOperands slot count m).2 =
      { m with
        pc := m.pc + UInt16.ofNat count
        slots := (fetchOperands slot count m).2.slots } := by
  induction count generalizing slot m with
  | zero => simp [fetchOperands]
  | succ count ih =>
    simp only [fetchOperands, fetch]
    rw [ih]
    simp only [add_ofNat_succ]

theorem fetchOperands_fst (slot count : ℕ) (m : Machine) :
    (fetchOperands slot count m).1 =
      (List.range count).map fun k => m.memory.read (m.pc + UInt16.ofNat k) := by
  induction count generalizing slot m with
  | zero => rfl
  | succ count ih =>
    simp only [fetchOperands, fetch, ih, List.range_succ_eq_map, List.map_cons, List.map_map]
    congr 1
    · simp
    · apply List.map_congr_left
      intro k _
      simp only [Function.comp_apply, add_ofNat_succ]

/-- A slot that is reached holds its operand word, the others keep what they hold. -/
theorem fetchOperands_slot (first count : ℕ) (m : Machine) (s : Slot) :
    (fetchOperands first count m).2.slot s =
      if first ≤ s.index ∧ s.index < first + count then
        m.memory.read (m.pc + UInt16.ofNat (s.index - first))
      else m.slot s := by
  induction count generalizing first m with
  | zero =>
    rw [if_neg (by omega)]
    rfl
  | succ count ih =>
    simp only [fetchOperands, fetch, ih]
    by_cases hfirst : first = s.index
    · subst hfirst
      rw [if_neg (by omega), if_pos (by omega), Nat.sub_self]
      refine (Vector.getElem_setIfInBounds s.index_lt).trans ?_
      simp
    · by_cases hlater : first + 1 ≤ s.index ∧ s.index < first + 1 + count
      · have hdist : s.index - (first + 1) + 1 = s.index - first := by omega
        rw [if_pos hlater, if_pos (by omega), add_ofNat_succ, hdist]
      · rw [if_neg hlater, if_neg (by omega)]
        exact (Vector.getElem_setIfInBounds s.index_lt).trans (if_neg hfirst)

theorem instruction_eq (m : Machine) : m.instruction = .decode (m.memory.read m.pc) := rfl

theorem length_eq (m : Machine) : m.instruction.length.toNat =
    1 + m.instruction.writeBack.toNat + m.instruction.argumentCount.toNat := by
  have := Instruction.argumentCount_decode_nonneg (m.memory.read m.pc)
  rw [← instruction_eq] at this
  simp only [Instruction.length]
  omega

theorem fetchTarget_snd (m : Machine) (i : Instruction) :
    (m.fetchTarget i).2 = { m with pc := m.pc + UInt16.ofNat i.writeBack.toNat } := by
  unfold fetchTarget
  cases i.writeBack
  · simp
  · rfl

/-- The operand words are fetched behind the instruction word and the address it writes to. -/
theorem fetchInstruction_eq (m : Machine) :
    m.fetchInstruction =
      let first := m.pc + UInt16.ofNat (1 + m.instruction.writeBack.toNat)
      let r := fetchOperands 0 m.instruction.argumentCount.toNat { m with pc := first }
      (⟨m.memory.read m.pc, m.next.target, r.1⟩, r.2) := by
  unfold next fetchInstruction
  simp only [fetch, fetchTarget_snd]
  rw [add_ofNat_succ, Nat.add_comm]
  rfl

theorem next_target (m : Machine) :
    m.next.target = if m.instruction.writeBack then m.memory.read (m.pc + 1) else 0 := by
  change (fetchTarget _ m.instruction).1 = _
  unfold fetchTarget
  cases m.instruction.writeBack <;> rfl

theorem next_operands (m : Machine) :
    m.next.operands = (List.range m.instruction.argumentCount.toNat).map fun k =>
      m.memory.read (m.pc + UInt16.ofNat (1 + m.instruction.writeBack.toNat + k)) := by
  unfold next
  rw [fetchInstruction_eq]
  simp only [fetchOperands_fst]
  apply List.map_congr_left
  intro k _
  rw [UInt16.add_assoc, ← UInt16.ofNat_add]

theorem next_words (m : Machine) :
    m.next.words = (List.range m.instruction.length.toNat).map fun k =>
      m.memory.read (m.pc + UInt16.ofNat k) := by
  have hwords : m.next.words = m.memory.read m.pc ::
      (if m.instruction.writeBack then [m.next.target] else []) ++ m.next.operands := rfl
  have hhead : (List.range (1 + m.instruction.writeBack.toNat)).map (fun k =>
      m.memory.read (m.pc + UInt16.ofNat k)) =
        m.memory.read m.pc :: if m.instruction.writeBack then [m.next.target] else [] := by
    rw [next_target]
    cases m.instruction.writeBack <;> simp [List.range_succ]
  rw [length_eq, List.range_add, List.map_append, hhead, List.map_map, hwords, next_operands]
  rfl

theorem fetchInstruction_snd (m : Machine) :
    m.fetchInstruction.2 =
      { m with
        pc := m.pc + UInt16.ofNat m.instruction.length.toNat
        slots := m.fetchInstruction.2.slots } := by
  rw [fetchInstruction_eq]
  dsimp only
  rw [fetchOperands_snd]
  dsimp only
  rw [UInt16.add_assoc, ← UInt16.ofNat_add, ← length_eq]

theorem dereference_eq (m : Machine) (i : Instruction) :
    m.dereference i = { m with slots := (m.dereference i).slots } := by
  unfold dereference dereferenceSlot
  cases i.readFirst <;> cases i.readSecond <;> rfl

theorem slot_dereferenceSlot (m : Machine) (s t : Slot) :
    (m.dereferenceSlot s).slot t = if s = t then m.memory.read (m.slot s) else m.slot t := by
  by_cases hst : s = t
  · subst hst
    rw [if_pos rfl]
    exact (Vector.getElem_set s.index_lt s.index_lt).trans (if_pos rfl)
  · have hindex : s.index ≠ t.index := by
      cases s <;> cases t <;> simp_all [Slot.index]
    rw [if_neg hst]
    exact (Vector.getElem_set s.index_lt t.index_lt).trans (if_neg hindex)

end Machine

def Instruction.reads (i : Instruction) : Slot → Bool
  | .first => i.readFirst
  | .second => i.readSecond
  | .third => false

namespace Machine

theorem slot_dereference (m : Machine) (i : Instruction) (s : Slot) :
    (m.dereference i).slot s = if i.reads s then m.memory.read (m.slot s) else m.slot s := by
  have hmemory : ∀ t, (m.dereferenceSlot t).memory = m.memory := fun _ => rfl
  unfold dereference Instruction.reads
  cases i.readFirst <;> cases i.readSecond <;> cases s <;> simp [slot_dereferenceSlot, hmemory]

theorem execute_eq (m : Machine) (o : Operation) : m.execute o = { m with
    pc := if o = .jumpIfZero ∧ m.slot .second = 0 then m.slot .first else m.pc
    out := match o with
      | .copy => m.slot .first
      | .add => m.slot .first + m.slot .second
      | _ => m.out
    halted := m.halted || o = .halt
    emitted := if o = .poke then m.emitted.push (m.slot .second).low else m.emitted } := by
  cases o with
  | jumpIfZero =>
    by_cases hzero : m.slot .second = 0
    · simp [execute, hzero]
    · simp [execute, hzero]
  | poke => simp [execute, poke]
  | _ => simp [execute]

/-- What a slot holds once the operands of the next instruction are fetched. -/
def loaded (m : Machine) (s : Slot) : Word :=
  m.fetchInstruction.2.slot s

/-- The operands go to the slots in order. The slots behind the last operand keep what they
hold. -/
theorem loaded_eq (m : Machine) (s : Slot) :
    m.loaded s =
      if (s.index : Int) < m.instruction.argumentCount then
        m.memory.read (m.pc + UInt16.ofNat (1 + m.instruction.writeBack.toNat + s.index))
      else m.slot s := by
  have hiff : (0 ≤ s.index ∧ s.index < 0 + m.instruction.argumentCount.toNat) ↔
      (s.index : Int) < m.instruction.argumentCount := by omega
  unfold loaded
  rw [fetchInstruction_eq]
  dsimp only
  rw [fetchOperands_slot]
  simp only [hiff, Nat.sub_zero]
  rw [UInt16.add_assoc, ← UInt16.ofNat_add]
  rfl

def ready (m : Machine) : Machine :=
  m.fetchInstruction.2.dereference m.instruction

def inputs (m : Machine) (s : Slot) : Word :=
  m.ready.slot s

theorem inputs_eq (m : Machine) (s : Slot) : m.inputs s =
    if m.instruction.reads s then m.memory.read (m.loaded s) else m.loaded s := by
  have hmemory : m.fetchInstruction.2.memory = m.memory := by rw [fetchInstruction_snd]
  unfold inputs ready
  rw [slot_dereference, hmemory]
  rfl

def result (m : Machine) : Word :=
  match m.instruction.operation with
  | .copy => m.inputs .first
  | .add => m.inputs .first + m.inputs .second
  | _ => m.out

/-- The next instruction jumps, to the address in the first slot. -/
def Jumps (m : Machine) : Prop :=
  m.instruction.operation = .jumpIfZero ∧ m.inputs .second = 0

instance (m : Machine) : Decidable m.Jumps :=
  inferInstanceAs (Decidable (_ ∧ _))

theorem step_eq (m : Machine) : m.step = {
    memory := if m.instruction.writeBack then m.memory.write m.next.target m.result else m.memory
    pc := if m.Jumps then m.inputs .first else m.pc + UInt16.ofNat m.instruction.length.toNat
    slots := m.ready.slots
    out := m.result
    halted := m.halted || m.instruction.operation = .halt
    steps := m.steps + 1
    emitted :=
      if m.instruction.operation = .poke then m.emitted.push (m.inputs .second).low
      else m.emitted } := by
  have hready : m.fetchInstruction.2.dereference m.instruction =
      { m with
        pc := m.pc + UInt16.ofNat m.instruction.length.toNat
        slots := m.ready.slots } := by
    calc
      _ = { m.fetchInstruction.2 with slots := m.ready.slots } := dereference_eq _ _
      _ = _ := by rw [fetchInstruction_snd]
  have hstep : m.step =
      let done := (m.fetchInstruction.2.dereference m.instruction).execute m.instruction.operation
      let stored := if m.instruction.writeBack then done.store m.next.target done.out else done
      { stored with steps := stored.steps + 1 } := rfl
  rw [hstep, hready, execute_eq]
  cases m.instruction.writeBack <;> rfl

theorem step_memory (m : Machine) : m.step.memory =
    if m.instruction.writeBack then m.memory.write m.next.target m.result else m.memory := by
  rw [step_eq]

theorem step_pc (m : Machine) : m.step.pc =
    if m.Jumps then m.inputs .first else m.pc + UInt16.ofNat m.instruction.length.toNat := by
  rw [step_eq]

@[simp] theorem step_slot (m : Machine) (s : Slot) : m.step.slot s = m.inputs s := by
  rw [step_eq]
  rfl

@[simp] theorem step_out (m : Machine) : m.step.out = m.result := by
  rw [step_eq]

theorem step_halted (m : Machine) :
    m.step.halted = (m.halted || m.instruction.operation = .halt) := by
  rw [step_eq]

@[simp] theorem step_steps (m : Machine) : m.step.steps = m.steps + 1 := by
  rw [step_eq]

theorem step_emitted (m : Machine) : m.step.emitted =
    if m.instruction.operation = .poke then m.emitted.push (m.inputs .second).low
    else m.emitted := by
  rw [step_eq]

end Machine

end WordMachine
