import Mathlib.Logic.Function.Iterate
import WordMachine.Proofs.Stepping

/-!
The machine as a machine over cells. Memory is a function from addresses to words and a step
is said in one piece, without bytes and without a fetch that moves anything. The machine over
bytes, which fetches word after word, does the same: reading the byte pairs as words goes
along with any number of steps.
-/
namespace WordMachine

@[ext] structure CellMachine where
  memory : Word → Word
  pc : Word
  slots : Slot → Word
  out : Word
  halted : Bool
  steps : ℕ
  emitted : List ℕ

namespace CellMachine

def instruction (c : CellMachine) : Instruction :=
  .decode (c.memory c.pc)

/-- The address to write to, which stands behind the instruction word. -/
def target (c : CellMachine) : Word :=
  c.memory (c.pc + 1)

def targetWidth (c : CellMachine) : Word :=
  if c.instruction.writeBack then 1 else 0

def operand (c : CellMachine) (j : ℕ) : Word :=
  c.memory (c.pc + 1 + c.targetWidth + UInt16.ofNat j)

/-- A slot takes its operand if there is one, and else keeps what it holds. -/
def loaded (c : CellMachine) (s : Slot) : Word :=
  if (s.index : Int) < c.instruction.argumentCount then c.operand s.index else c.slots s

/-- The first two slots may be read through memory, the third never is. -/
def inputs (c : CellMachine) : Slot → Word
  | .first => if c.instruction.readFirst then c.memory (c.loaded .first) else c.loaded .first
  | .second => if c.instruction.readSecond then c.memory (c.loaded .second) else c.loaded .second
  | .third => c.loaded .third

def result (c : CellMachine) : Word :=
  match c.instruction.operation with
  | .copy => c.inputs .first
  | .add => c.inputs .first + c.inputs .second
  | _ => c.out

def step (c : CellMachine) : CellMachine where
  memory :=
    if c.instruction.writeBack then Function.update c.memory c.target c.result else c.memory
  pc :=
    if c.instruction.operation = .jumpIfZero ∧ c.inputs .second = 0 then c.inputs .first
    else c.pc + 1 + c.targetWidth + UInt16.ofNat c.instruction.argumentCount.toNat
  slots := c.inputs
  out := c.result
  halted := c.halted || c.instruction.operation = .halt
  steps := c.steps + 1
  emitted :=
    if c.instruction.operation = .poke then c.emitted ++ [(c.inputs .second).toNat % 256]
    else c.emitted

end CellMachine

theorem Memory.two_mul_lt_size (a : Word) : 2 * a.toNat < 131072 :=
  Nat.lt_of_succ_lt (two_mul_lt a)

/-- The word of the byte pair at `2 * a` and `2 * a + 1`, the low byte first. -/
def Memory.cell (m : Memory) (a : Word) : Word :=
  let low := m.bytes.get ⟨2 * a.toNat, two_mul_lt_size a⟩
  let high := m.bytes.get ⟨2 * a.toNat + 1, two_mul_lt a⟩
  UInt16.ofNat (low.toNat + 256 * high.toNat)

theorem Memory.cell_eq_read (m : Memory) : m.cell = m.read := rfl

theorem Memory.cell_write (m : Memory) (a v : Word) :
    (m.write a v).cell = Function.update m.cell a v := by
  funext b
  rw [cell_eq_read, cell_eq_read, read_write]
  by_cases hab : a = b
  · subst hab
    simp
  · have hba : b ≠ a := Ne.symm hab
    simp [hab, hba]

namespace Machine

/-- A machine with its byte pairs read as words. -/
def cells (m : Machine) : CellMachine where
  memory := m.memory.cell
  pc := m.pc
  slots := m.slot
  out := m.out
  halted := m.halted
  steps := m.steps
  emitted := m.emitted.toList.map UInt8.toNat

theorem cells_instruction (m : Machine) : m.cells.instruction = m.instruction := rfl

theorem cells_behind (m : Machine) (k : ℕ) :
    m.pc + 1 + m.cells.targetWidth + UInt16.ofNat k =
      m.pc + UInt16.ofNat (1 + m.instruction.writeBack.toNat + k) := by
  have hwidth : m.cells.targetWidth = UInt16.ofNat m.instruction.writeBack.toNat := by
    unfold CellMachine.targetWidth
    rw [cells_instruction]
    cases m.instruction.writeBack <;> rfl
  rw [hwidth, UInt16.ofNat_add, UInt16.ofNat_add, UInt16.add_assoc, UInt16.add_assoc,
    UInt16.add_assoc]
  rfl

theorem cells_loaded (m : Machine) (s : Slot) : m.cells.loaded s = m.loaded s := by
  rw [loaded_eq, ← cells_behind]
  rfl

theorem cells_inputs (m : Machine) (s : Slot) : m.cells.inputs s = m.inputs s := by
  have hread : ∀ a, m.cells.memory a = m.memory.read a := fun _ => rfl
  rw [inputs_eq, ← cells_loaded, ← hread]
  cases s <;> rfl

theorem cells_result (m : Machine) : m.cells.result = m.result := by
  unfold CellMachine.result result
  rw [cells_instruction, cells_inputs, cells_inputs]
  rfl

theorem cells_step (m : Machine) : m.step.cells = m.cells.step := by
  apply CellMachine.ext
  · change m.step.memory.cell = if m.instruction.writeBack then _ else m.memory.cell
    rw [step_memory, cells_result]
    cases hback : m.instruction.writeBack with
    | false => rfl
    | true =>
      have htarget : m.next.target = m.cells.target := by
        rw [next_target, hback]
        rfl
      rw [if_pos rfl, if_pos rfl, Memory.cell_write, htarget]
      rfl
  · change m.step.pc = if _ then _ else m.pc + 1 + m.cells.targetWidth + _
    rw [step_pc, cells_behind, cells_instruction, ← length_eq, cells_inputs, cells_inputs]
    rfl
  · funext s
    change m.step.slot s = m.cells.inputs s
    rw [cells_inputs, step_slot]
  · change m.step.out = m.cells.result
    rw [cells_result, step_out]
  · exact step_halted m
  · exact step_steps m
  · change m.step.emitted.toList.map UInt8.toNat = if m.instruction.operation = .poke then _ else _
    rw [step_emitted, cells_inputs]
    by_cases hpoke : m.instruction.operation = .poke
    · rw [if_pos hpoke, if_pos hpoke, Array.toList_push, List.map_append]
      simp only [List.map_cons, List.map_nil, Word.toNat_low]
      rfl
    · rw [if_neg hpoke, if_neg hpoke]
      rfl

/-- Any number of steps over bytes is that many steps over cells. -/
theorem cells_iterate_step (m : Machine) (n : ℕ) :
    (step^[n] m).cells = CellMachine.step^[n] m.cells :=
  Function.Semiconj.iterate_right cells_step n m

end Machine

end WordMachine
