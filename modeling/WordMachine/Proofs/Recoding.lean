import Mathlib.Data.Set.Insert
import WordMachine.Proofs.Reads

/-!
Instruction words in other encodings. A word says more than its instruction, since some bits mean
nothing and many low bytes name no operation. Where cells are read as nothing but instruction words,
a run is the same with any words in them that decode to the same instructions.
-/
namespace WordMachine

/-- Writing an instruction anew cleans its word and keeps its meaning. -/
theorem Instruction.decode_encode_decode (w : Word) : decode (decode w).encode = decode w := by
  have hnonneg := argumentCount_decode_nonneg w
  have hlt := argumentCount_decode_lt w
  have hcount : (decode w).argumentCount % 4 = (decode w).argumentCount := by omega
  rw [decode_encode, hcount]

namespace Machine

/-- Machines whose cells in `K` hold the same instructions and that differ in nothing else. -/
def SameCode (K : Set Word) : Machine → Machine → Prop :=
  Alike fun a v w => (a ∈ K → Instruction.decode w = Instruction.decode v) ∧ (a ∉ K → w = v)

/-- The next step reads a cell as something else than its instruction word: as the address to
write to, as an operand or through memory. -/
def ReadsAsData (m : Machine) (a : Word) : Prop :=
  a ∈ m.fetchedCells.tail ∨ a ∈ m.dereferencedCells

theorem overlooks_of_not_readsAsData {m : Machine} {K : Set Word}
    (h : ∀ a ∈ K, ¬ m.ReadsAsData a) :
    m.Overlooks fun a v w =>
      (a ∈ K → Instruction.decode w = Instruction.decode v) ∧ (a ∉ K → w = v) where
  opcode v w hsame := by
    by_cases hpc : m.pc ∈ K
    · exact hsame.1 hpc
    · rw [hsame.2 hpc]
  others a ha v w hsame :=
    hsame.2 fun hmem => h a hmem (List.mem_append.mp ha)

theorem sameCode_of_encode {K : Set Word} {m m' : Machine} (hregisters : m.SameRegisters m')
    (hin : ∀ a ∈ K, m'.memory.read a = (Instruction.decode (m.memory.read a)).encode)
    (hout : ∀ a ∉ K, m'.memory.read a = m.memory.read a) : SameCode K m m' where
  registers := hregisters
  cells a := by
    refine ⟨fun hmem => ?_, hout a⟩
    rw [hin a hmem, Instruction.decode_encode_decode]

end Machine

namespace Session

open Machine

/-- A run that reads some cells as instruction words only has the same outcome with other words for
the same instructions in them, and what is in memory at the end is the same up to that again. -/
theorem run_of_sameCode {K : Set Word} {s s' : Session} {limit : Int}
    (hsame : SameCode K s.machine s'.machine)
    (hdata : ∀ i < (s.run limit).1.executed, ∀ a ∈ K,
      ¬ (Machine.step^[i] s.machine).ReadsAsData a) :
    (s'.run limit).1 = (s.run limit).1 ∧
    SameCode K (s.run limit).2.machine (s'.run limit).2.machine := by
  have hrefl : ∀ a w : Word,
      (a ∈ K → Instruction.decode w = Instruction.decode w) ∧ (a ∉ K → w = w) :=
    fun _ _ => ⟨fun _ => rfl, fun _ => rfl⟩
  exact run_of_alike hrefl hsame fun i hi => overlooks_of_not_readsAsData (hdata i hi)

/-- A session with a program of two instructions, the first with bits that mean nothing and the
second with a low byte that names no operation. -/
def loose : Session :=
  ((((start false false false).write 0 0xDC01).write 1 16).write 2 65).write 3 0xFF

def tidy : Session :=
  (loose.write 0 0x1401).write 3 0

theorem read_loose (a : Word) : loose.machine.memory.read a =
    if 3 = a then 0xFF else if 2 = a then 65 else if 1 = a then 16 else
      if 0 = a then 0xDC01 else 0 := by
  have hblank : (start false false false).machine.memory.read a = 0 := Memory.read_zero a
  unfold loose
  rw [read_write, read_write, read_write, read_write, hblank]
  rfl

theorem sameCode_tidy : SameCode {0, 3} loose.machine tidy.machine := by
  have hread : ∀ a, tidy.machine.memory.read a =
      if 3 = a then 0 else if 0 = a then 0x1401 else loose.machine.memory.read a := by
    intro a
    unfold tidy
    rw [read_write, read_write]
    rfl
  apply sameCode_of_encode
  · exact sameRegisters_write (sameRegisters_write (.refl loose.machine) 0 0x1401) 3 0
  · rintro a (rfl | rfl)
    · rw [hread, read_loose]
      decide
    · rw [hread, read_loose]
      decide
  · intro a hout
    rw [hread, if_neg, if_neg]
    · rintro rfl
      exact hout (.inl rfl)
    · rintro rfl
      exact hout (.inr rfl)

theorem instruction_loose : loose.machine.instruction = .decode 0x1401 := by
  rw [instruction_eq, read_loose]
  decide

theorem target_loose : loose.machine.next.target = 16 := by
  rw [next_target, instruction_loose, read_loose]
  rfl

theorem instruction_loose_step : loose.machine.step.instruction = .decode 0 := by
  have hpc : loose.machine.step.pc = 3 := by
    rw [step_pc, if_neg, instruction_loose]
    · rfl
    · rintro ⟨hjump, -⟩
      rw [instruction_loose] at hjump
      exact absurd hjump (by decide)
  have hkept : ¬ loose.machine.StoresAt 3 := by
    rintro ⟨-, hstores⟩
    rw [target_loose] at hstores
    exact absurd hstores (by decide)
  rw [instruction_eq, hpc, read_step, if_neg hkept, read_loose]
  decide

theorem executed_loose : (loose.run 2).1.executed = 2 := by
  have hrunning : loose.machine.halted = false := rfl
  have hlater : loose.machine.step.halted = false := by
    rw [step_halted, instruction_loose, hrunning]
    rfl
  rw [(loose.run_eq 2).1]
  change executed (0 + 1 + 1) loose.machine = 2
  rw [executed_succ, hrunning, if_neg Bool.false_ne_true, executed_succ, hlater,
    if_neg Bool.false_ne_true, executed_zero]

theorem not_readsAsData_loose : ∀ i < 2, ∀ a ∈ ({0, 3} : Set Word),
    ¬ (Machine.step^[i] loose.machine).ReadsAsData a := by
  intro i hi
  unfold ReadsAsData fetchedCells dereferencedCells
  obtain rfl | rfl : i = 0 ∨ i = 1 := by omega
  · rw [Function.iterate_zero_apply, instruction_loose]
    rintro a (rfl | rfl)
    · decide
    · decide
  · rw [Function.iterate_one, instruction_loose_step]
    rintro a (rfl | rfl)
    · decide
    · decide

/-- Both instructions are carried out alike, whichever way they are written. -/
theorem run_of_sameCode_tidy :
    SameCode {0, 3} loose.machine tidy.machine ∧
    (loose.run 2).1.executed = 2 ∧
    (∀ i < 2, ∀ a ∈ ({0, 3} : Set Word), ¬ (Machine.step^[i] loose.machine).ReadsAsData a) ∧
    (tidy.run 2).1 = (loose.run 2).1 ∧
    SameCode {0, 3} (loose.run 2).2.machine (tidy.run 2).2.machine := by
  have hdata := not_readsAsData_loose
  rw [← executed_loose] at hdata
  exact ⟨sameCode_tidy, executed_loose, not_readsAsData_loose, run_of_sameCode sameCode_tidy hdata⟩

end Session

end WordMachine
