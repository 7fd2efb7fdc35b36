import Mathlib.Algebra.BigOperators.Group.List.Basic
import Mathlib.Algebra.Ring.Int.Defs
import WordMachine.Proofs.Mnemonic
import WordMachine.Proofs.Sweep

/-!
Assembled programs. An instruction, the address it writes to and its operands make a block of
words. A listing finds the blocks that are laid end to end, one row for each, whatever their words
look like, and what is left of a last block that is cut short.
-/
namespace WordMachine

/-- The text marks the row as truncated. -/
def Row.Truncated (r : Row) : Prop :=
  ∃ name, r.text = name ++ " <truncated>"

/-- An instruction with the address it writes to, which counts only if it writes, and with as many
operand words as it says. -/
structure Block where
  instruction : Instruction
  target : Word
  operands : List Word
  count : instruction.argumentCount = operands.length
  few : operands.length ≤ 3

namespace Block

/-- The words behind the instruction word. -/
def others (b : Block) : List Word :=
  (if b.instruction.writeBack then [b.target] else []) ++ b.operands

/-- The words of a block as the numbers of an image. -/
def code (b : Block) : List Int :=
  (b.instruction.encode :: b.others).map fun w => (w.toNat : Int)

def row (address : Int) (b : Block) : Row where
  address := address
  words := b.code
  text := b.instruction.mnemonic (b.operands.map fun w => (w.toNat : Int)) b.target.toNat

/-- The row that shows the first words of a block where the others are missing. -/
def cutRow (address : Int) (kept : ℕ) (b : Block) : Row where
  address := address
  words := b.code.take kept
  text := b.instruction.operation.name ++ " <truncated>"

/-- The blocks end to end. -/
def program (blocks : List Block) : List Int :=
  blocks.flatMap code

/-- Where the block behind these stands: as many words on as the lengths of their instructions add
up to. -/
def behind (start : Int) (blocks : List Block) : Int :=
  start + (blocks.map fun b => b.instruction.length).sum

/-- A row for each block, at the place behind the blocks before it. -/
def rows (start : Int) (blocks : List Block) : List Row :=
  blocks.mapIdx fun k b => b.row (behind start (blocks.take k))

theorem decode_code (b : Block) :
    Instruction.decode (UInt16.ofInt b.instruction.encode.toNat) = b.instruction := by
  have hcount : b.instruction.argumentCount % 4 = b.instruction.argumentCount := by
    have hoperands := b.count
    have hfew := b.few
    omega
  rw [Word.ofInt_toNat, Instruction.decode_encode, hcount]

theorem length_instruction (b : Block) :
    b.instruction.length = (b.others.length : Int) + 1 := by
  have hoperands := b.count
  unfold Instruction.length others
  cases b.instruction.writeBack
  · simp only [Bool.toNat_false, Bool.false_eq_true, if_false, List.nil_append]
    omega
  · simp only [Bool.toNat_true, if_true, List.length_append, List.length_singleton]
    omega

theorem length_code (b : Block) : (b.code.length : Int) = b.instruction.length := by
  rw [length_instruction, code, List.length_map, List.length_cons, Int.natCast_succ]

theorem completeRow_eq (address : Int) (b : Block) :
    Listing.completeRow address b.instruction b.instruction.encode.toNat
      (b.others.map fun w => (w.toNat : Int)) = b.row address := by
  unfold Listing.completeRow row code others
  cases hback : b.instruction.writeBack with
  | false => simp [Instruction.mnemonic, Instruction.targetTexts, hback]
  | true => simp

theorem disassemble_code_append (start : Int) (b : Block) (rest : List Int) :
    Listing.disassemble start (b.code ++ rest) =
      b.row start :: Listing.disassemble (start + b.instruction.length) rest := by
  have hdecode := b.decode_code
  have hlength := b.length_instruction
  unfold code
  rw [List.map_cons, Listing.disassemble_complete, hdecode, Listing.cell_toNat,
    Listing.map_cell_numbers, completeRow_eq, List.length_map, hlength]
  rw [hdecode, hlength, List.length_map]

theorem disassemble_take_code (start : Int) (b : Block) {kept : ℕ} (hkept : 0 < kept)
    (hmissing : kept < b.code.length) :
    Listing.disassemble start (b.code.take kept) = [b.cutRow start kept] := by
  have hdecode := b.decode_code
  have hlength := b.length_instruction
  have hcode := b.length_code
  obtain ⟨k, rfl⟩ : ∃ k, kept = k + 1 := ⟨kept - 1, by omega⟩
  unfold cutRow
  simp only [code, List.map_cons, List.take_succ_cons]
  rw [← List.map_take, Listing.disassemble_short, hdecode, Listing.cell_toNat,
    Listing.map_cell_numbers]
  · rfl
  · rw [hdecode, List.length_map, List.length_take]
    omega

theorem rows_cons (start : Int) (b : Block) (blocks : List Block) :
    rows start (b :: blocks) = b.row start :: rows (start + b.instruction.length) blocks := by
  unfold rows behind
  simp [List.mapIdx_cons, Int.add_assoc]

theorem behind_cons (start : Int) (b : Block) (blocks : List Block) :
    behind start (b :: blocks) = behind (start + b.instruction.length) blocks := by
  unfold behind
  rw [List.map_cons, List.sum_cons, Int.add_assoc]

theorem disassemble_program_append (start : Int) (blocks : List Block) (rest : List Int) :
    Listing.disassemble start (program blocks ++ rest) =
      rows start blocks ++ Listing.disassemble (behind start blocks) rest := by
  induction blocks generalizing start with
  | nil => simp [program, rows, behind]
  | cons b blocks ih =>
    have hprogram : program (b :: blocks) = b.code ++ program blocks := List.flatMap_cons
    rw [hprogram, List.append_assoc, disassemble_code_append, ih, rows_cons, behind_cons,
      List.cons_append]

theorem complete_row (address : Int) (b : Block) : (b.row address).Complete := by
  have hinstruction : (b.row address).instruction = b.instruction := b.decode_code
  unfold Row.Complete
  rw [hinstruction]
  exact b.length_code

theorem not_truncated_row (address : Int) (b : Block) : ¬ (b.row address).Truncated := by
  rintro ⟨name, htext⟩
  have hangle : '<' ∈ (b.row address).text.toList := by
    rw [htext]
    simp
  exact Instruction.angle_notMem_mnemonic _ _ _ hangle

theorem exists_of_mem_rows {start : Int} {blocks : List Block} {r : Row}
    (h : r ∈ rows start blocks) : ∃ address b, r = row address b := by
  obtain ⟨k, hk, rfl⟩ := List.mem_mapIdx.mp h
  exact ⟨_, _, rfl⟩

/-- A program is listed block by block, each with its words and its text at its place and none of
them truncated. If the last block is cut short the rows before it stay, and what is left of it is
one truncated row. -/
theorem disassemble_program (start : Int) (blocks : List Block) :
    Listing.disassemble start (program blocks) = rows start blocks ∧
    (∀ r ∈ rows start blocks, r.Complete ∧ ¬ r.Truncated) ∧
    ∀ (last : Block) (kept : ℕ), 0 < kept → kept < last.code.length →
      Listing.disassemble start (program blocks ++ last.code.take kept) =
        rows start blocks ++ [last.cutRow (behind start blocks) kept] := by
  refine ⟨?_, ?_, ?_⟩
  · have hnone := disassemble_program_append start blocks []
    rwa [List.append_nil, Listing.disassemble, List.append_nil] at hnone
  · intro r hr
    obtain ⟨address, b, rfl⟩ := exists_of_mem_rows hr
    exact ⟨b.complete_row address, b.not_truncated_row address⟩
  · intro last kept hkept hmissing
    rw [disassemble_program_append, disassemble_take_code _ _ hkept hmissing]

/-- An addition whose operands are the words of other instructions. -/
def addition : Block where
  instruction := ⟨.add, 2, false, true, true⟩
  target := 0x0010
  operands := [0x0005, 0x1401]
  count := rfl
  few := by decide

def jump : Block where
  instruction := ⟨.jumpIfZero, 2, false, false, false⟩
  target := 0
  operands := [0x2502, 0x0000]
  count := rfl
  few := by decide

/-- Operands are not taken for instructions, and the jump lacks its last word. -/
theorem disassemble_program_addition :
    0 < 2 ∧ 2 < jump.code.length ∧
    Listing.disassemble 15 (program [addition] ++ jump.code.take 2) =
      [⟨15, [0x2502, 0x0010, 0x0005, 0x1401], "ADD 0x0005 [0x1401] -> [0x0010]"⟩,
        ⟨19, [0x2003, 0x2502], "JUMP_IF_ZERO <truncated>"⟩] := by
  have hmissing : 2 < jump.code.length := by decide
  have hcut := (disassemble_program 15 [addition]).2.2 jump 2 (by decide) hmissing
  refine ⟨by decide, hmissing, ?_⟩
  rw [hcut]
  decide +kernel

end Block

end WordMachine
