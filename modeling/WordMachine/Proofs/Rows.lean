import WordMachine.Proofs.Assembly
import WordMachine.Proofs.Coverage

/-!
A row by itself. Where the words of a row are in memory at the program counter, the listing and the
machine agree about one instruction: a step fetches the words of a complete row, goes behind it
unless it jumps, and shows its text, and of a truncated row it fetches all words and more. What else
is in memory or in the registers has no part in it.
-/
namespace WordMachine

namespace Listing

variable {start : Int} {ws : List Int} {r : Row}

/-- The text says that a row is truncated exactly if the row lacks words. -/
theorem truncated_iff (hr : r ∈ disassemble start ws) : r.Truncated ↔ ¬ r.Complete := by
  have htext := (sweep_disassemble start ws).text_eq hr
  constructor
  · rintro ⟨name, hname⟩ hc
    have hangle : '<' ∈ r.text.toList := by
      rw [hname]
      simp
    rw [htext, if_pos hc] at hangle
    exact Instruction.angle_notMem_mnemonic _ _ _ hangle
  · intro hc
    rw [if_neg hc] at htext
    exact ⟨_, htext⟩

theorem words_ne_nil (hr : r ∈ disassemble start ws) : r.words ≠ [] := by
  obtain ⟨front, here, behind, -, hhere, -, hwords⟩ := exists_of_mem_disassemble hr
  rw [hwords]
  simpa using hhere

end Listing

namespace Machine

open Listing

variable {m : Machine} {r : Row}

/-- Behind a complete row the next instruction is fetched, unless the step jumps. -/
theorem At.step_pc (h : m.At r) (hc : r.Complete) (hjumps : ¬ m.Jumps) :
    (m.step.pc.toNat : Int) = (r.address + r.words.length) % 65536 := by
  have hne : r.words ≠ [] := List.length_pos_iff.mp hc.length_pos
  have hlength : (r.words.length : Int) = m.instruction.length := by
    rw [← h.instruction_eq hne]
    exact hc
  have hpc := h.pc
  rw [Machine.step_pc, if_neg hjumps, UInt16.toNat_add, UInt16.toNat_ofNat']
  omega

theorem At.operands_line (h : m.At r) (hc : r.Complete) (htext : r.text = r.instructionText) :
    (m.events.filter Event.isOperands).map Event.line =
      [(m.fetchInstruction.2.snapshot m.pc).line "OPERANDS" r.text] := by
  rw [filter_isOperands_events, List.map_singleton, htext, ← instructionText_eq (h.words_eq hc)]
  rfl

/-- One step and one row agree. At a complete row the step fetches the words of the row in order,
leaves the program counter behind them unless it jumps, and shows the text of the row. At a
truncated row it fetches more words than the row has, beginning with those. -/
theorem step_takes_row {start : Int} {ws : List Int} {r : Row} (hr : r ∈ disassemble start ws)
    {m : Machine} (hat : m.At r) :
    (r.Truncated ↔ ¬ r.Complete) ∧
    (r.Complete →
      m.next.words.map (fun w => (w.toNat : Int)) = r.words ∧
      (¬ m.Jumps → (m.step.pc.toNat : Int) = (r.address + r.words.length) % 65536) ∧
      (m.events.filter Event.isOperands).map Event.line =
        [(m.fetchInstruction.2.snapshot m.pc).line "OPERANDS" r.text]) ∧
    (r.Truncated →
      r.words.length < m.next.words.length ∧
      r.words <+: m.next.words.map fun w => (w.toNat : Int)) := by
  have htruncated := truncated_iff hr
  have hne := words_ne_nil hr
  have hle := length_words_le hr
  refine ⟨htruncated, fun hc => ⟨hat.words_eq hc, hat.step_pc hc, ?_⟩, fun ht => ⟨?_, ?_⟩⟩
  · have htext := (sweep_disassemble start ws).text_eq hr
    rw [if_pos hc] at htext
    exact hat.operands_line hc htext
  · have hcut : (r.words.length : Int) ≠ r.instruction.length := htruncated.mp ht
    have hfetched := hat.length_next_words hne
    omega
  · exact hat.prefix_next_words hne hle

def lastImage : List Int :=
  [0x1401, 0, 0x41, 0x1005]

def copyRow : Row :=
  ⟨65532, [0x1401, 0, 0x41], "COPY 0x0041 -> [0x0000]"⟩

def haltRow : Row :=
  ⟨65535, [0x1005], "HALT <truncated>"⟩

theorem disassemble_lastImage : disassemble 65532 lastImage = [copyRow, haltRow] := by
  decide +kernel

def last (entry : Int) : Machine :=
  (fresh.load lastImage entry 65532).2

theorem last_eq {entry : Int} (hentry : IsWord entry) : last entry = { fresh with
    memory := fresh.memory.fill 65532 (lastImage.map UInt16.ofInt)
    pc := UInt16.ofInt entry } := by
  obtain ⟨m, hload⟩ : ∃ m, fresh.load lastImage entry 65532 = (.ok (), m) :=
    exists_load_ok fresh (by decide) (by decide) hentry (by decide)
  unfold last
  rw [hload]
  exact (load_ok hload).2.2.2.2

theorem read_last {entry : Int} (hentry : IsWord entry) (a : Word) :
    (last entry).memory.read a = ((lastImage.map UInt16.ofInt)[(a - 65532).toNat]?).getD 0 := by
  rw [last_eq hentry]
  exact (Memory.read_fill _ _ _ _ (by decide)).trans (congrArg _ (Memory.read_zero a))

theorem at_copyRow : (last 65532).At copyRow := by
  constructor
  · rw [last_eq (by decide)]
    rfl
  · intro k hk
    rw [read_last (by decide), last_eq (by decide)]
    revert k
    decide

theorem at_haltRow : (last 65535).At haltRow := by
  constructor
  · rw [last_eq (by decide)]
    rfl
  · intro k hk
    rw [read_last (by decide), last_eq (by decide)]
    revert k
    decide

/-- Behind the first row is the last cell, and the step there goes round for its operand. -/
theorem step_takes_row_last :
    disassemble 65532 lastImage = [copyRow, haltRow] ∧
    (last 65532).At copyRow ∧ (last 65535).At haltRow ∧
    ((last 65532).events.filter Event.isOperands).map Event.line =
      [((last 65532).fetchInstruction.2.snapshot (last 65532).pc).line "OPERANDS"
        "COPY 0x0041 -> [0x0000]"] ∧
    ((last 65532).step.pc.toNat : Int) = 65535 ∧
    1 < (last 65535).next.words.length := by
  have hcopy : copyRow ∈ disassemble 65532 lastImage := by
    rw [disassemble_lastImage]
    exact List.mem_cons_self
  have hhalt : haltRow ∈ disassemble 65532 lastImage := by
    rw [disassemble_lastImage]
    exact List.mem_cons_of_mem _ List.mem_cons_self
  obtain ⟨-, hcomplete, -⟩ := step_takes_row hcopy at_copyRow
  obtain ⟨htruncated, -, hcut⟩ := step_takes_row hhalt at_haltRow
  obtain ⟨-, hpc, hline⟩ := hcomplete (by decide)
  have hstays : ¬ (last 65532).Jumps := by
    rintro ⟨hjump, -⟩
    rw [← at_copyRow.instruction_eq (by decide)] at hjump
    exact absurd hjump (by decide)
  exact ⟨disassemble_lastImage, at_copyRow, at_haltRow, hline, hpc hstays,
    (hcut (htruncated.mpr (by decide))).1⟩

end Machine

end WordMachine
