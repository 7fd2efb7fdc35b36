import WordMachine.Proofs.Running
import WordMachine.Proofs.Sweep
import WordMachine.Trace

/-!
A listing foretells the steps of a machine. While no step writes into the program and every jump
goes to a complete row, the program counter goes from row to row, each step fetches the words of
a row and shows its text, and the only way out is behind the last complete row.
-/
namespace WordMachine

/-- The rows of an image from its entry point on. -/
def Listing.ofImage (words : List Int) (entry : Int) : List Row :=
  disassemble entry (words.drop entry.toNat)

def Event.isOperands : Event → Bool
  | operands .. => true
  | _ => false

namespace Machine

open Listing

theorem filter_isOperands_events (m : Machine) :
    m.events.filter Event.isOperands =
      [.operands (m.fetchInstruction.2.snapshot m.pc) m.instruction m.next.operands
        m.next.target] := by
  have hread : ∀ before after i, (readEvents before after i).filter Event.isOperands = [] := by
    intro before after i
    unfold readEvents
    cases i.readFirst <;> cases i.readSecond <;> rfl
  have hexecute : ∀ (n : Machine) o, (n.executeEvents o).filter Event.isOperands = [] := by
    intro n o
    cases o <;> rfl
  unfold events
  simp only [List.filter_append, hread, hexecute, List.append_nil]
  change [_] ++ List.filter Event.isOperands (if m.instruction.writeBack then _ else _) ++ [] = _
  cases m.instruction.writeBack <;> rfl

theorem instructionText_eq {m : Machine} {r : Row}
    (hwords : m.next.words.map (fun w => (w.toNat : Int)) = r.words) :
    m.instruction.mnemonic (m.next.operands.map fun w => (w.toNat : Int)) m.next.target.toNat =
      r.instructionText := by
  have hinstruction : r.instruction = m.instruction := by
    unfold Row.instruction
    rw [← hwords, instruction_eq]
    change Instruction.decode (UInt16.ofInt (m.next.opcode.toNat : Int)) = _
    rw [Word.ofInt_toNat]
    rfl
  have htarget := next_target m
  have hall : m.next.words = m.next.opcode ::
      (if m.instruction.writeBack then [m.next.target] else []) ++ m.next.operands := rfl
  unfold Row.instructionText
  rw [hinstruction, ← hwords, hall]
  cases hback : m.instruction.writeBack with
  | false =>
    rw [hback] at htarget
    rw [htarget]
    simp
  | true => simp

theorem record_eq (budget : ℕ) (m : Machine) :
    m.record budget = (List.range (m.executed budget)).flatMap fun i => (step^[i] m).events := by
  induction budget generalizing m with
  | zero => rfl
  | succ budget ih =>
    rw [record, executed_succ]
    split
    · rfl
    · have hlater : ∀ i, step^[i + 1] m = step^[i] m.step := fun _ => rfl
      rw [ih, List.range_succ_eq_map, List.flatMap_cons, List.flatMap_map]
      simp only [Nat.succ_eq_add_one, hlater, Function.iterate_zero_apply]

/-- The program counter is where a row stands, and the words of the row are in memory there. -/
structure At (m : Machine) (r : Row) : Prop where
  pc : (m.pc.toNat : Int) = r.address
  cells : ∀ k (h : k < r.words.length),
    ((m.memory.read (m.pc + UInt16.ofNat k)).toNat : Int) = r.words[k]

namespace At

variable {m : Machine} {r : Row}

theorem instruction_eq (h : m.At r) (hne : r.words ≠ []) : r.instruction = m.instruction := by
  have hpos := List.length_pos_iff.mpr hne
  have hfirst : ((m.memory.read m.pc).toNat : Int) = r.words[0] := by
    simpa using h.cells 0 hpos
  have hhead : r.words.headD 0 = r.words[0] := by
    rw [List.headD_eq_head?_getD, List.head?_eq_getElem?, List.getElem?_eq_getElem hpos]
    rfl
  unfold Row.instruction
  rw [hhead, ← hfirst, Word.ofInt_toNat, Machine.instruction_eq]

theorem prefix_next_words (h : m.At r) (hne : r.words ≠ [])
    (hle : (r.words.length : Int) ≤ r.instruction.length) :
    r.words <+: m.next.words.map fun w => (w.toNat : Int) := by
  rw [h.instruction_eq hne] at hle
  rw [next_words, List.map_map]
  apply List.prefix_iff_eq_take.mpr
  refine List.ext_getElem ?_ ?_
  · simp only [List.length_take, List.length_map, List.length_range]
    omega
  · intro k hk _
    simp only [List.getElem_take, List.getElem_map, List.getElem_range, Function.comp_apply]
    exact (h.cells k hk).symm

theorem length_next_words (h : m.At r) (hne : r.words ≠ []) :
    (m.next.words.length : Int) = r.instruction.length := by
  have hpos : 0 < m.instruction.length := by
    rw [Machine.instruction_eq]
    exact Instruction.length_decode_pos _
  rw [h.instruction_eq hne, next_words, List.length_map, List.length_range]
  omega

theorem words_eq (h : m.At r) (hc : r.Complete) :
    m.next.words.map (fun w => (w.toNat : Int)) = r.words := by
  have hne : r.words ≠ [] := List.length_pos_iff.mp hc.length_pos
  have hlength : (r.words.length : Int) = r.instruction.length := hc
  refine ((h.prefix_next_words hne hlength.le).eq_of_length ?_).symm
  have hnext := h.length_next_words hne
  rw [List.length_map]
  omega

end At

/-- The words of a program are in memory, from an address on. -/
structure Holds (m : Machine) (address : Int) (code : List Int) : Prop where
  start : 0 ≤ address
  fit : address + code.length ≤ 65536
  cells : ∀ k (h : k < code.length),
    ((m.memory.read (UInt16.ofInt (address + k))).toNat : Int) = code[k]

theorem holds_of_load {before m : Machine} {words : List Int} {entry : Int}
    (h : before.load words entry 0 = (.ok (), m)) :
    m.Holds entry (words.drop entry.toNat) ∧ (m.pc.toNat : Int) = entry := by
  obtain ⟨-, hfit, hentry, hwords, rfl⟩ := load_ok h
  have hpc := Word.toNat_ofInt_of_isWord hentry
  obtain ⟨hlow, hhigh⟩ := hentry
  refine ⟨⟨hlow, ?_, ?_⟩, hpc⟩
  · rw [List.length_drop]
    omega
  · intro k hk
    rw [List.length_drop] at hk
    have haddress := Word.toNat_ofInt (entry + k)
    have hdist : (UInt16.ofInt (entry + k) - UInt16.ofInt 0).toNat = entry.toNat + k := by
      change (UInt16.ofInt (entry + k) - 0).toNat = _
      rw [UInt16.sub_zero]
      omega
    dsimp only
    rw [Memory.read_fill _ _ _ _ (by rw [List.length_map]; omega), hdist,
      List.getElem?_eq_getElem (by rw [List.length_map]; omega), Option.getD_some,
      List.getElem_map, Word.toNat_ofInt_of_isWord (hwords _ (List.getElem_mem _)),
      List.getElem_drop]

/-- The next step leaves the image alone from its entry point on, and jumps to a complete row
if it jumps. -/
def KeepsTo (m : Machine) (words : List Int) (entry : Int) : Prop :=
  (m.instruction.writeBack = true →
    ¬ (entry ≤ m.next.target.toNat ∧ (m.next.target.toNat : Int) < words.length)) ∧
  (m.Jumps → Lists (ofImage words entry) m.step.pc.toNat)

namespace Holds

variable {m : Machine} {address : Int} {code : List Int}

theorem step (h : m.Holds address code)
    (hmiss : m.instruction.writeBack = true →
      ¬ (address ≤ m.next.target.toNat ∧
        (m.next.target.toNat : Int) < address + code.length)) :
    m.step.Holds address code where
  start := h.start
  fit := h.fit
  cells k hk := by
    rw [step_memory]
    cases hback : m.instruction.writeBack with
    | false => exact h.cells k hk
    | true =>
      have hne : m.next.target ≠ UInt16.ofInt (address + k) := by
        intro heq
        have hin := Word.toNat_ofInt (address + k)
        have hstart := h.start
        have hfit := h.fit
        rw [← heq] at hin
        exact hmiss hback (by omega)
      rw [if_pos rfl, Memory.read_write_of_ne _ _ hne]
      exact h.cells k hk

/-- With the program counter in the program, the words from there on are the next ones. -/
theorem read_pc_add {front here behind : List Int}
    (h : m.Holds address (front ++ here ++ behind))
    (hpc : (m.pc.toNat : Int) = address + front.length) (j : ℕ) (hj : j < here.length) :
    ((m.memory.read (m.pc + UInt16.ofNat j)).toNat : Int) = here[j] := by
  have hcell := h.cells (front.length + j) (by simp only [List.length_append]; omega)
  have hplace : UInt16.ofInt (address + (front.length + j : ℕ)) = m.pc + UInt16.ofNat j := by
    apply UInt16.toNat_inj.mp
    have hcast := Word.toNat_ofInt (address + (front.length + j : ℕ))
    rw [UInt16.toNat_add, UInt16.toNat_ofNat']
    omega
  rw [hplace, List.getElem_append_left (by simp only [List.length_append]; omega),
    List.getElem_append_right (by omega)] at hcell
  simpa only [Nat.add_sub_cancel_left] using hcell

/-- A complete row of a program is where the program is. -/
theorem at_row (h : m.Holds address code) {r : Row} (hr : r ∈ disassemble address code)
    (hc : r.Complete) (hpc : r.address = m.pc.toNat) : m.At r := by
  obtain ⟨front, here, behind, rfl, haddress, hwords⟩ :=
    (sweep_disassemble address code).of_complete hr hc
  have hcells := h.read_pc_add (hpc.symm.trans haddress)
  refine ⟨hpc.symm, ?_⟩
  intro k hk
  simp only [hwords, List.length_map] at hk
  simp only [hwords, List.getElem_map, ← hcells k hk, cell, Word.ofInt_toNat]

theorem words_eq (h : m.Holds address code) {r : Row} (hr : r ∈ disassemble address code)
    (hc : r.Complete) (hpc : r.address = m.pc.toNat) :
    m.next.words.map (fun w => (w.toNat : Int)) = r.words :=
  (h.at_row hr hc hpc).words_eq hc

/-- From a complete row a step goes to a complete row or behind the last one. -/
theorem step_pc (h : m.Holds address code) (hlists : Lists (disassemble address code) m.pc.toNat)
    (hjump : m.Jumps → Lists (disassemble address code) m.step.pc.toNat) :
    Lists (disassemble address code) m.step.pc.toNat ∨
      (m.step.pc.toNat : Int) = (address + extent (disassemble address code)) % 65536 := by
  have hsweep := sweep_disassemble address code
  by_cases hjumps : m.Jumps
  · exact .inl (hjump hjumps)
  · obtain ⟨r, hr, hc, hpc⟩ := hlists
    have hwords := h.words_eq hr hc hpc
    have hlength : m.instruction.length.toNat = r.words.length := by
      rw [← hwords, List.length_map, next_words, List.length_map, List.length_range]
    have hnext : (m.step.pc.toNat : Int) = (r.address + r.words.length) % 65536 := by
      rw [Machine.step_pc, if_neg hjumps, hlength, UInt16.toNat_add, UInt16.toNat_ofNat']
      omega
    rcases hsweep.lists_or_eq_next hr hc with hlisted | hlast
    · -- a listed address is a place in memory, so the program counter does not wrap
      have hplace := hsweep.lists_lt hlisted
      have hstart := h.start
      have hfit := h.fit
      have hsame : (m.step.pc.toNat : Int) = r.address + r.words.length := by omega
      rw [hsame]
      exact .inl hlisted
    · rw [hnext, hlast]
      exact .inr rfl

end Holds

theorem KeepsTo.holds {m : Machine} {words : List Int} {entry : Int}
    (hkeeps : m.KeepsTo words entry) (h : m.Holds entry (words.drop entry.toNat)) :
    m.step.Holds entry (words.drop entry.toNat) := by
  refine h.step ?_
  intro hback hin
  rw [List.length_drop] at hin
  have hstart := h.start
  exact hkeeps.1 hback (by omega)

theorem holds_iterate {m : Machine} {words : List Int} {entry : Int} {n : ℕ}
    (h : m.Holds entry (words.drop entry.toNat))
    (hkeeps : ∀ i < n, (step^[i] m).KeepsTo words entry) (i : ℕ) (hi : i ≤ n) :
    (step^[i] m).Holds entry (words.drop entry.toNat) := by
  induction i with
  | zero => exact h
  | succ i ih =>
    rw [Function.iterate_succ_apply']
    exact (hkeeps i (by omega)).holds (ih (by omega))

/-- A program counter that has been at complete rows is at one, or behind the last one. -/
theorem pc_iterate {m : Machine} {words : List Int} {entry : Int} {n : ℕ}
    (h : m.Holds entry (words.drop entry.toNat)) (hpc : (m.pc.toNat : Int) = entry)
    (hkeeps : ∀ i < n, (step^[i] m).KeepsTo words entry) (i : ℕ) (hi : i ≤ n)
    (hbefore : ∀ j < i, Lists (ofImage words entry) (step^[j] m).pc.toNat) :
    Lists (ofImage words entry) (step^[i] m).pc.toNat ∨
      ((step^[i] m).pc.toNat : Int) = (entry + extent (ofImage words entry)) % 65536 := by
  cases i with
  | zero =>
    rcases (sweep_disassemble entry (words.drop entry.toNat)).lists_or_eq with hlists | hnone
    · left
      rw [Function.iterate_zero_apply, hpc]
      exact hlists
    · -- without a complete row the entry point itself is behind the last one
      right
      have hlow := UInt16.toNat_lt m.pc
      unfold ofImage
      rw [← hnone, Function.iterate_zero_apply]
      omega
  | succ i =>
    rw [Function.iterate_succ_apply']
    exact (holds_iterate h hkeeps i (by omega)).step_pc (hbefore i (by omega))
      (hkeeps i (by omega)).2

/-- A step at a listed address fetches the words of the one row there, and shows its text. -/
theorem Holds.covers {m : Machine} {words : List Int} {entry : Int}
    (h : m.Holds entry (words.drop entry.toNat))
    (hlists : Lists (ofImage words entry) m.pc.toNat) :
    ∃ r, rowsAt (ofImage words entry) m.pc.toNat = [r] ∧
      m.next.words.map (fun w => (w.toNat : Int)) = r.words ∧
      (m.events.filter Event.isOperands).map Event.line =
        [(m.fetchInstruction.2.snapshot m.pc).line "OPERANDS" r.text] := by
  have hsweep := sweep_disassemble entry (words.drop entry.toNat)
  obtain ⟨r, hr, hc, hpc, hunique⟩ := hsweep.exists_rowsAt_eq hlists
  have htext : r.text = r.instructionText := (hsweep.text_eq hr).trans (if_pos hc)
  have hwords := h.words_eq hr hc hpc
  refine ⟨r, hunique, hwords, ?_⟩
  rw [filter_isOperands_events, List.map_singleton, htext, ← instructionText_eq hwords]
  rfl

/-- The entry point is listed unless the first instruction there is cut. -/
theorem lists_entry_iff {before m : Machine} {words : List Int} {entry : Int}
    (hload : before.load words entry 0 = (.ok (), m)) :
    Lists (ofImage words entry) entry ↔ entry + m.instruction.length ≤ words.length := by
  obtain ⟨hholds, hpc⟩ := holds_of_load hload
  have hstart := hholds.start
  have hlength := List.length_drop (i := entry.toNat) (l := words)
  unfold ofImage
  cases hcode : words.drop entry.toNat with
  | nil =>
    -- behind the image there is no row, and no room for an instruction
    have hpos : 0 < m.instruction.length := by
      rw [Machine.instruction_eq]
      exact Instruction.length_decode_pos _
    rw [hcode, List.length_nil] at hlength
    rw [disassemble]
    constructor
    · rintro ⟨r, hr, -⟩
      cases hr
    · intro hfits
      omega
  | cons w rest =>
    have hfirst : m.instruction = .decode (UInt16.ofInt w) := by
      have hcell := hholds.cells 0 (by simp [hcode])
      have hplace : UInt16.ofInt (entry + (0 : ℕ)) = m.pc := by
        rw [Int.natCast_zero, Int.add_zero, ← hpc, Word.ofInt_toNat]
      rw [hplace] at hcell
      simp only [hcode, List.getElem_cons_zero] at hcell
      rw [Machine.instruction_eq, ← hcell, Word.ofInt_toNat]
    rw [hcode, List.length_cons] at hlength
    rw [lists_disassemble_cons_iff, hfirst]
    omega

/-- The listing of a loaded image covers its steps. The entry point is listed unless the image ends
in the middle of the first instruction. If each of the first `n` steps leaves the image alone and
jumps to complete rows only, then a step from a listed address fetches exactly the words of the one
row there and shows its text, and the first address that is not listed is the one behind the
complete rows. The steps of a run, whatever its budget, are among these. -/
theorem listing_covers_steps {before m : Machine} {words : List Int} {entry : Int}
    (hload : before.load words entry 0 = (.ok (), m)) (n : ℕ)
    (hkeeps : ∀ i < n, (step^[i] m).KeepsTo words entry) :
    ((m.pc.toNat : Int) = entry ∧
      (Lists (ofImage words entry) entry ↔ entry + m.instruction.length ≤ words.length)) ∧
    (∀ i < n, Lists (ofImage words entry) (step^[i] m).pc.toNat →
      ∃ r, rowsAt (ofImage words entry) (step^[i] m).pc.toNat = [r] ∧
        (step^[i] m).next.words.map (fun w => (w.toNat : Int)) = r.words ∧
        ((step^[i] m).events.filter Event.isOperands).map Event.line =
          [((step^[i] m).fetchInstruction.2.snapshot (step^[i] m).pc).line "OPERANDS" r.text]) ∧
    (∀ i ≤ n, (∀ j < i, Lists (ofImage words entry) (step^[j] m).pc.toNat) →
      ¬ Lists (ofImage words entry) (step^[i] m).pc.toNat →
      ((step^[i] m).pc.toNat : Int) = (entry + extent (ofImage words entry)) % 65536) ∧
    ∀ budget,
      m.run budget = step^[m.executed budget] m ∧
      m.record budget =
        (List.range (m.executed budget)).flatMap fun i => (step^[i] m).events := by
  obtain ⟨hholds, hpc⟩ := holds_of_load hload
  refine ⟨⟨hpc, lists_entry_iff hload⟩, ?_, ?_,
    fun budget => ⟨run_eq_iterate budget m, record_eq budget m⟩⟩
  · intro i hi hlists
    exact (holds_iterate hholds hkeeps i (by omega)).covers hlists
  · intro i hi hbefore hleft
    rcases pc_iterate hholds hpc hkeeps i hi hbefore with hlists | hlast
    · exact absurd hlists hleft
    · exact hlast

/-- A program that stores a character in front of itself, and whose next instruction lacks its
operand. -/
def storingImage : List Int :=
  [0, 0x1401, 0, 0x41, 0x1005]

def storing : Machine :=
  (fresh.load storingImage 1 0).2

theorem load_storing : fresh.load storingImage 1 0 = (.ok (), storing) := rfl

theorem ofImage_storing : ofImage storingImage 1 =
    [⟨1, [0x1401, 0, 0x41], "COPY 0x0041 -> [0x0000]"⟩, ⟨4, [0x1005], "HALT <truncated>"⟩] := by
  decide +kernel

theorem read_storing (a : Word) :
    storing.memory.read a = ((storingImage.map UInt16.ofInt)[a.toNat]?).getD 0 := by
  obtain ⟨-, -, -, -, hstoring⟩ := load_ok load_storing
  have hbase : UInt16.ofInt 0 = (0 : Word) := rfl
  rw [hstoring]
  dsimp only
  rw [Memory.read_fill _ _ _ _ (by decide), hbase, UInt16.sub_zero]
  exact congrArg _ (Memory.read_zero a)

theorem instruction_storing : storing.instruction = .decode 0x1401 := by
  rw [instruction_eq, read_storing]
  rfl

theorem not_jumps_storing : ¬ storing.Jumps := by
  rintro ⟨hjump, -⟩
  rw [instruction_storing] at hjump
  exact absurd hjump (by decide)

theorem keepsTo_storing : storing.KeepsTo storingImage 1 := by
  constructor
  · intro hback hin
    have htarget : storing.next.target = 0 := by
      rw [next_target, if_pos hback, read_storing]
      rfl
    rw [htarget] at hin
    exact absurd hin.1 (by decide)
  · intro hjumps
    exact absurd hjumps not_jumps_storing

/-- The step begins at the row of the entry point, fetches it and goes behind it, to the row that is
not complete. -/
theorem listing_covers_steps_storing :
    let r : Row := ⟨1, [0x1401, 0, 0x41], "COPY 0x0041 -> [0x0000]"⟩
    fresh.load storingImage 1 0 = (.ok (), storing) ∧
    storing.KeepsTo storingImage 1 ∧
    rowsAt (ofImage storingImage 1) storing.pc.toNat = [r] ∧
    storing.next.words.map (fun w => (w.toNat : Int)) = r.words ∧
    (storing.events.filter Event.isOperands).map Event.line =
      [(storing.fetchInstruction.2.snapshot storing.pc).line "OPERANDS" r.text] ∧
    (storing.step.pc.toNat : Int) = r.address + r.words.length := by
  intro r
  have hkeeps : ∀ i < 1, (step^[i] storing).KeepsTo storingImage 1 := by
    intro i hi
    obtain rfl : i = 0 := by omega
    exact keepsTo_storing
  have hnext : storing.step.pc = 4 := by
    rw [step_pc, if_neg not_jumps_storing, instruction_storing]
    rfl
  have hleft : ¬ Lists (ofImage storingImage 1) storing.step.pc.toNat := by
    rw [ofImage_storing, hnext]
    decide
  obtain ⟨⟨hpc, hlisted⟩, hcovers, hexit, -⟩ := listing_covers_steps load_storing 1 hkeeps
  have hlists : Lists (ofImage storingImage 1) storing.pc.toNat := by
    rw [hpc, hlisted, instruction_storing]
    decide
  obtain ⟨r', hrow, hwords, htext⟩ := hcovers 0 (by omega) hlists
  obtain rfl : r = r' := by
    rw [ofImage_storing] at hrow
    exact List.singleton_inj.mp hrow
  refine ⟨load_storing, keepsTo_storing, hrow, hwords, htext, ?_⟩
  have hbehind := hexit 1 (by omega) (fun j hj => ?_) hleft
  · rw [ofImage_storing] at hbehind
    exact hbehind
  · obtain rfl : j = 0 := by omega
    exact hlists

end Machine

end WordMachine
