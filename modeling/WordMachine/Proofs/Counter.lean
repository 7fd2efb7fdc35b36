import WordMachine.Proofs.Budget
import WordMachine.Proofs.Cells
import WordMachine.Proofs.Expectations
import WordMachine.Proofs.Storage

/-!
A loop that counts for as long as its budget lasts. It has two instructions: one adds 1 to a cell
behind the code and the other goes back. So of any number of steps every other one counts, the first
among them, and the count wraps around at the size of a word. Nothing else is written.
-/
namespace WordMachine

/-- Only one cell from `first` on may be other than zero. -/
theorem Memory.nonzeroFrom_eq {m : Memory} {first a : ℕ} (hfirst : first ≤ a) (ha : a < cellCount)
    (hzero : ∀ b, first ≤ b → b < cellCount → b ≠ a → m.read (UInt16.ofNat b) = 0) :
    m.nonzeroFrom first =
      if m.read (UInt16.ofNat a) = 0 then [] else [(a, m.read (UInt16.ofNat a))] := by
  have hnone : ∀ low count, (∀ b, low ≤ b → b < low + count → m.read (UInt16.ofNat b) = 0) →
      (List.range' low count).filterMap (fun b =>
        let w := m.read (UInt16.ofNat b)
        if w = 0 then none else some (b, w)) = [] := by
    intro low count hlow
    rw [List.filterMap_eq_nil_iff]
    intro b hb
    obtain ⟨hle, hlt⟩ := List.mem_range'_1.mp hb
    exact if_pos (hlow b hle hlt)
  have hsplit : List.range' first (cellCount - first) =
      List.range' first (a - first) ++ a :: List.range' (a + 1) (cellCount - (a + 1)) := by
    have hcount : cellCount - first = (a - first) + (1 + (cellCount - (a + 1))) := by omega
    have hmiddle : first + (a - first) = a := by omega
    rw [hcount, ← List.range'_append_1, ← List.range'_append_1, hmiddle]
    rfl
  unfold nonzeroFrom
  rw [hsplit, List.filterMap_append, List.filterMap_cons, hnone, hnone]
  · by_cases hread : m.read (UInt16.ofNat a) = 0
    · simp [hread]
    · simp [hread]
  · exact fun b hle hlt => hzero b (by omega) (by omega) (by omega)
  · exact fun b hle hlt => hzero b hle (by omega) (by omega)

namespace Counter

def code : List Word := [
  0x2502, 0x0010, 0x0001, 0x0010,  -- 0: [0x10] is 1 more
  0x2003, 0x0000, 0x0000]          -- 4: to 0

/-- The code is in its place. -/
def Holds (memory : Word → Word) : Prop :=
  ∀ i < 7, memory (UInt16.ofNat i) = code.getD i 0

/-- The cell that counts is behind the code. -/
theorem Holds.update {memory : Word → Word} (h : Holds memory) (v : Word) :
    Holds (Function.update memory 0x10 v) := by
  intro i hi
  have hcell : (0x10 : Word).toNat = 16 := rfl
  have hne : UInt16.ofNat i ≠ 0x10 := Word.ofNat_ne (by omega)
  rw [Function.update_of_ne hne]
  exact h i hi

/-- A machine after `t` steps of the loop, the memory of which was `before` then. -/
structure At (before : Word → Word) (t : ℕ) (c : CellMachine) : Prop where
  memory : c.memory = Function.update before 0x10 (before 0x10 + UInt16.ofNat ((t + 1) / 2))
  pc : c.pc = if t % 2 = 0 then 0 else 4
  halted : c.halted = false
  emitted : c.emitted = []

open CellMachine

section

variable {c : CellMachine} (h : Holds c.memory)

include h

theorem step_add (hpc : c.pc = 0) :
    c.step.memory = Function.update c.memory 0x10 (1 + c.memory 0x10) ∧ c.step.pc = 4 ∧
      c.step.halted = c.halted ∧ c.step.emitted = c.emitted := by
  have hi : c.instruction = ⟨.add, 2, false, true, true⟩ := by
    unfold instruction
    rw [hpc]
    exact congrArg Instruction.decode (h 0 (by omega))
  have htarget : c.memory 1 = 0x10 := h 1 (by omega)
  have hone : c.memory 2 = 1 := h 2 (by omega)
  have hcell : c.memory 3 = 0x10 := h 3 (by omega)
  have hinputs : c.inputs .first = 1 ∧ c.inputs .second = c.memory 0x10 := by
    unfold inputs loaded operand targetWidth
    rw [hi, hpc]
    simp [Slot.index, hone, hcell]
  unfold step result target targetWidth
  rw [hi, hpc]
  simp [hinputs, htarget]

theorem step_jump (hpc : c.pc = 4) :
    c.step.memory = c.memory ∧ c.step.pc = 0 ∧ c.step.halted = c.halted ∧
      c.step.emitted = c.emitted := by
  have hi : c.instruction = ⟨.jumpIfZero, 2, false, false, false⟩ := by
    unfold instruction
    rw [hpc]
    exact congrArg Instruction.decode (h 4 (by omega))
  have hplace : c.memory 5 = 0 := h 5 (by omega)
  have hzero : c.memory 6 = 0 := h 6 (by omega)
  have hinputs : c.inputs .first = 0 ∧ c.inputs .second = 0 := by
    unfold inputs loaded operand targetWidth
    rw [hi, hpc]
    simp [Slot.index, hplace, hzero]
  unfold step result target targetWidth
  rw [hi, hpc]
  simp [hinputs]

end

variable {before : Word → Word} {t : ℕ} {c : CellMachine}

theorem At.step (hholds : Holds before) (h : At before t c) : At before (t + 1) c.step := by
  obtain ⟨hmemory, hpc, hhalted, hemitted⟩ := h
  have hcode : Holds c.memory := by
    rw [hmemory]
    exact hholds.update _
  by_cases heven : t % 2 = 0
  · rw [if_pos heven] at hpc
    obtain ⟨hstored, hnext, hgoes, hsilent⟩ := step_add hcode hpc
    have hcount : (t + 1 + 1) / 2 = (t + 1) / 2 + 1 := by omega
    have hmore : 1 + (before 0x10 + UInt16.ofNat ((t + 1) / 2)) =
        before 0x10 + UInt16.ofNat ((t + 1) / 2 + 1) := by
      rw [UInt16.ofNat_add, UInt16.add_comm, UInt16.add_assoc]
      rfl
    refine ⟨?_, ?_, hgoes.trans hhalted, hsilent.trans hemitted⟩
    · rw [hstored, hmemory, Function.update_self, Function.update_idem, hmore, hcount]
    · rw [hnext, if_neg (by omega)]
  · rw [if_neg heven] at hpc
    obtain ⟨hstored, hnext, hgoes, hsilent⟩ := step_jump hcode hpc
    have hcount : (t + 1 + 1) / 2 = (t + 1) / 2 := by omega
    refine ⟨?_, ?_, hgoes.trans hhalted, hsilent.trans hemitted⟩
    · rw [hstored, hmemory, hcount]
    · rw [hnext, if_pos (by omega)]

theorem At.iterate (hholds : Holds before) (h : At before 0 c) (t : ℕ) :
    At before t (CellMachine.step^[t] c) := by
  induction t with
  | zero => exact h
  | succ t ih =>
    rw [Function.iterate_succ_apply']
    exact ih.step hholds

def loaded : Machine :=
  { Machine.fresh with memory := Memory.zero.fill 0 code }

theorem read_loaded (a : Word) : loaded.memory.read a = (code[a.toNat]?).getD 0 := by
  change (Memory.zero.fill 0 code).read a = _
  rw [Memory.read_fill _ _ _ _ (by decide), UInt16.sub_zero, Memory.read_zero]

theorem holds_loaded : Holds loaded.memory.read := by
  intro i hi
  have hnat : (UInt16.ofNat i).toNat = i := by
    rw [UInt16.toNat_ofNat']
    omega
  rw [read_loaded, hnat, List.getD_eq_getElem?_getD]

theorem at_loaded : At loaded.memory.read 0 loaded.cells where
  memory := by
    show loaded.memory.read =
      Function.update loaded.memory.read 0x10 (loaded.memory.read 0x10 + 0)
    rw [UInt16.add_zero, Function.update_eq_self]
  pc := rfl
  halted := rfl
  emitted := rfl

theorem at_iterate (t : ℕ) : At loaded.memory.read t (Machine.step^[t] loaded).cells := by
  rw [Machine.cells_iterate_step]
  exact at_loaded.iterate holds_loaded t

theorem executed_loaded (budget : ℕ) : Machine.executed budget loaded = budget :=
  Machine.executed_of_running fun i _ => (at_iterate i).halted

theorem at_run (budget : ℕ) : At loaded.memory.read budget (loaded.run budget).cells := by
  rw [Machine.run_eq_iterate, executed_loaded]
  exact at_iterate budget

theorem outcome_loaded (budget : ℕ) :
    (⟨(loaded.run budget).output, loaded.executed budget, (loaded.run budget).ending⟩ :
      Session.Outcome) = ⟨"", budget, .stepLimit⟩ := by
  have hat := at_run budget
  have hhalted : (loaded.run budget).halted = false := hat.halted
  have hemitted : (loaded.run budget).emitted.toList = [] := List.map_eq_nil_iff.mp hat.emitted
  unfold Machine.output Machine.ending
  rw [hemitted, hhalted, executed_loaded]
  rfl

theorem read_run (budget : ℕ) (a : Word) : (loaded.run budget).memory.read a =
    if a = 0x10 then UInt16.ofNat ((budget + 1) / 2) else loaded.memory.read a := by
  have hzero : loaded.memory.read 0x10 = 0 := read_loaded 0x10
  have hmemory : (loaded.run budget).memory.read = _ := (at_run budget).memory
  rw [hmemory, hzero, UInt16.zero_add, Function.update_apply]

/-- What is behind the code at the end of a run. -/
theorem nonzeroFrom_run (budget : ℕ) : (loaded.run budget).memory.nonzeroFrom 7 =
    if (budget + 1) / 2 % 65536 = 0 then [] else [(16, UInt16.ofNat ((budget + 1) / 2))] := by
  have hcell : (loaded.run budget).memory.read (UInt16.ofNat 16) =
      UInt16.ofNat ((budget + 1) / 2) := read_run budget 0x10
  have hzero : ∀ b, 7 ≤ b → b < cellCount → b ≠ 16 →
      (loaded.run budget).memory.read (UInt16.ofNat b) = 0 := by
    intro b hle hlt hne
    have hsize : cellCount = 65536 := rfl
    have hnat : (UInt16.ofNat b).toNat = b := by
      rw [UInt16.toNat_ofNat']
      omega
    have hother : UInt16.ofNat b ≠ 0x10 := by
      intro hsame
      rw [hsame] at hnat
      exact hne hnat.symm
    rw [read_run, if_neg hother, read_loaded, hnat, List.getElem?_eq_none hle]
    rfl
  have hcount : UInt16.ofNat ((budget + 1) / 2) = 0 ↔ (budget + 1) / 2 % 65536 = 0 := by
    rw [← UInt16.toNat_inj, UInt16.toNat_ofNat']
    rfl
  rw [Memory.nonzeroFrom_eq (by decide) (by decide) hzero, hcell]
  simp only [hcount]

theorem load_code (m : Machine) : m.load (Record.numbersOf code) 0 0 =
    (.ok (), { m with memory := m.memory.fill 0 code, pc := 0 }) := by
  have hfits : Fits (Record.numbersOf code) 0 := by
    unfold Fits
    decide
  exact m.load_of_words hfits (by decide) (by decide)

def source : String :=
  "2502 0010 0001 0010   # [0x10] = 1 + [0x10]\n"
    ++ "2003 0000 0000        # goto 0\n"

theorem ofText_source : Image.ofText source = .ok code := by
  have happend : Text.ofString source = _ := Text.ofString_append _ _
  rw [happend, Text.ofString_ofList, Text.ofString_ofList]
  decide +kernel

def record (limit : ℕ) : Entries := [
  (.text "image", .text source),
  (.text "entry", .int 0),
  (.text "config", .map [(.text "step_limit", .int limit)])]

theorem asks_record (docs : Documents) (files : Files) (limit : ℕ) :
    Record.Asks docs files (record limit) code 0 { Settings.default with stepLimit := limit } where
  image := by
    rw [record, Record.imageOf_cons, ofText_source]
    rfl
  entry := rfl
  settings := Settings.ofEntries_of_right ⟨rfl, rfl, rfl, rfl, rfl⟩

/-- What is expected of a record that asks for the loop. -/
theorem expectations_of_asks {docs : Documents} {files : Files} {r : Entries} {settings : Settings}
    (hasks : Record.Asks docs files r code 0 settings) :
    Record.expectations docs files r = .ok {
      outcome := ⟨"", settings.stepLimit, .stepLimit⟩
      pc := if settings.stepLimit % 2 = 0 then 0 else 4
      memory :=
        if (settings.stepLimit + 1) / 2 % 65536 = 0 then []
        else [(16, UInt16.ofNat ((settings.stepLimit + 1) / 2))]
      listing := "0 - 2502 0010 0001 0010 - ADD 0x0001 [0x0010] -> [0x0010]\n"
        ++ "4 - 2003 0000 0000 - JUMP_IF_ZERO 0x0000 0x0000\n" } := by
  have hload : Machine.fresh.load (Record.numbersOf code)
      (Run.entryOf { settings with entryPoint := none } 0) 0 = (.ok (), loaded) := load_code .fresh
  have hrun : Record.runOf settings code 0 =
      .ok (⟨"", settings.stepLimit, .stepLimit⟩, loaded.run settings.stepLimit) := by
    unfold Record.runOf Run.unobserved
    rw [hload, ← outcome_loaded]
  have hlisting : Listing.text? (Listing.disassemble 0 (Record.numbersOf code)) =
      some ("0 - 2502 0010 0001 0010 - ADD 0x0001 [0x0010] -> [0x0010]\n"
        ++ "4 - 2003 0000 0000 - JUMP_IF_ZERO 0x0000 0x0000") := by decide +kernel
  have hpc : (loaded.run settings.stepLimit).pc = if settings.stepLimit % 2 = 0 then 0 else 4 :=
    (at_run settings.stepLimit).pc
  have hmemory := nonzeroFrom_run settings.stepLimit
  have hlength : code.length = 7 := rfl
  have hall : (Record.numbersOf code).drop (0 : Int).toNat = Record.numbersOf code := rfl
  rw [Record.expectations_eq hasks, hrun]
  unfold Record.expected
  dsimp only [Except.map]
  rw [hpc, hlength, hmemory, hall, hlisting, Option.getD_some, String.append_assoc]
  rfl

/-- The loop counts every other one of its steps, for as long as its budget lasts, and writes
nothing else. What is expected of a record of the loop is its count, unless that has come round to
zero. -/
theorem counts_half_steps (limit : ℕ) (tracing logging streaming : Bool) :
    (∃ s, (Session.start tracing logging streaming).load (Record.numbersOf code) 0 0 = (.ok (), s) ∧
      (s.run limit).1 = ⟨"", limit, .stepLimit⟩ ∧
      (s.run limit).2.machine.pc = (if limit % 2 = 0 then 0 else 4) ∧
      ((s.run limit).2.machine.memory.read 0x10).toNat = (limit + 1) / 2 % 65536 ∧
      ∀ a, a ≠ 0x10 → (s.run limit).2.machine.memory.read a = s.machine.memory.read a) ∧
    (∀ docs files record settings, Record.Asks docs files record code 0 settings →
      settings.stepLimit = limit →
      Record.expectations docs files record = .ok {
        outcome := ⟨"", limit, .stepLimit⟩
        pc := if limit % 2 = 0 then 0 else 4
        memory :=
          if (limit + 1) / 2 % 65536 = 0 then [] else [(16, UInt16.ofNat ((limit + 1) / 2))]
        listing := "0 - 2502 0010 0001 0010 - ADD 0x0001 [0x0010] -> [0x0010]\n"
          ++ "4 - 2003 0000 0000 - JUMP_IF_ZERO 0x0000 0x0000\n" }) ∧
    ∀ docs files, Record.Asks docs files (record limit) code 0
      { Settings.default with stepLimit := limit } := by
  refine ⟨?_, ?_, fun docs files => asks_record docs files limit⟩
  · let start := Session.start tracing logging streaming
    have hload := load_code .fresh
    refine ⟨(start.load (Record.numbersOf code) 0 0).2, Prod.ext ?_ rfl, ?_⟩
    · exact (start.load_answer _ 0 0).trans (congrArg Prod.fst hload)
    have hmachine : (start.load (Record.numbersOf code) 0 0).2.machine = loaded :=
      (start.load_machine _ 0 0).trans (congrArg Prod.snd hload)
    generalize (start.load (Record.numbersOf code) 0 0).2 = s at hmachine
    obtain ⟨houtcome, hlast, -⟩ := s.run_eq limit
    rw [hmachine, Int.toNat_natCast] at houtcome hlast
    rw [houtcome, hlast, hmachine]
    refine ⟨outcome_loaded limit, (at_run limit).pc, ?_, fun a ha => ?_⟩
    · rw [read_run, if_pos rfl, UInt16.toNat_ofNat']
    · rw [read_run, if_neg ha]
  · rintro docs files record settings hasks rfl
    exact expectations_of_asks hasks

/-- After 131071 steps the count has come round to zero. -/
theorem counts_half_steps_round :
    let settings : Settings := { Settings.default with stepLimit := 131071 }
    Record.Asks .yaml .empty (record 131071) code 0 settings ∧ settings.stepLimit = 131071 ∧
      ∃ e, Record.expectations .yaml .empty (record 131071) = .ok e ∧ e.outcome.executed = 131071 ∧
        e.pc = 4 ∧ e.memory = [] := by
  intro settings
  obtain ⟨-, hexpected, hasks⟩ := counts_half_steps 131071 false false false
  have hasked := hasks .yaml .empty
  exact ⟨hasked, rfl, _, hexpected .yaml .empty _ settings hasked rfl, rfl, rfl, rfl⟩

end Counter

end WordMachine
