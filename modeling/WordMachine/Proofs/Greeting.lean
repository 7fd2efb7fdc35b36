import Mathlib.Data.List.GetD
import WordMachine.Image.Greeting
import WordMachine.Proofs.Budget
import WordMachine.Proofs.Cells
import WordMachine.Proofs.Storage

/-!
What the greeting writes. Its code is followed instruction by instruction: each has an assertion
about the index and the letter in memory, which a step carries on to the next, and the last one of
the loop to the first with one letter more. So it writes any text that is put in front of the code,
in six steps for every letter, and halts six steps after the last.
-/
namespace WordMachine

namespace Greeting

/-- A text with a zero behind it is in memory, and the code in its place. -/
structure Holds (text : List Word) (memory : Word → Word) : Prop where
  text : ∀ i ≤ text.length, memory (UInt16.ofNat i) = text.getD i 0
  code : ∀ i < 21, memory (UInt16.ofNat (15 + i)) = UInt16.ofInt (Image.greetingCode.getD i 0)

theorem Holds.update {text : List Word} {memory : Word → Word} {a : Word}
    (h : Holds text memory) (hshort : text.length ≤ 14) (ha : 36 ≤ a.toNat) (v : Word) :
    Holds text (Function.update memory a v) where
  text i hi := by
    have hne : UInt16.ofNat i ≠ a := Word.ofNat_ne (by omega)
    rw [Function.update_of_ne hne]
    exact h.text i hi
  code i hi := by
    have hne : UInt16.ofNat (15 + i) ≠ a := Word.ofNat_ne (by omega)
    rw [Function.update_of_ne hne]
    exact h.code i hi

/-- The instructions of the code, in the order in which they stand, and what is behind the last. -/
inductive Stage
  | clear
  | aim
  | take
  | count
  | test
  | emit
  | back
  | halt
  | done
deriving DecidableEq

namespace Stage

def address : Stage → Word
  | clear => 15
  | aim => 18
  | take => 20
  | count => 22
  | test => 26
  | emit => 29
  | back => 32
  | halt => 35
  | done => 36

def instruction : Stage → Instruction
  | clear => ⟨.copy, 1, false, false, true⟩
  | aim => ⟨.none, 1, true, false, false⟩
  | take => ⟨.copy, 0, true, false, true⟩
  | count => ⟨.add, 2, false, true, true⟩
  | test => ⟨.jumpIfZero, 2, false, true, false⟩
  | emit => ⟨.poke, 2, false, true, false⟩
  | back => ⟨.jumpIfZero, 2, false, false, false⟩
  | halt => ⟨.halt, 0, false, false, false⟩
  | done => default

/-- What the slots hold once the operands are fetched and read through memory. -/
def inputs (c : CellMachine) : Stage → Slot → Word
  | clear => Function.update c.slots .first 0
  | aim => Function.update c.slots .first (c.memory 0x7F)
  | take => Function.update c.slots .first (c.memory (c.slots .first))
  | count => Function.update (Function.update c.slots .first 1) .second (c.memory 0x7F)
  | test => Function.update (Function.update c.slots .first 35) .second (c.memory 0x80)
  | emit => Function.update (Function.update c.slots .first 0) .second (c.memory 0x80)
  | back => Function.update (Function.update c.slots .first 18) .second 0
  | halt => c.slots
  | done => c.slots

/-- What the instruction does to a machine, besides being counted and filling the slots. -/
def effect (c : CellMachine) : Stage → CellMachine
  | clear => { c with
      memory := Function.update c.memory 0x7F 0
      out := 0
      pc := aim.address }
  | aim => { c with pc := take.address }
  | take => { c with
      memory := Function.update c.memory 0x80 (c.memory (c.slots .first))
      out := c.memory (c.slots .first)
      pc := count.address }
  | count => { c with
      memory := Function.update c.memory 0x7F (1 + c.memory 0x7F)
      out := 1 + c.memory 0x7F
      pc := test.address }
  | test => { c with pc := if c.memory 0x80 = 0 then halt.address else emit.address }
  | emit => { c with
      emitted := c.emitted ++ [(c.memory 0x80).toNat % 256]
      pc := back.address }
  | back => { c with pc := aim.address }
  | halt => { c with
      halted := true
      pc := done.address }
  | done => c

/-- How many steps have been done since the first instruction, or in this round of the loop. -/
def time : Stage → ℕ
  | clear => 0
  | aim => 1
  | take => 2
  | count => 3
  | test => 4
  | emit => 5
  | back => 6
  | halt => 5
  | done => 6

/-- What holds at the instruction in the round of letter `k`. The zero behind the text has a round,
too, which ends in the halt. -/
def Asserts (text : List Word) (k : ℕ) (c : CellMachine) : Stage → Prop
  | clear => k = 0
  | aim => k ≤ text.length ∧ c.memory 0x7F = UInt16.ofNat k
  | take => k ≤ text.length ∧ c.memory 0x7F = UInt16.ofNat k ∧ c.slots .first = UInt16.ofNat k
  | count => k ≤ text.length ∧ c.memory 0x7F = UInt16.ofNat k ∧ c.memory 0x80 = text.getD k 0
  | test =>
    k ≤ text.length ∧ c.memory 0x7F = UInt16.ofNat (k + 1) ∧ c.memory 0x80 = text.getD k 0
  | emit =>
    k < text.length ∧ c.memory 0x7F = UInt16.ofNat (k + 1) ∧ c.memory 0x80 = text.getD k 0
  | back => k < text.length ∧ c.memory 0x7F = UInt16.ofNat (k + 1)
  | halt => k = text.length ∧ c.memory 0x7F = UInt16.ofNat (k + 1) ∧ c.memory 0x80 = 0
  | done => k = text.length ∧ c.memory 0x7F = UInt16.ofNat (k + 1) ∧ c.memory 0x80 = 0

end Stage

open CellMachine

section

variable {text : List Word} {c : CellMachine} {stage : Stage}

theorem instruction_eq (h : Holds text c.memory) (hpc : c.pc = stage.address)
    (hmore : stage ≠ .done) : c.instruction = stage.instruction := by
  unfold instruction
  rw [hpc]
  cases stage with
  | clear => exact congrArg Instruction.decode (h.code 0 (by omega))
  | aim => exact congrArg Instruction.decode (h.code 3 (by omega))
  | take => exact congrArg Instruction.decode (h.code 5 (by omega))
  | count => exact congrArg Instruction.decode (h.code 7 (by omega))
  | test => exact congrArg Instruction.decode (h.code 11 (by omega))
  | emit => exact congrArg Instruction.decode (h.code 14 (by omega))
  | back => exact congrArg Instruction.decode (h.code 17 (by omega))
  | halt => exact congrArg Instruction.decode (h.code 20 (by omega))
  | done => exact absurd rfl hmore

theorem inputs_eq (h : Holds text c.memory) (hpc : c.pc = stage.address)
    (hmore : stage ≠ .done) : c.inputs = stage.inputs c := by
  have hi := instruction_eq h hpc hmore
  funext s
  unfold inputs loaded operand targetWidth
  rw [hi, hpc]
  cases stage with
  | clear =>
    have hfirst : c.memory 17 = 0 := h.code 2 (by omega)
    cases s <;> simp [Stage.inputs, Stage.instruction, Stage.address, Slot.index, hfirst]
  | aim =>
    have hfirst : c.memory 19 = 0x7F := h.code 4 (by omega)
    cases s <;> simp [Stage.inputs, Stage.instruction, Stage.address, Slot.index, hfirst]
  | take => cases s <;> simp [Stage.inputs, Stage.instruction, Slot.index]
  | count =>
    have hfirst : c.memory 24 = 1 := h.code 9 (by omega)
    have hsecond : c.memory 25 = 0x7F := h.code 10 (by omega)
    cases s <;> simp [Stage.inputs, Stage.instruction, Stage.address, Slot.index, hfirst, hsecond]
  | test =>
    have hfirst : c.memory 27 = 35 := h.code 12 (by omega)
    have hsecond : c.memory 28 = 0x80 := h.code 13 (by omega)
    cases s <;> simp [Stage.inputs, Stage.instruction, Stage.address, Slot.index, hfirst, hsecond]
  | emit =>
    have hfirst : c.memory 30 = 0 := h.code 15 (by omega)
    have hsecond : c.memory 31 = 0x80 := h.code 16 (by omega)
    cases s <;> simp [Stage.inputs, Stage.instruction, Stage.address, Slot.index, hfirst, hsecond]
  | back =>
    have hfirst : c.memory 33 = 18 := h.code 18 (by omega)
    have hsecond : c.memory 34 = 0 := h.code 19 (by omega)
    cases s <;> simp [Stage.inputs, Stage.instruction, Stage.address, Slot.index, hfirst, hsecond]
  | halt => cases s <;> simp [Stage.inputs, Stage.instruction, Slot.index]
  | done => exact absurd rfl hmore

theorem step_eq (h : Holds text c.memory) (hpc : c.pc = stage.address) (hmore : stage ≠ .done) :
    c.step = { stage.effect c with slots := stage.inputs c, steps := c.steps + 1 } := by
  have hi := instruction_eq h hpc hmore
  unfold step result target targetWidth
  rw [hi, hpc, inputs_eq h hpc hmore]
  cases stage with
  | clear =>
    have htarget : c.memory 16 = 0x7F := h.code 1 (by omega)
    simp [Stage.effect, Stage.instruction, Stage.inputs, Stage.address, htarget]
  | take =>
    have htarget : c.memory 21 = 0x80 := h.code 6 (by omega)
    simp [Stage.effect, Stage.instruction, Stage.inputs, Stage.address, htarget]
  | count =>
    have htarget : c.memory 23 = 0x7F := h.code 8 (by omega)
    simp [Stage.effect, Stage.instruction, Stage.inputs, Stage.address, htarget]
  | done => exact absurd rfl hmore
  | _ => simp [Stage.effect, Stage.instruction, Stage.inputs, Stage.address]

/-- A machine at an instruction of the code, in the round of letter `k`. The letters of the rounds
before are emitted, and this one's if the round has come to its end. -/
structure At (text : List Word) (stage : Stage) (k : ℕ) (c : CellMachine) : Prop where
  holds : Holds text c.memory
  pc : c.pc = stage.address
  asserts : stage.Asserts text k c
  halted : c.halted = decide (stage = .done)
  emitted : c.emitted = (text.take (k + stage.time / 6)).map fun w => w.toNat % 256

variable {k : ℕ}

theorem At.step (hshort : text.length ≤ 14) (hletters : ∀ w ∈ text, w ≠ 0)
    (h : At text stage k c) (hmore : stage ≠ .done) :
    ∃ stage' k', At text stage' k' c.step ∧
      stage'.time + 6 * k' = stage.time + 6 * k + 1 := by
  obtain ⟨hholds, hpc, hasserts, hhalted, hemitted⟩ := h
  rw [step_eq hholds hpc hmore]
  cases stage with
  | clear =>
    have hk : k = 0 := hasserts
    -- here as below, the cell that is written stands behind text and code
    refine ⟨.aim, k, ⟨?_, rfl, ?_, hhalted, hemitted⟩, ?_⟩
    · exact hholds.update hshort (by decide) 0
    · simp [Stage.Asserts, Stage.effect, hk]
    · show 1 + 6 * k = 0 + 6 * k + 1
      omega
  | aim =>
    obtain ⟨hle, hindex⟩ := hasserts
    refine ⟨.take, k, ⟨hholds, rfl, ?_, hhalted, hemitted⟩, ?_⟩
    · simp [Stage.Asserts, Stage.effect, Stage.inputs, hle, hindex]
    · show 2 + 6 * k = 1 + 6 * k + 1
      omega
  | take =>
    obtain ⟨hle, hindex, hslot⟩ := hasserts
    have hletter : c.memory (c.slots .first) = text.getD k 0 := by
      rw [hslot]
      exact hholds.text k hle
    refine ⟨.count, k, ⟨?_, rfl, ?_, hhalted, hemitted⟩, ?_⟩
    · exact hholds.update hshort (by decide) _
    · simp [Stage.Asserts, Stage.effect, hle, hindex, hletter]
    · show 3 + 6 * k = 2 + 6 * k + 1
      omega
  | count =>
    obtain ⟨hle, hindex, hletter⟩ := hasserts
    have hnext : 1 + c.memory 0x7F = UInt16.ofNat (k + 1) := by
      rw [hindex, UInt16.ofNat_add, UInt16.add_comm]
      rfl
    refine ⟨.test, k, ⟨?_, rfl, ?_, hhalted, hemitted⟩, ?_⟩
    · exact hholds.update hshort (by decide) _
    · simp [Stage.Asserts, Stage.effect, hle, hnext, hletter]
    · show 4 + 6 * k = 3 + 6 * k + 1
      omega
  | test =>
    obtain ⟨hle, hindex, hletter⟩ := hasserts
    -- the loop goes on with a letter and ends with the zero behind the text
    by_cases hlast : k = text.length
    · have hzero : c.memory 0x80 = 0 := by
        rw [hletter, hlast]
        simp
      refine ⟨.halt, k, ⟨hholds, ?_, ⟨hlast, hindex, hzero⟩, hhalted, hemitted⟩, ?_⟩
      · simp [Stage.effect, hzero]
      · show 5 + 6 * k = 4 + 6 * k + 1
        omega
    · have hlt : k < text.length := by omega
      have hword : c.memory 0x80 ≠ 0 := by
        rw [hletter, List.getD_eq_getElem _ _ hlt]
        exact hletters _ (List.getElem_mem hlt)
      refine ⟨.emit, k, ⟨hholds, ?_, ⟨hlt, hindex, hletter⟩, hhalted, hemitted⟩, ?_⟩
      · simp [Stage.effect, hword]
      · show 5 + 6 * k = 4 + 6 * k + 1
        omega
  | emit =>
    obtain ⟨hlt, hindex, hletter⟩ := hasserts
    have hnext : text.take (k + 1) = text.take k ++ [c.memory 0x80] := by
      rw [hletter, List.getD_eq_getElem _ _ hlt]
      exact (List.take_append_getElem hlt).symm
    refine ⟨.back, k, ⟨hholds, rfl, ⟨hlt, hindex⟩, hhalted, ?_⟩, ?_⟩
    · show c.emitted ++ [(c.memory 0x80).toNat % 256] = (text.take (k + 1)).map _
      rw [hemitted, hnext, List.map_append]
      rfl
    · show 6 + 6 * k = 5 + 6 * k + 1
      omega
  | back =>
    obtain ⟨hlt, hindex⟩ := hasserts
    refine ⟨.aim, k + 1, ⟨hholds, rfl, ⟨hlt, hindex⟩, hhalted, hemitted⟩, ?_⟩
    show 1 + 6 * (k + 1) = 6 + 6 * k + 1
    omega
  | halt =>
    obtain ⟨hlast, hindex, hzero⟩ := hasserts
    refine ⟨.done, k, ⟨hholds, rfl, ⟨hlast, hindex, hzero⟩, rfl, ?_⟩, ?_⟩
    · show c.emitted = (text.take (k + 1)).map _
      rw [hemitted, hlast, List.take_of_length_le (by omega), List.take_of_length_le (by omega)]
    · show 6 + 6 * k = 5 + 6 * k + 1
      omega
  | done => exact absurd rfl hmore

theorem At.le (h : At text stage k c) : k ≤ text.length := by
  have hasserts := h.asserts
  cases stage <;> simp only [Stage.Asserts] at hasserts <;> omega

/-- The code is done after six steps for every letter and six for the zero. -/
theorem At.done_iff (h : At text stage k c) :
    stage = .done ↔ stage.time + 6 * k = 6 * text.length + 6 := by
  have hle := h.le
  have hasserts := h.asserts
  cases stage <;> simp only [Stage.Asserts] at hasserts <;> simp [Stage.time] <;> omega

theorem At.iterate (hshort : text.length ≤ 14) (hletters : ∀ w ∈ text, w ≠ 0)
    (h : At text .clear 0 c) {t : ℕ} (ht : t ≤ 6 * text.length + 6) :
    ∃ stage k, At text stage k (CellMachine.step^[t] c) ∧ stage.time + 6 * k = t := by
  induction t with
  | zero => exact ⟨.clear, 0, h, rfl⟩
  | succ t ih =>
    obtain ⟨stage, k, hat, htime⟩ := ih (by omega)
    have hmore : stage ≠ .done := by
      intro hdone
      have hend := hat.done_iff.mp hdone
      omega
    obtain ⟨stage', k', hnext, hone⟩ := hat.step hshort hletters hmore
    refine ⟨stage', k', ?_, by omega⟩
    rw [Function.iterate_succ_apply']
    exact hnext

/-- What is poked is the letter of the round, and not the zero behind the text. -/
theorem At.poked (h : At text stage k c) (hmore : stage ≠ .done)
    (hpoke : c.instruction.operation = .poke) :
    stage = .emit ∧ text[k]? = some (c.inputs .second) := by
  rw [instruction_eq h.holds h.pc hmore] at hpoke
  have hemit : stage = .emit := by
    cases stage <;> first | rfl | exact absurd hpoke (by decide)
  subst hemit
  obtain ⟨hlt, -, hletter⟩ := h.asserts
  refine ⟨rfl, ?_⟩
  rw [inputs_eq h.holds h.pc hmore]
  show text[k]? = some (c.memory 0x80)
  rw [hletter, List.getD_eq_getElem _ _ hlt]
  exact List.getElem?_eq_getElem hlt

end

/-- The greeting with other words in front of its code. -/
def image (cells : List Word) : List Int :=
  cells.map (fun w => (w.toNat : Int)) ++ Image.greeting.drop cells.length

example : image (Image.greetingText.map UInt16.ofInt ++ [0]) = Image.greeting := by decide

section

variable {text behind : List Word}

theorem image_eq (hlength : (text ++ 0 :: behind).length = 15) :
    image (text ++ 0 :: behind) =
      (text ++ 0 :: behind).map (fun w => (w.toNat : Int)) ++ Image.greetingCode := by
  unfold image
  rw [hlength]
  rfl

theorem isWord_of_mem_image (hlength : (text ++ 0 :: behind).length = 15) :
    ∀ n ∈ image (text ++ 0 :: behind), IsWord n := by
  have hcode : ∀ n ∈ Image.greetingCode, IsWord n := by decide
  intro n hn
  rw [image_eq hlength] at hn
  rcases List.mem_append.mp hn with hcell | hlater
  · exact Word.isWord_of_mem_map hcell
  · exact hcode n hlater

theorem length_image (hlength : (text ++ 0 :: behind).length = 15) :
    (image (text ++ 0 :: behind)).length = 36 := by
  have hcode : Image.greetingCode.length = 21 := rfl
  rw [image_eq hlength, List.length_append, List.length_map, hlength, hcode]

theorem holds_of_stores {before after : Memory} (hlength : (text ++ 0 :: behind).length = 15)
    (h : before.Stores after (image (text ++ 0 :: behind)) 0 36) : Holds text after.cell := by
  have hcell : ∀ i < 36,
      ((text ++ 0 :: behind).map (fun w => (w.toNat : Int)) ++ Image.greetingCode)[i]? =
        some ((after.cell (UInt16.ofNat i)).toNat : Int) := by
    intro i hi
    rw [← image_eq hlength]
    have hnat : (UInt16.ofNat i).toNat = i := by
      rw [UInt16.toNat_ofNat']
      omega
    have hinside := h.inside (UInt16.ofNat i) (by omega) (by omega)
    rw [hnat] at hinside
    exact hinside
  have hcells : ((text ++ 0 :: behind).map fun w => (w.toNat : Int)).length = 15 := by
    rw [List.length_map, hlength]
  rw [List.length_append, List.length_cons] at hlength
  constructor
  · intro i hi
    have hletter : (text ++ 0 :: behind)[i]? = some (text.getD i 0) := by
      by_cases hlt : i < text.length
      · rw [List.getElem?_append_left hlt, List.getD_eq_getElem _ _ hlt,
          List.getElem?_eq_getElem hlt]
      · have hlast : i = text.length := by omega
        rw [hlast]
        simp
    have hfound := hcell i (by omega)
    rw [List.getElem?_append_left (by omega), List.getElem?_map, hletter,
      Option.map_some] at hfound
    apply UInt16.toNat_inj.mp
    exact_mod_cast (Option.some_inj.mp hfound).symm
  · intro i hi
    have hcode : ∀ j < 21, Image.greetingCode[j]? =
        some ((UInt16.ofInt (Image.greetingCode.getD j 0)).toNat : Int) := by
      decide
    have hfound := hcell (15 + i) (by omega)
    rw [List.getElem?_append_right (by omega), hcells, Nat.add_sub_cancel_left,
      hcode i hi] at hfound
    apply UInt16.toNat_inj.mp
    exact_mod_cast (Option.some_inj.mp hfound).symm

end

/-- A machine with a text and the code in memory that is about to begin. -/
structure Ready (text : List Word) (m : Machine) : Prop where
  short : text.length ≤ 14
  letters : ∀ w ∈ text, w ≠ 0
  at_clear : At text .clear 0 m.cells

section

variable {text : List Word} {m : Machine}

theorem Ready.at_iterate (h : Ready text m) {t : ℕ} (ht : t ≤ 6 * text.length + 6) :
    ∃ stage k, At text stage k (Machine.step^[t] m).cells ∧ stage.time + 6 * k = t := by
  have hcells : (Machine.step^[t] m).cells = CellMachine.step^[t] m.cells :=
    Function.Semiconj.iterate_right Machine.cells_step t m
  rw [hcells]
  exact h.at_clear.iterate h.short h.letters ht

theorem Ready.halted_iterate (h : Ready text m) {t : ℕ} (ht : t ≤ 6 * text.length + 6) :
    (Machine.step^[t] m).halted = decide (t = 6 * text.length + 6) := by
  obtain ⟨stage, k, hat, htime⟩ := h.at_iterate ht
  have hhalted : (Machine.step^[t] m).halted = decide (stage = .done) := hat.halted
  rw [hhalted, decide_eq_decide, hat.done_iff, htime]

theorem Ready.executed (h : Ready text m) (budget : ℕ) :
    Machine.executed budget m = min budget (6 * text.length + 6) := by
  apply Machine.executed_of_halted_iterate
  · intro i hi
    rw [h.halted_iterate (by omega)]
    exact decide_eq_false (by omega)
  · rw [h.halted_iterate (Nat.le_refl _)]
    exact decide_eq_true rfl

theorem Ready.emitted_iterate (h : Ready text m) {t : ℕ} (ht : t ≤ 6 * text.length + 6) :
    (Machine.step^[t] m).emitted.toList = (text.take (t / 6)).map Word.low := by
  obtain ⟨stage, k, hat, htime⟩ := h.at_iterate ht
  have hround : k + stage.time / 6 = t / 6 := by omega
  have hbytes : (Machine.step^[t] m).emitted.toList.map UInt8.toNat =
      ((text.take (t / 6)).map Word.low).map UInt8.toNat := by
    rw [List.map_map, ← hround]
    refine hat.emitted.trans ?_
    apply List.map_congr_left
    intro w _
    exact (Word.toNat_low w).symm
  exact List.map_injective_iff.mpr (fun _ _ => UInt8.toNat_inj.mp) hbytes

theorem Ready.poked (h : Ready text m) {t : ℕ} (ht : t < 6 * text.length + 6)
    (hpoke : (Machine.step^[t] m).instruction.operation = .poke) :
    text[t / 6]? = some ((Machine.step^[t] m).inputs .second) := by
  obtain ⟨stage, k, hat, htime⟩ := h.at_iterate (Nat.le_of_lt ht)
  have hmore : stage ≠ .done := by
    intro hdone
    have hend := hat.done_iff.mp hdone
    omega
  obtain ⟨hemit, hletter⟩ := hat.poked hmore hpoke
  have hround : t / 6 = k := by
    have hfive : stage.time = 5 := by rw [hemit]; rfl
    omega
  rw [hround, ← Machine.cells_inputs]
  exact hletter

end

end Greeting

namespace Session

open Greeting

theorem exists_load_greeting {text behind : List Word} (hletters : ∀ w ∈ text, w ≠ 0)
    (hlength : (text ++ 0 :: behind).length = 15) (tracing logging streaming : Bool) :
    ∃ s, (start tracing logging streaming).load (Greeting.image (text ++ 0 :: behind))
        Image.greetingEntry 0 = (.ok (), s) ∧ Ready text s.machine := by
  have hcount := length_image hlength
  have hwords := isWord_of_mem_image hlength
  have hfits : Fits (Greeting.image (text ++ 0 :: behind)) 0 := by
    unfold Fits
    omega
  have hentry : IsWord Image.greetingEntry := by decide
  have hstores := Machine.fresh.stores_load_of_words hfits hentry hwords
  rw [Machine.load_of_words _ hfits hentry hwords, hcount] at hstores
  have hholds := holds_of_stores hlength hstores
  obtain ⟨s, hload, hmachine⟩ :=
    (start tracing logging streaming).exists_load_of_words hfits hentry hwords
  rw [List.length_append, List.length_cons] at hlength
  refine ⟨s, hload, by omega, hletters, ?_⟩
  rw [hmachine]
  exact ⟨hholds, rfl, rfl, rfl, rfl⟩

/-- The greeting writes any text that is put in its place, as far as its budget reaches. With `n`
letters it takes six steps for each and six more, in the last of which it halts. -/
theorem run_greeting {text behind : List Word} (hletters : ∀ w ∈ text, w ≠ 0)
    (hlength : (text ++ 0 :: behind).length = 15) (tracing logging streaming : Bool)
    (limit : ℕ) :
    ∃ s, (start tracing logging streaming).load (Greeting.image (text ++ 0 :: behind))
        Image.greetingEntry 0 = (.ok (), s) ∧
      (s.run limit).1.executed = min limit (6 * text.length + 6) ∧
      (s.run limit).1.ending.name =
        (if 6 * text.length + 6 ≤ limit then "halted" else "step_limit") ∧
      (s.run limit).1.output =
        characters ((text.take (min text.length (limit / 6))).map Word.low) ∧
      (∀ i < (s.run limit).1.executed,
        (Machine.step^[i] s.machine).instruction.operation = .poke →
          text[i / 6]? = some ((Machine.step^[i] s.machine).inputs .second)) ∧
      (6 * text.length + 6 ≤ limit →
        (s.run limit).2.machine.pc = 36 ∧
        (s.run limit).2.machine.memory.read 0x7F = UInt16.ofNat (text.length + 1) ∧
        (s.run limit).2.machine.memory.read 0x80 = 0) := by
  obtain ⟨s, hload, hready⟩ := exists_load_greeting hletters hlength tracing logging streaming
  have hexecuted : (s.run limit).1.executed = min limit (6 * text.length + 6) := by
    rw [(s.run_eq limit).1]
    exact hready.executed limit
  obtain ⟨hmachine, -, houtput, hending⟩ := s.run_counts limit
  rw [hexecuted] at hmachine
  refine ⟨s, hload, hexecuted, ?_, ?_, ?_, ?_⟩
  · rw [hending, hmachine, hready.halted_iterate (by omega)]
    by_cases hlong : 6 * text.length + 6 ≤ limit
    · rw [if_pos hlong, min_eq_right hlong, decide_eq_true rfl, if_pos rfl]
    · rw [if_neg hlong, min_eq_left (by omega), decide_eq_false (by omega),
        if_neg Bool.false_ne_true]
  · have hletters : text.take (min limit (6 * text.length + 6) / 6) =
        text.take (min text.length (limit / 6)) := by
      rw [List.take_eq_take_iff]
      omega
    rw [houtput, hmachine, ← hletters, ← hready.emitted_iterate (by omega)]
    rfl
  · intro i hi
    exact hready.poked (by omega)
  · intro hlong
    rw [min_eq_right hlong] at hmachine
    obtain ⟨stage, k, hat, htime⟩ := hready.at_iterate (Nat.le_refl _)
    have hdone : stage = .done := hat.done_iff.mpr htime
    subst hdone
    obtain ⟨hlast, hindex, hzero⟩ := hat.asserts
    rw [hmachine]
    rw [hlast] at hindex
    exact ⟨hat.pc, hindex, hzero⟩

/-- Two letters with a zero and other words behind them. Of a budget of 99 a run takes 18 steps. -/
theorem run_greeting_two_letters :
    (∀ w ∈ ([0x48, 0x69] : List Word), w ≠ 0) ∧
    ([0x48, 0x69] ++ 0 :: List.replicate 12 (0xFFFF : Word)).length = 15 ∧
    ∃ s, (start false false true).load
        (Greeting.image ([0x48, 0x69] ++ 0 :: List.replicate 12 0xFFFF)) Image.greetingEntry 0 =
          (.ok (), s) ∧
      (s.run 99).1.executed = 18 ∧ (s.run 99).1.ending.name = "halted" ∧
      (s.run 99).1.output = "Hi" ∧ (s.run 99).2.machine.memory.read 0x7F = 3 := by
  have hletters : ∀ w ∈ ([0x48, 0x69] : List Word), w ≠ 0 := by simp
  have hlength : ([0x48, 0x69] ++ 0 :: List.replicate 12 (0xFFFF : Word)).length = 15 := rfl
  obtain ⟨s, hload, hexecuted, hending, houtput, -, hlast⟩ :=
    run_greeting hletters hlength false false true 99
  obtain ⟨-, hindex, -⟩ := hlast (by decide)
  exact ⟨hletters, hlength, s, hload, hexecuted, hending, houtput, hindex⟩

end Session

end WordMachine
