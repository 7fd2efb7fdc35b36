import WordMachine.Proofs.Remarks
import WordMachine.Proofs.Rows

/-!
The text of an instruction tells the instruction. Behind the name of its operation it has a word for
each slot that is filled or read through memory, and two words for the address it writes to. No two
of these look the same, so none is taken for another one, however many digits their numbers have.
-/
namespace WordMachine

theorem Operation.name_injective : Function.Injective Operation.name := by
  intro o p h
  cases o <;> cases p <;> first | rfl | exact absurd h (by decide)

/-- What a word behind the name of an operation shows: an operand, a slot that is read through
memory without one, or that an address to write to follows. -/
inductive Part
  | operand (indirect : Bool) (n : Int)
  | stale (slot : ℕ)
  | arrow
deriving DecidableEq

namespace Part

open Text Numeral

def text : Part → String
  | operand false n => "0x" ++ hex4 n
  | operand true n => "[0x" ++ hex4 n ++ "]"
  | stale slot => "[in" ++ decimal slot ++ "]"
  | arrow => "->"

def operand? : Part → Option Int
  | operand _ n => some n
  | _ => none

/-- With what a word begins. -/
def mark : Part → List Char
  | operand false _ => ['0', 'x']
  | operand true _ => ['[', '0']
  | stale _ => ['[', 'i']
  | arrow => ['-', '>']

theorem take_text (p : Part) : p.text.toList.take 2 = p.mark := by
  rcases p with ⟨_ | _, n⟩ | slot | _
  · rw [text, String.toList_append]
    rfl
  · rw [text, String.toList_append, String.toList_append]
    rfl
  · rw [text, String.toList_append, String.toList_append]
    rfl
  · rfl

theorem text_injective : Function.Injective text := by
  intro p q h
  have hmark : p.mark = q.mark := by rw [← take_text, h, take_text]
  -- the parts are of one kind, since words of different kinds begin differently
  rcases p with ⟨_ | _, m⟩ | s | _ <;> rcases q with ⟨_ | _, n⟩ | t | _ <;>
    simp [mark] at hmark
  · have hfigures : hex4 m = hex4 n := (String.append_right_inj _).mp h
    rw [hex4_injective hfigures]
  · have hfigures : hex4 m = hex4 n := by
      have hopen := (String.append_left_inj _).mp h
      exact (String.append_right_inj _).mp hopen
    rw [hex4_injective hfigures]
  · have hslot : decimal s = decimal t := by
      have hopen := (String.append_left_inj _).mp h
      exact (String.append_right_inj _).mp hopen
    rw [Int.ofNat_inj.mp (decimal_injective hslot)]
  · rfl

theorem solid_text (p : Part) : Solid p.text := by
  rcases p with ⟨_ | _, n⟩ | slot | _
  · exact solid_append (by decide) (solid_hex4 n)
  · exact solid_append (solid_append (by decide) (solid_hex4 n)) (by decide)
  · exact solid_append (solid_append (by decide) (solid_decimal slot)) (by decide)
  · decide

end Part

namespace Instruction

open Text Numeral

def slotPart (slot : ℕ) (indirect : Bool) : Option Int → Option Part
  | some n => some (.operand indirect n)
  | none => if indirect then some (.stale slot) else none

def operandParts (i : Instruction) (operands : List Int) : List Part :=
  [slotPart 0 i.readFirst operands[0]?, slotPart 1 i.readSecond operands[1]?].filterMap id
    ++ (operands.drop 2).map (.operand false)

def targetParts (i : Instruction) (target : Int) : List Part :=
  if i.writeBack then [.arrow, .operand true target] else []

def parts (i : Instruction) (operands : List Int) (target : Int) : List Part :=
  i.operandParts operands ++ i.targetParts target

theorem slotText_eq (slot : ℕ) (indirect : Bool) (operand : Option Int) :
    slotText slot indirect operand = (slotPart slot indirect operand).map Part.text := by
  cases operand <;> cases indirect <;> rfl

theorem slotTexts_eq (i : Instruction) (operands : List Int) :
    i.slotTexts operands = (i.operandParts operands).map Part.text := by
  unfold slotTexts operandParts
  rw [slotText_eq, slotText_eq, List.map_append, List.map_map, List.map_filterMap]
  cases slotPart 0 i.readFirst operands[0]? <;> cases slotPart 1 i.readSecond operands[1]? <;> rfl

theorem words_targetTexts (i : Instruction) (target : Int) :
    ((i.targetTexts target).map ofString).flatMap words =
      ((i.targetParts target).map Part.text).map ofString := by
  unfold targetTexts targetParts
  cases i.writeBack with
  | false => rfl
  | true =>
    have hsplit : "-> [0x" ++ hex4 target ++ "]" =
        Part.arrow.text ++ (" " ++ (Part.operand true target).text) := by
      have hmark : "-> [0x" = "->" ++ " " ++ "[0x" := rfl
      rw [hmark]
      simp only [Part.text, String.append_assoc]
    rw [if_pos rfl, if_pos rfl, List.map_singleton, List.flatMap_singleton, hsplit,
      Remark.words_spaced (Part.solid_text _), words_of_solid (Part.solid_text _)]
    rfl

/-- The words of an instruction are the name of its operation and one for each of its parts. -/
theorem words_mnemonic (i : Instruction) (operands : List Int) (target : Int) :
    words (i.mnemonic operands target) =
      ofString i.operation.name ::
        ((i.parts operands target).map Part.text).map ofString := by
  have hname : Solid i.operation.name := by cases i.operation <;> decide
  have hslots : ((i.slotTexts operands).map ofString).flatMap words =
      ((i.operandParts operands).map Part.text).map ofString := by
    rw [slotTexts_eq]
    exact flatMap_words_of_solid (List.forall_mem_map.mpr fun p _ => p.solid_text)
  unfold mnemonic parts
  rw [words_intercalate, List.map_cons, List.flatMap_cons, words_of_solid hname, List.map_append,
    List.flatMap_append, hslots, words_targetTexts, List.map_append, List.map_append]
  rfl

/-- The operands are those that are shown in front of the arrow. -/
theorem filterMap_operandParts (i : Instruction) (operands : List Int) :
    (i.operandParts operands).filterMap Part.operand? = operands := by
  have hlater : ∀ ns : List Int, (ns.map (Part.operand false)).filterMap Part.operand? = ns := by
    intro ns
    rw [List.filterMap_map]
    exact List.filterMap_some
  unfold operandParts slotPart
  match operands with
  | [] => cases i.readFirst <;> cases i.readSecond <;> rfl
  | [n] => cases i.readSecond <;> rfl
  | m :: n :: later =>
    change m :: n :: (later.map (Part.operand false)).filterMap Part.operand? = _
    rw [hlater]

theorem ne_arrow_of_mem_operandParts {i : Instruction} {operands : List Int} {p : Part}
    (hp : p ∈ i.operandParts operands) : p ≠ .arrow := by
  have hslot : ∀ slot indirect operand, slotPart slot indirect operand ≠ some .arrow := by
    intro slot indirect operand
    cases operand <;> cases indirect <;> simp [slotPart]
  rintro rfl
  simp only [operandParts, List.mem_append, List.mem_filterMap, List.mem_map, List.mem_cons,
    id_eq] at hp
  rcases hp with ⟨shown, (rfl | rfl | hnone), hshown⟩ | ⟨n, -, hlater⟩
  · exact hslot _ _ _ hshown
  · exact hslot _ _ _ hshown
  · exact absurd hnone List.not_mem_nil
  · cases hlater

theorem takeWhile_parts (i : Instruction) (operands : List Int) (target : Int) :
    (i.parts operands target).takeWhile (· ≠ .arrow) = i.operandParts operands := by
  have htarget : (i.targetParts target).takeWhile (· ≠ .arrow) = [] := by
    unfold targetParts
    cases i.writeBack <;> rfl
  have hall : ∀ p ∈ i.operandParts operands, decide (p ≠ .arrow) = true :=
    fun p hp => decide_eq_true (ne_arrow_of_mem_operandParts hp)
  unfold parts
  rw [List.takeWhile_append_of_pos hall, htarget, List.append_nil]

/-- With the same operands, the parts tell which slots are read through memory. -/
theorem reads_eq_of_operandParts_eq {i j : Instruction} {operands : List Int}
    (h : i.operandParts operands = j.operandParts operands) :
    i.readFirst = j.readFirst ∧ i.readSecond = j.readSecond := by
  unfold operandParts slotPart at h
  match operands with
  | [] =>
    revert h
    cases i.readFirst <;> cases i.readSecond <;> cases j.readFirst <;> cases j.readSecond <;> decide
  | [n] =>
    obtain ⟨hfirst, hsecond⟩ := List.cons.inj h
    refine ⟨(Part.operand.inj hfirst).1, ?_⟩
    revert hsecond
    cases i.readSecond <;> cases j.readSecond <;> simp
  | m :: n :: later =>
    obtain ⟨hfirst, hlater⟩ := List.cons.inj h
    obtain ⟨hsecond, -⟩ := List.cons.inj hlater
    exact ⟨(Part.operand.inj hfirst).1, (Part.operand.inj hsecond).1⟩

theorem target_eq_of_targetParts_eq {i j : Instruction} {a b : Int}
    (h : i.targetParts a = j.targetParts b) :
    i.writeBack = j.writeBack ∧ (i.writeBack = true → a = b) := by
  unfold targetParts at h
  cases hi : i.writeBack <;> cases hj : j.writeBack <;> simp [hi, hj] at h ⊢
  exact h

section

variable {i j : Instruction} {xs ys : List Int} {a b : Int}
  (hi : i.argumentCount = xs.length) (hj : j.argumentCount = ys.length)

include hi hj

/-- The words of an instruction tell everything about it. -/
theorem eq_of_words_mnemonic_eq
    (h : words (i.mnemonic xs a) = words (j.mnemonic ys b)) :
    i = j ∧ xs = ys ∧ (i.writeBack = true → a = b) := by
  rw [words_mnemonic, words_mnemonic] at h
  obtain ⟨hname, hlater⟩ := List.cons.inj h
  have hoperation : i.operation = j.operation :=
    Operation.name_injective (ofString_injective hname)
  have hparts : i.parts xs a = j.parts ys b :=
    Part.text_injective.list_map (ofString_injective.list_map hlater)
  have hoperands : i.operandParts xs = j.operandParts ys := by
    rw [← takeWhile_parts i xs a, hparts, takeWhile_parts]
  have hsame : xs = ys := by
    rw [← filterMap_operandParts i xs, hoperands, filterMap_operandParts]
  subst hsame
  have htarget : i.targetParts a = j.targetParts b := by
    unfold parts at hparts
    rw [hoperands] at hparts
    exact List.append_cancel_left hparts
  obtain ⟨hfirst, hsecond⟩ := reads_eq_of_operandParts_eq hoperands
  obtain ⟨hback, haddress⟩ := target_eq_of_targetParts_eq htarget
  refine ⟨?_, rfl, haddress⟩
  obtain ⟨o, count, first, second, back⟩ := i
  obtain ⟨o', count', first', second', back'⟩ := j
  dsimp only at *
  subst hoperation hfirst hsecond hback hi hj
  rfl

end

end Instruction

namespace Row

theorem Complete.argumentCount_eq {r : Row} (h : r.Complete) :
    r.instruction.argumentCount = (r.words.tail.drop r.instruction.writeBack.toNat).length := by
  have hcount : 0 ≤ r.instruction.argumentCount := Instruction.argumentCount_decode_nonneg _
  unfold Complete Instruction.length at h
  rw [List.length_drop, List.length_tail]
  omega

theorem Complete.tail_eq {r : Row} (h : r.Complete) :
    r.words.tail = (if r.instruction.writeBack then [r.words.tail.headD 0] else [])
      ++ r.words.tail.drop r.instruction.writeBack.toNat := by
  have hcount : 0 ≤ r.instruction.argumentCount := Instruction.argumentCount_decode_nonneg _
  cases hback : r.instruction.writeBack with
  | false => rfl
  | true =>
    have hpos : r.words.tail ≠ [] := by
      apply List.length_pos_iff.mp
      unfold Complete Instruction.length at h
      rw [hback, Bool.toNat_true] at h
      rw [List.length_tail]
      omega
    obtain ⟨w, others, htail⟩ := List.exists_cons_of_ne_nil hpos
    rw [htail]
    rfl

/-- The text of a complete row tells its instruction and the words behind the first one. -/
theorem eq_of_instructionText_eq {r r' : Row} (hr : r.Complete) (hr' : r'.Complete)
    (h : r.instructionText = r'.instructionText) :
    r.instruction = r'.instruction ∧ r.words.tail = r'.words.tail := by
  have hwords := congrArg (fun s : String => Text.words s) h
  obtain ⟨hinstruction, hoperands, htarget⟩ :=
    Instruction.eq_of_words_mnemonic_eq hr.argumentCount_eq hr'.argumentCount_eq hwords
  refine ⟨hinstruction, ?_⟩
  have htail := hr'.tail_eq
  rw [← hoperands, ← hinstruction] at htail
  rw [hr.tail_eq, htail]
  by_cases hback : r.instruction.writeBack = true
  · have haddress := htarget hback
    rw [← hinstruction, if_pos hback, if_pos hback] at haddress
    rw [if_pos hback, if_pos hback, haddress]
  · rw [if_neg hback, if_neg hback]

end Row

namespace Machine

/-- The next instruction reads through memory with what an earlier one left in a slot. -/
def ReadsStale (m : Machine) (s : Slot) : Prop :=
  m.instruction.reads s = true ∧ m.instruction.argumentCount ≤ s.index

theorem ReadsStale.inputs_eq {m : Machine} {s : Slot} (h : m.ReadsStale s) :
    m.inputs s = m.memory.read (m.slot s) := by
  obtain ⟨hreads, hcount⟩ := h
  rw [Machine.inputs_eq, if_pos hreads, loaded_eq, if_neg (by omega)]

theorem argumentCount_eq (m : Machine) :
    m.instruction.argumentCount = (m.next.operands.map fun w => (w.toNat : Int)).length := by
  have hcount : 0 ≤ m.instruction.argumentCount := Instruction.argumentCount_decode_nonneg _
  rw [next_operands, List.length_map, List.length_map, List.length_range]
  omega

/-- The line with the operands of a step tells the instruction and all words that belong to it. -/
theorem eq_of_operands_line_eq {m m' : Machine}
    (h : (m.events.filter Event.isOperands).map Event.line =
      (m'.events.filter Event.isOperands).map Event.line) :
    m.instruction = m'.instruction ∧ m.next.operands = m'.next.operands ∧
      m.next.target = m'.next.target := by
  rw [filter_isOperands_events, filter_isOperands_events, List.map_singleton,
    List.map_singleton] at h
  obtain ⟨hline, -⟩ := List.cons.inj h
  have hwords := congrArg (fun s : String => (Text.words s).drop 13) hline
  dsimp only [Event.line] at hwords
  rw [Remark.drop_words_stepLine _ (by decide), Remark.drop_words_stepLine _ (by decide)] at hwords
  obtain ⟨hinstruction, hoperands, htarget⟩ :=
    Instruction.eq_of_words_mnemonic_eq m.argumentCount_eq m'.argumentCount_eq hwords
  have hinjective : Function.Injective fun w : Word => (w.toNat : Int) :=
    fun v w hvw => UInt16.toNat_inj.mp (Int.ofNat_inj.mp hvw)
  refine ⟨hinstruction, hinjective.list_map hoperands, ?_⟩
  by_cases hback : m.instruction.writeBack = true
  · exact hinjective (htarget hback)
  · rw [next_target, next_target, ← hinstruction, if_neg hback, if_neg hback]

end Machine

namespace Instruction

open Listing

/-- The text of an instruction leaves nothing out. Two instructions with the same text, each with as
many operands as it takes, are the same, and so are their operands and the address they write to, if
they write. A row with the text of a complete row is complete and has the same instruction and the
same words behind the first one, and steps that show the same operands have the same instruction
with the same words, and use the slots that earlier steps left in the same way. -/
theorem mnemonic_determines :
    (∀ (i j : Instruction) (xs ys : List Int) (a b : Int),
      i.argumentCount = xs.length → j.argumentCount = ys.length →
      i.mnemonic xs a = j.mnemonic ys b → i = j ∧ xs = ys ∧ (i.writeBack = true → a = b)) ∧
    (∀ start words start' words', ∀ r ∈ disassemble start words,
      ∀ r' ∈ disassemble start' words', r.Complete → r.text = r'.text →
        r'.Complete ∧ r.instruction = r'.instruction ∧ r.words.tail = r'.words.tail) ∧
    ∀ m m' : Machine, (m.events.filter Event.isOperands).map Event.line =
        (m'.events.filter Event.isOperands).map Event.line →
      m.instruction = m'.instruction ∧ m.next.operands = m'.next.operands ∧
        m.next.target = m'.next.target ∧ ∀ s, m.ReadsStale s ↔ m'.ReadsStale s := by
  refine ⟨?_, ?_, ?_⟩
  · intro i j xs ys a b hi hj h
    exact eq_of_words_mnemonic_eq hi hj (congrArg (fun s : String => Text.words s) h)
  · intro start words start' words' r hr r' hr' hc htext
    have hc' : r'.Complete := by
      by_contra hcut
      have htruncated : r.Truncated := by
        unfold Row.Truncated
        rw [htext]
        exact (truncated_iff hr').mpr hcut
      exact (truncated_iff hr).mp htruncated hc
    have hline := (sweep_disassemble start words).text_eq hr
    have hline' := (sweep_disassemble start' words').text_eq hr'
    rw [if_pos hc] at hline
    rw [if_pos hc'] at hline'
    rw [hline, hline'] at htext
    exact ⟨hc', Row.eq_of_instructionText_eq hc hc' htext⟩
  · intro m m' h
    obtain ⟨hinstruction, hoperands, htarget⟩ := Machine.eq_of_operands_line_eq h
    refine ⟨hinstruction, hoperands, htarget, fun s => ?_⟩
    unfold Machine.ReadsStale
    rw [hinstruction]

def copying (w : Word) : Machine :=
  { Machine.fresh with memory := (Memory.zero.write 0 w).write 1 0x80 }

theorem operands_line_copying {w : Word} (hw : decode w = ⟨.copy, 0, true, false, true⟩) :
    ((copying w).events.filter Event.isOperands).map Event.line =
      ["STEP:    0 PHASE: OPERANDS   PC: 0000 IN: 0000 0000 0000 OUT: 0000\t"
        ++ "INSTR: COPY [in0] -> [0x0080]"] := by
  have hinstruction : (copying w).instruction = ⟨.copy, 0, true, false, true⟩ := by
    have hread : (copying w).memory.read 0 = w := by
      have hne : (1 : Word) ≠ 0 := by decide
      exact (Memory.read_write_of_ne _ _ hne).trans (Memory.read_write_self _ _ _)
    rw [Machine.instruction_eq, ← hw]
    exact congrArg decode hread
  have htarget : (copying w).next.target = 0x80 := by
    rw [Machine.next_target, hinstruction]
    exact Memory.read_write_self _ _ _
  have hoperands : (copying w).next.operands = [] := by
    rw [Machine.next_operands, hinstruction]
    rfl
  have hslots : (copying w).fetchInstruction.2.slots = #v[0, 0, 0] := by
    rw [Machine.fetchInstruction_eq, hinstruction]
    rfl
  rw [Machine.filter_isOperands_events, Machine.fetchInstruction_snd, hslots, hinstruction, htarget,
    hoperands]
  change [(Event.operands ⟨0, 0, #v[0, 0, 0], 0⟩ ⟨.copy, 0, true, false, true⟩ [] 0x80).line] = _
  decide +kernel

/-- An operand of five digits, and two words for one copy of what is at the address left in the
first slot, which differ in bits that mean nothing. -/
theorem mnemonic_determines_copy :
    let halt : Instruction := ⟨.halt, 1, false, false, false⟩
    let first : Row := ⟨-2, [0xC601, 0x80], "COPY [in0] -> [0x0080]"⟩
    let second : Row := ⟨7, [0x0601, 0x80], "COPY [in0] -> [0x0080]"⟩
    halt.mnemonic [0x12345] 3 = halt.mnemonic [0x12345] 4 ∧
      (halt.writeBack = true → (3 : Int) = 4) ∧
    first ∈ disassemble (-2) [0xC601, 0x80] ∧ second ∈ disassemble 7 [0x0601, 0x80, 0x1005] ∧
      first.Complete ∧ second.Complete ∧ first.instruction = second.instruction ∧
    ((copying 0xC601).events.filter Event.isOperands).map Event.line =
      ((copying 0x0601).events.filter Event.isOperands).map Event.line ∧
      (copying 0xC601).instruction = (copying 0x0601).instruction := by
  intro halt first second
  obtain ⟨htexts, hrows, hlines⟩ := mnemonic_determines
  have hsame : halt.mnemonic [0x12345] 3 = halt.mnemonic [0x12345] 4 := rfl
  have hfirst : first ∈ disassemble (-2) [0xC601, 0x80] := by decide +kernel
  have hsecond : second ∈ disassemble 7 [0x0601, 0x80, 0x1005] := by decide +kernel
  have hcomplete : first.Complete := by decide
  have hline : ((copying 0xC601).events.filter Event.isOperands).map Event.line =
      ((copying 0x0601).events.filter Event.isOperands).map Event.line := by
    rw [operands_line_copying (by decide), operands_line_copying (by decide)]
  obtain ⟨-, -, haddress⟩ := htexts halt halt [0x12345] [0x12345] 3 4 rfl rfl hsame
  obtain ⟨hcomplete', hinstruction, -⟩ := hrows _ _ _ _ first hfirst second hsecond hcomplete rfl
  exact ⟨hsame, haddress, hfirst, hsecond, hcomplete, hcomplete', hinstruction, hline,
    (hlines _ _ hline).1⟩

end Instruction

end WordMachine
