import WordMachine.Proofs.Rows

/-!
A listing covers its words. Its rows stand one behind the other from its address on, they have the
words in order, none of them lost or shown twice, and only the last row may lack words of its
instruction, which it tells. From another address on the same rows are at other places.
-/
namespace WordMachine

/-- The row as it is where it stands further on. -/
def Row.shift (d : Int) (r : Row) : Row :=
  { r with address := r.address + d }

namespace Listing

/-- Rows from an address on, without gaps, that have the words of an image. All of them but the last
one have the words that their instructions take. -/
structure Tiles (start : Int) (words : List Int) (rows : List Row) : Prop where
  cells : rows.flatMap Row.words = words.map (· % 65536)
  nonempty : ∀ r ∈ rows, r.words ≠ []
  first : ∀ r ∈ rows.head?, r.address = start
  next : rows.IsChain fun (r r' : Row) => r'.address = r.address + r.words.length
  complete : ∀ r ∈ rows.dropLast, r.Complete
  last : ∀ r ∈ rows.getLast?, (r.words.length : Int) ≤ r.instruction.length

theorem cell_eq_emod (n : Int) : cell n = n % 65536 :=
  Word.toNat_ofInt n

namespace Sweep

variable {address : Int} {ws : List Int} {rows : List Row}

theorem address_of_mem_head? (h : Sweep address ws rows) {r : Row} (hr : r ∈ rows.head?) :
    r.address = address := by
  cases h with
  | done => simp at hr
  | cut => simp_all
  | row => simp_all

theorem isChain_address (h : Sweep address ws rows) :
    rows.IsChain fun (r r' : Row) => r'.address = r.address + r.words.length := by
  induction h with
  | done => exact .nil
  | cut => exact .singleton _
  | row hwords hcomplete htext hrows ih =>
    apply List.isChain_cons.mpr
    refine ⟨fun r' hr' => ?_, ih⟩
    have hplace := hrows.address_of_mem_head? hr'
    rw [hplace, hwords, List.length_map]

theorem complete_of_mem_dropLast (h : Sweep address ws rows) {r : Row} (hr : r ∈ rows.dropLast) :
    r.Complete := by
  induction h with
  | done => simp at hr
  | cut => simp at hr
  | @row first here behind rows hwords hcomplete htext hrows ih =>
    by_cases hend : rows = []
    · simp [hend] at hr
    · rw [List.dropLast_cons_of_ne_nil hend] at hr
      rcases List.mem_cons.mp hr with hfirst | hlater
      · rw [hfirst]
        exact hcomplete
      · exact ih hlater

end Sweep

/-- Where a listing begins decides where its rows stand, and nothing else about them. -/
theorem disassemble_shift (start d : Int) (words : List Int) :
    disassemble (start + d) words = (disassemble start words).map (Row.shift d) := by
  induction start, words using words_induction with
  | none start => simp [disassemble]
  | short start w others h =>
    rw [disassemble_short _ w others h, disassemble_short _ w others h, List.map_singleton]
    rfl
  | complete start w others behind h ih =>
    have hbehind : start + d + (others.length + 1) = start + (others.length + 1) + d := by omega
    rw [disassemble_complete _ w others behind h, disassemble_complete _ w others behind h,
      List.map_cons, hbehind, ih]
    rfl

variable {start : Int} {words : List Int} {r : Row}

theorem tiles_disassemble (start : Int) (words : List Int) :
    Tiles start words (disassemble start words) := by
  have hsweep := sweep_disassemble start words
  have hcells : cell = fun n => n % 65536 := funext cell_eq_emod
  constructor
  · rw [flatMap_words, hcells]
  · exact fun r hr => words_ne_nil hr
  · exact fun r hr => hsweep.address_of_mem_head? hr
  · exact hsweep.isChain_address
  · exact fun r hr => hsweep.complete_of_mem_dropLast hr
  · exact fun r hr => length_words_le (List.mem_of_getLast? hr)

theorem text_truncated_iff (hr : r ∈ disassemble start words) :
    r.text = r.instruction.operation.name ++ " <truncated>" ↔
      (r.words.length : Int) < r.instruction.length := by
  have htruncated := truncated_iff hr
  have hle := length_words_le hr
  constructor
  · intro htext
    have hcut : ¬ r.Complete := htruncated.mp ⟨_, htext⟩
    unfold Row.Complete at hcut
    omega
  · intro hless
    have hcut : ¬ r.Complete := by
      unfold Row.Complete
      omega
    have htext := (sweep_disassemble start words).text_eq hr
    rw [htext, if_neg hcut]

/-- The listing of an image covers it, from any address on. Its last row is marked exactly if it
lacks words of its instruction, and no other row is. Where it begins moves all its addresses and
changes nothing else. -/
theorem disassemble_tiles (start : Int) (words : List Int) :
    Tiles start words (disassemble start words) ∧
    (∀ r ∈ (disassemble start words).getLast?,
      r.text = r.instruction.operation.name ++ " <truncated>" ↔
        (r.words.length : Int) < r.instruction.length) ∧
    (∀ r ∈ (disassemble start words).dropLast, ¬ r.Truncated) ∧
    ∀ d, disassemble (start + d) words = (disassemble start words).map (Row.shift d) := by
  refine ⟨tiles_disassemble start words, ?_, ?_, fun d => disassemble_shift start d words⟩
  · intro r hr
    exact text_truncated_iff (List.mem_of_getLast? hr)
  · intro r hr htruncated
    have hcomplete := (tiles_disassemble start words).complete r hr
    have hmem := List.mem_of_mem_dropLast hr
    exact (truncated_iff hmem).mp htruncated hcomplete

/-- A copy and a jump that lacks its last word, from a negative address on. The first number is cut
to its cell. -/
theorem disassemble_tiles_cut :
    let words : List Int := [-0xEBFF, 0x10, 0x41, 0x2003, 0x12]
    let copy : Row := ⟨-3, [0x1401, 0x10, 0x41], "COPY 0x0041 -> [0x0010]"⟩
    let jump : Row := ⟨0, [0x2003, 0x12], "JUMP_IF_ZERO <truncated>"⟩
    disassemble (-3) words = [copy, jump] ∧ ¬ copy.Truncated ∧
      (jump.words.length : Int) < jump.instruction.length ∧
      disassemble 12 words = [copy.shift 15, jump.shift 15] := by
  intro words copy jump
  have hrows : disassemble (-3) words = [copy, jump] := by decide +kernel
  obtain ⟨-, hlast, hfront, hshift⟩ := disassemble_tiles (-3) words
  rw [hrows] at hlast hfront
  have hmoved := hshift 15
  rw [hrows] at hmoved
  have htext : jump.text = jump.instruction.operation.name ++ " <truncated>" := by decide
  exact ⟨hrows, hfront copy List.mem_cons_self, (hlast jump rfl).mp htext, hmoved⟩

end Listing

end WordMachine
