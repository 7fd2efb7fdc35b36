import WordMachine.Listing
import WordMachine.Proofs.Loading

/-!
The rows of a listing in the order of their addresses. A complete row stands for the words of one
instruction, the next row begins where it ends, and only the last row may lack words. Everything
about where rows stand follows by induction on this.
-/
namespace WordMachine

theorem Instruction.length_decode_pos (w : Word) : 0 < (decode w).length := by
  have hnonneg := argumentCount_decode_nonneg w
  unfold length
  omega

namespace Row

def instruction (r : Row) : Instruction :=
  .decode (UInt16.ofInt (r.words.headD 0))

/-- No word of the instruction is missing. -/
def Complete (r : Row) : Prop :=
  (r.words.length : Int) = r.instruction.length

instance (r : Row) : Decidable r.Complete :=
  inferInstanceAs (Decidable (_ = _))

theorem Complete.length_pos {r : Row} (h : r.Complete) : 0 < r.words.length := by
  have hpos : 0 < r.instruction.length := Instruction.length_decode_pos _
  unfold Complete at h
  omega

def instructionText (r : Row) : String :=
  r.instruction.mnemonic (r.words.tail.drop r.instruction.writeBack.toNat)
    (if r.instruction.writeBack then r.words.tail.headD 0 else 0)

end Row

namespace Listing

theorem cell_toNat (w : Word) : cell w.toNat = w.toNat := by
  unfold cell
  rw [Word.ofInt_toNat]

theorem map_cell_numbers (ws : List Word) :
    (ws.map fun w => (w.toNat : Int)).map cell = ws.map fun w => (w.toNat : Int) := by
  rw [List.map_map]
  exact List.map_congr_left fun w _ => cell_toNat w

/-- The rows that the words from an address on are cut into. -/
inductive Sweep : Int → List Int → List Row → Prop
  | done (address : Int) : Sweep address [] []
  | cut {r : Row} (ws : List Int) (hcut : ¬ r.Complete)
      (htext : r.text = r.instruction.operation.name ++ " <truncated>") : Sweep r.address ws [r]
  | row {r : Row} {here behind : List Int} {rows : List Row} (hwords : r.words = here.map cell)
      (hcomplete : r.Complete) (htext : r.text = r.instructionText)
      (hrows : Sweep (r.address + here.length) behind rows) :
      Sweep r.address (here ++ behind) (r :: rows)

theorem instruction_cell (address w : Int) (others : List Int) (text : String) :
    (Row.mk address (cell w :: others) text).instruction = .decode (UInt16.ofInt w) := by
  unfold Row.instruction cell
  rw [List.headD_cons, Word.ofInt_toNat]

theorem disassemble_complete (address w : Int) (others behind : List Int)
    (h : (others.length : Int) + 1 = (Instruction.decode (UInt16.ofInt w)).length) :
    disassemble address (w :: others ++ behind) =
      completeRow address (.decode (UInt16.ofInt w)) (cell w) (others.map cell) ::
        disassemble (address + (others.length + 1)) behind := by
  have hcount : ((Instruction.decode (UInt16.ofInt w)).length - 1).toNat = others.length := by
    omega
  rw [List.cons_append, disassemble]
  simp only [hcount, List.take_left, List.drop_left, List.length_map]
  rw [if_neg (Nat.lt_irrefl _), ← h]

theorem disassemble_short (address w : Int) (others : List Int)
    (h : (others.length : Int) + 1 < (Instruction.decode (UInt16.ofInt w)).length) :
    disassemble address (w :: others) =
      [truncatedRow address (.decode (UInt16.ofInt w)) (cell w) (others.map cell)] := by
  have hmissing : others.length < ((Instruction.decode (UInt16.ofInt w)).length - 1).toNat := by
    omega
  rw [disassemble]
  simp only [List.take_of_length_le (Nat.le_of_lt hmissing), List.length_map]
  rw [if_pos hmissing]

/-- Words begin with those of one instruction, or they are too few for it, or there are none. -/
@[elab_as_elim]
theorem words_induction {motive : Int → List Int → Prop}
    (none : ∀ address, motive address [])
    (short : ∀ address w others,
      (others.length : Int) + 1 < (Instruction.decode (UInt16.ofInt w)).length →
      motive address (w :: others))
    (complete : ∀ address w others behind,
      (others.length : Int) + 1 = (Instruction.decode (UInt16.ofInt w)).length →
      motive (address + (others.length + 1)) behind → motive address (w :: others ++ behind))
    (address : Int) (ws : List Int) : motive address ws := by
  fun_induction disassemble address ws with
  | case1 address => exact none address
  | case2 address w rest i n others hshort =>
    apply short
    simp only [others, List.length_map, List.length_take] at hshort
    change (rest.length : Int) + 1 < i.length
    omega
  | case3 address w rest i n others hlong ih =>
    have hpos : 0 < i.length := Instruction.length_decode_pos _
    simp only [others, List.length_map, List.length_take] at hlong
    have hcount : ((rest.take n).length : Int) + 1 = i.length := by
      rw [List.length_take]
      omega
    have hsplit : w :: rest = w :: rest.take n ++ rest.drop n := by simp
    rw [hsplit]
    apply complete _ _ _ _ hcount
    rw [hcount]
    exact ih

theorem sweep_disassemble (address : Int) (ws : List Int) :
    Sweep address ws (disassemble address ws) := by
  induction address, ws using words_induction with
  | none address =>
    rw [disassemble]
    exact .done address
  | short address w others h =>
    let r := truncatedRow address (.decode (UInt16.ofInt w)) (cell w) (others.map cell)
    have hinstruction : r.instruction = .decode (UInt16.ofInt w) :=
      instruction_cell address w (others.map cell) _
    rw [disassemble_short address w others h]
    refine .cut (r := r) (w :: others) ?_ ?_
    · unfold Row.Complete
      rw [hinstruction]
      change ¬ ((cell w :: others.map cell).length : Int) = _
      rw [List.length_cons, List.length_map]
      omega
    · rw [hinstruction]
      rfl
  | complete address w others behind h ih =>
    let r := completeRow address (.decode (UInt16.ofInt w)) (cell w) (others.map cell)
    have hinstruction : r.instruction = .decode (UInt16.ofInt w) :=
      instruction_cell address w (others.map cell) _
    have hwords : r.words = (w :: others).map cell := rfl
    have hcomplete : r.Complete := by
      unfold Row.Complete
      rw [hinstruction, ← h, hwords, List.length_map, List.length_cons]
      omega
    have htext : r.text = r.instructionText := by
      unfold Row.instructionText
      rw [hinstruction]
      rfl
    rw [disassemble_complete address w others behind h]
    exact .row hwords hcomplete htext ih

theorem flatMap_words (start : Int) (words : List Int) :
    (disassemble start words).flatMap Row.words = words.map cell := by
  induction start, words using words_induction with
  | none start =>
    rw [disassemble]
    rfl
  | short start w others h =>
    rw [disassemble_short start w others h, List.flatMap_singleton, truncatedRow, List.map_cons]
  | complete start w others behind h ih =>
    rw [disassemble_complete start w others behind h, List.flatMap_cons, ih, completeRow,
      List.map_append, List.map_cons]

/-- The words of a row stand together, and its address counts the words in front of them. -/
theorem exists_of_mem_disassemble {address : Int} {ws : List Int} {r : Row}
    (hr : r ∈ disassemble address ws) :
    ∃ front here behind, ws = front ++ here ++ behind ∧ here ≠ [] ∧
      r.address = address + front.length ∧ r.words = here.map cell := by
  induction address, ws using words_induction with
  | none address =>
    rw [disassemble] at hr
    cases hr
  | short address w others h =>
    rw [disassemble_short address w others h] at hr
    obtain rfl := List.mem_singleton.mp hr
    exact ⟨[], w :: others, [], by simp, List.cons_ne_nil _ _, (Int.add_zero address).symm, rfl⟩
  | complete address w others behind h ih =>
    rw [disassemble_complete address w others behind h] at hr
    rcases List.mem_cons.mp hr with rfl | hr
    · exact ⟨[], w :: others, behind, by simp, List.cons_ne_nil _ _, (Int.add_zero address).symm,
        rfl⟩
    · obtain ⟨front, here, last, rfl, hhere, haddress, hwords⟩ := ih hr
      refine ⟨w :: others ++ front, here, last, ?_, hhere, ?_, hwords⟩
      · simp only [List.append_assoc]
      · rw [haddress, List.length_append, List.length_cons]
        omega

theorem length_words_le {address : Int} {ws : List Int} {r : Row}
    (hr : r ∈ disassemble address ws) : (r.words.length : Int) ≤ r.instruction.length := by
  induction address, ws using words_induction with
  | none address =>
    rw [disassemble] at hr
    cases hr
  | short address w others h =>
    rw [disassemble_short address w others h] at hr
    obtain rfl := List.mem_singleton.mp hr
    unfold truncatedRow
    rw [instruction_cell, List.length_cons, List.length_map]
    omega
  | complete address w others behind h ih =>
    rw [disassemble_complete address w others behind h] at hr
    rcases List.mem_cons.mp hr with rfl | hr
    · unfold completeRow
      rw [instruction_cell, List.length_cons, List.length_map]
      omega
    · exact ih hr

namespace Sweep

variable {address : Int} {ws : List Int} {rows : List Row}

theorem address_le (h : Sweep address ws rows) {r : Row} (hr : r ∈ rows) :
    address ≤ r.address := by
  induction h with
  | done address => simp at hr
  | cut ws hcut htext => simp_all
  | row hwords hcomplete htext hrows ih =>
    rcases List.mem_cons.mp hr with rfl | hr
    · exact Int.le_refl _
    · have hlater := ih hr
      omega

theorem pairwise_address (h : Sweep address ws rows) :
    rows.Pairwise fun r r' => r.address < r'.address := by
  induction h with
  | done address => exact .nil
  | cut ws hcut htext => exact List.pairwise_singleton _ _
  | row hwords hcomplete htext hrows ih =>
    refine .cons ?_ ih
    intro r' hr'
    have hlater := hrows.address_le hr'
    have hpos := hcomplete.length_pos
    rw [hwords, List.length_map] at hpos
    omega

theorem text_eq (h : Sweep address ws rows) {r : Row} (hr : r ∈ rows) :
    r.text = if r.Complete then r.instructionText
      else r.instruction.operation.name ++ " <truncated>" := by
  induction h with
  | done address => simp at hr
  | cut ws hcut htext =>
    rw [List.mem_singleton] at hr
    subst hr
    rw [htext, if_neg hcut]
  | row hwords hcomplete htext hrows ih =>
    rcases List.mem_cons.mp hr with rfl | hr
    · rw [htext, if_pos hcomplete]
    · exact ih hr

/-- A complete row has the words that stand where it stands. -/
theorem of_complete (h : Sweep address ws rows) {r : Row} (hr : r ∈ rows) (hc : r.Complete) :
    ∃ front here behind, ws = front ++ here ++ behind ∧ r.address = address + front.length ∧
      r.words = here.map cell := by
  induction h with
  | done address => simp at hr
  | cut ws hcut htext =>
    rw [List.mem_singleton] at hr
    subst hr
    exact absurd hc hcut
  | @row first here behind rows hwords hcomplete htext hrows ih =>
    rcases List.mem_cons.mp hr with rfl | hr
    · exact ⟨[], here, behind, by simp, by simp, hwords⟩
    · obtain ⟨front, later, last, hbehind, haddress, hlater⟩ := ih hr
      refine ⟨here ++ front, later, last, ?_, ?_, hlater⟩
      · rw [hbehind]
        simp only [List.append_assoc]
      · rw [haddress, List.length_append]
        omega

end Sweep

/-- An address at which a complete row stands. -/
def Lists (rows : List Row) (address : Int) : Prop :=
  ∃ r ∈ rows, r.Complete ∧ r.address = address

instance (rows : List Row) (address : Int) : Decidable (Lists rows address) :=
  inferInstanceAs (Decidable (∃ r ∈ rows, _))

/-- The complete rows that stand at an address. -/
def rowsAt (rows : List Row) (address : Int) : List Row :=
  rows.filter fun r => r.Complete ∧ r.address = address

/-- How many words the complete rows have. -/
def extent (rows : List Row) : ℕ :=
  ((rows.filter (·.Complete)).flatMap Row.words).length

theorem extent_cons_of_complete {r : Row} (rows : List Row) (h : r.Complete) :
    extent (r :: rows) = r.words.length + extent rows := by
  unfold extent
  rw [List.filter_cons_of_pos (by simpa using h), List.flatMap_cons, List.length_append]

/-- Words are listed from where they begin unless they are too few for their first instruction. -/
theorem lists_disassemble_cons_iff (address w : Int) (rest : List Int) :
    Lists (disassemble address (w :: rest)) address ↔
      (Instruction.decode (UInt16.ofInt w)).length ≤ rest.length + 1 := by
  by_cases hshort : (rest.length : Int) + 1 < (Instruction.decode (UInt16.ofInt w)).length
  · rw [disassemble_short address w rest hshort]
    constructor
    · rintro ⟨r, hr, hcomplete, -⟩
      obtain rfl := List.mem_singleton.mp hr
      unfold Row.Complete truncatedRow at hcomplete
      rw [instruction_cell, List.length_cons, List.length_map] at hcomplete
      omega
    · intro hfits
      omega
  · refine iff_of_true ?_ (by omega)
    have hpos := Instruction.length_decode_pos (UInt16.ofInt w)
    let n := ((Instruction.decode (UInt16.ofInt w)).length - 1).toNat
    have hcount : ((rest.take n).length : Int) + 1 =
        (Instruction.decode (UInt16.ofInt w)).length := by
      rw [List.length_take]
      omega
    have hsplit : w :: rest = w :: rest.take n ++ rest.drop n := by simp
    rw [hsplit, disassemble_complete address w _ _ hcount]
    refine ⟨_, List.mem_cons_self, ?_, rfl⟩
    unfold Row.Complete completeRow
    rw [instruction_cell, List.length_cons, List.length_map]
    exact_mod_cast hcount

namespace Sweep

variable {address : Int} {ws : List Int} {rows : List Row}

theorem lists_lt (h : Sweep address ws rows) {a : Int} (ha : Lists rows a) :
    address ≤ a ∧ a < address + ws.length := by
  obtain ⟨r, hr, hc, rfl⟩ := ha
  obtain ⟨front, here, behind, rfl, haddress, hwords⟩ := h.of_complete hr hc
  have hpos := hc.length_pos
  rw [hwords, List.length_map] at hpos
  simp only [List.length_append]
  omega

/-- The first row is complete, or none is. -/
theorem lists_or_eq (h : Sweep address ws rows) :
    Lists rows address ∨ address = address + extent rows := by
  cases h with
  | done address => exact .inr (by simp [extent])
  | cut ws hcut htext => exact .inr (by simp [extent, hcut])
  | row hwords hcomplete htext hrows =>
    exact .inl ⟨_, List.mem_cons_self, hcomplete, rfl⟩

/-- Behind a complete row stands another one, or the complete rows end there. -/
theorem lists_or_eq_next (h : Sweep address ws rows) {r : Row} (hr : r ∈ rows)
    (hc : r.Complete) :
    Lists rows (r.address + r.words.length) ∨
      r.address + r.words.length = address + extent rows := by
  induction h with
  | done address => simp at hr
  | cut ws hcut htext =>
    rw [List.mem_singleton] at hr
    subst hr
    exact absurd hc hcut
  | @row first here behind rows hwords hcomplete htext hrows ih =>
    have hlength : first.words.length = here.length := by rw [hwords, List.length_map]
    have hextent := extent_cons_of_complete rows hcomplete
    have hfound : Lists rows (r.address + r.words.length) ∨
        r.address + r.words.length = first.address + here.length + extent rows := by
      rcases List.mem_cons.mp hr with rfl | hr
      · rw [hlength]
        exact hrows.lists_or_eq
      · exact ih hr
    rcases hfound with ⟨r', hr', hc', haddress⟩ | hlast
    · exact .inl ⟨r', List.mem_cons_of_mem _ hr', hc', haddress⟩
    · refine .inr ?_
      omega

/-- A listed address is the address of one complete row. -/
theorem exists_rowsAt_eq (h : Sweep address ws rows) {a : Int} (ha : Lists rows a) :
    ∃ r ∈ rows, r.Complete ∧ r.address = a ∧ rowsAt rows a = [r] := by
  obtain ⟨r, hr, hc, haddress⟩ := ha
  have hmem : r ∈ rowsAt rows a := List.mem_filter.mpr ⟨hr, by simp [hc, haddress]⟩
  have hordered : (rowsAt rows a).Pairwise fun r r' => r.address < r'.address :=
    h.pairwise_address.filter _
  have hall : ∀ r' ∈ rowsAt rows a, r'.address = a := by
    intro r' hr'
    have hboth := (List.mem_filter.mp hr').2
    simp only [decide_eq_true_eq] at hboth
    exact hboth.2
  refine ⟨r, hr, hc, haddress, ?_⟩
  match hhere : rowsAt rows a with
  | [] => simp [hhere] at hmem
  | [r'] =>
    rw [hhere, List.mem_singleton] at hmem
    rw [hmem]
  | r' :: r'' :: others =>
    rw [hhere] at hordered hall
    have hless := List.rel_of_pairwise_cons hordered (List.mem_cons_self ..)
    have hsame := hall r' (List.mem_cons_self ..)
    have hsame' := hall r'' (List.mem_cons_of_mem _ (List.mem_cons_self ..))
    omega

end Sweep

end Listing

end WordMachine
