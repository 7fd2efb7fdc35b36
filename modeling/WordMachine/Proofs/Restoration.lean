import Mathlib.Data.List.Sort
import WordMachine.Dump
import WordMachine.Proofs.Lines
import WordMachine.Proofs.Remarks

/-!
A dump leaves nothing out. Behind its registers it has a line for each cell that is not zero, in the
order of the addresses, and no character at the end of such a line breaks it. So the memory is read
back from the text, and machines with the same dump have the same registers and the same memory.
-/
namespace WordMachine

namespace Memory

/-- The cells that are not zero with their words, in the order of their addresses. -/
structure Filled (m : Memory) (cells : List (ℕ × Word)) : Prop where
  ascending : cells.Pairwise fun c d => c.1 < d.1
  mem_iff : ∀ a w, (a, w) ∈ cells ↔ a < cellCount ∧ w ≠ 0 ∧ m.read (UInt16.ofNat a) = w

theorem filled_nonzero (m : Memory) : m.Filled m.nonzero where
  ascending := m.ascending_nonzeroFrom 0
  mem_iff a w := by
    unfold nonzero
    rw [mem_nonzeroFrom_iff]
    simp

theorem Filled.eq {m : Memory} {cells others : List (ℕ × Word)} (h : m.Filled cells)
    (h' : m.Filled others) : cells = others := by
  have : Std.Irrefl fun c d : ℕ × Word => c.1 < d.1 := ⟨fun c => Nat.lt_irrefl c.1⟩
  apply h.ascending.eq_of_mem_iff h'.ascending
  intro ⟨a, w⟩
  rw [h.mem_iff, h'.mem_iff]

theorem filled_zero : zero.Filled [] := by
  refine ⟨.nil, fun a w => ?_⟩
  rw [read_zero]
  constructor
  · intro hmem
    cases hmem
  · rintro ⟨-, hne, hzero⟩
    exact absurd hzero.symm hne

theorem Filled.write {m : Memory} {cells : List (ℕ × Word)} (h : m.Filled cells) {a : ℕ} {w : Word}
    (ha : a < cellCount) (hw : w ≠ 0) (hlast : ∀ c ∈ cells, c.1 < a) :
    (m.write (UInt16.ofNat a) w).Filled (cells ++ [(a, w)]) := by
  constructor
  · refine List.pairwise_append.mpr ⟨h.ascending, List.pairwise_singleton _ _, ?_⟩
    intro c hc d hd
    rw [List.mem_singleton.mp hd]
    exact hlast c hc
  · intro b v
    rw [List.mem_append, List.mem_singleton, Prod.mk.injEq, read_write]
    by_cases hba : b = a
    · subst hba
      have hnew : (b, v) ∉ cells := fun hc => Nat.lt_irrefl b (hlast _ hc)
      rw [if_pos rfl]
      constructor
      · rintro (hc | ⟨-, rfl⟩)
        · exact absurd hc hnew
        · exact ⟨ha, hw, rfl⟩
      · rintro ⟨-, -, rfl⟩
        exact .inr ⟨rfl, rfl⟩
    · have hother : b < cellCount → UInt16.ofNat a ≠ UInt16.ofNat b := by
        intro hb hsame
        have hnat := congrArg UInt16.toNat hsame
        rw [UInt16.toNat_ofNat', UInt16.toNat_ofNat'] at hnat
        unfold cellCount at ha hb
        omega
      rw [h.mem_iff]
      constructor
      · rintro (⟨hb, hv, hread⟩ | ⟨hsame, -⟩)
        · rw [if_neg (hother hb)]
          exact ⟨hb, hv, hread⟩
        · exact absurd hsame hba
      · rintro ⟨hb, hv, hread⟩
        rw [if_neg (hother hb)] at hread
        exact .inl ⟨hb, hv, hread⟩

/-- The memory with these words in it and 0 everywhere else. -/
def restore (cells : List (ℕ × Word)) : Memory :=
  cells.foldl (fun m c => m.write (UInt16.ofNat c.1) c.2) .zero

/-- A cell is as in a memory if it was so before or is written, and only what is in the memory is
written. -/
theorem read_foldl_write {m before : Memory} {cells : List (ℕ × Word)} {x : Word}
    (h : ∀ c ∈ cells, m.read (UInt16.ofNat c.1) = c.2)
    (hx : before.read x = m.read x ∨ ∃ c ∈ cells, UInt16.ofNat c.1 = x) :
    (cells.foldl (fun m c => m.write (UInt16.ofNat c.1) c.2) before).read x = m.read x := by
  induction cells generalizing before with
  | nil => simpa using hx
  | cons c cells ih =>
    obtain ⟨hc, hcells⟩ := List.forall_mem_cons.mp h
    apply ih hcells
    dsimp only
    by_cases hhere : UInt16.ofNat c.1 = x
    · left
      rw [hhere, read_write_self, ← hc, hhere]
    · rw [read_write_of_ne _ _ hhere]
      simpa [hhere] using hx

theorem Filled.restore_eq {m : Memory} {cells : List (ℕ × Word)} (h : m.Filled cells) :
    restore cells = m := by
  apply ext_read
  intro x
  apply read_foldl_write
  · intro ⟨a, w⟩ hc
    exact ((h.mem_iff a w).mp hc).2.2
  · by_cases hzero : m.read x = 0
    · left
      rw [read_zero, hzero]
    · right
      have hx : UInt16.ofNat x.toNat = x := UInt16.ofNat_toNat
      refine ⟨(x.toNat, m.read x), (h.mem_iff _ _).mpr ⟨UInt16.toNat_lt x, hzero, ?_⟩, hx⟩
      rw [hx]

end Memory

namespace Dump

open Text Numeral Remark

def opening : String :=
  "=== MEMORY DUMP (non-zero words) ==="

def closing : String :=
  "=== END DUMP ==="

def registerText (m : Machine) : String :=
  "PC: " ++ Word.hex m.pc ++ "  IN: " ++ " ".intercalate (m.slots.toList.map Word.hex)
    ++ "  OUT: " ++ Word.hex m.out ++ "  halted: " ++ (if m.halted then "True" else "False")

def shownChar (w : Word) : Char :=
  if 32 ≤ w.toNat ∧ w.toNat < 127 then Char.ofNat w.toNat else '.'

def cellText (a : ℕ) (w : Word) : String :=
  padLeft 5 '0' (decimal a) ++ ": " ++ Word.hex w ++ "  ("
    ++ padLeft 5 ' ' (decimal w.toNat) ++ ") " ++ String.singleton (shownChar w)

/-- The lines of a dump with a line for each of these cells. -/
def linesOf (m : Machine) (cells : List (ℕ × Word)) : List String :=
  [opening, registerText m, ""] ++ cells.map (fun c => cellText c.1 c.2) ++ [closing]

theorem text_eq (m : Machine) :
    text m = String.join ((linesOf m m.memory.nonzero).map (· ++ "\n")) := by
  have htext : text m = "=== MEMORY DUMP (non-zero words) ===\n" ++ registerLine m
      ++ String.join (m.memory.nonzero.map fun c => cellLine c.1 c.2) ++ "=== END DUMP ===\n" := rfl
  have hcells : (m.memory.nonzero.map fun c => cellLine c.1 c.2) =
      (m.memory.nonzero.map fun c => cellText c.1 c.2).map (· ++ "\n") := by
    rw [List.map_map]
    exact List.map_congr_left fun _ _ => rfl
  have hregisters : registerLine m = registerText m ++ "\n" ++ ("" ++ "\n") := by
    have hfeeds : "\n\n" = "\n" ++ ("" ++ "\n") := rfl
    unfold registerLine registerText
    rw [hfeeds]
    simp only [String.append_assoc]
  have hopening : "=== MEMORY DUMP (non-zero words) ===\n" = opening ++ "\n" := by decide
  have hclosing : "=== END DUMP ===\n" = closing ++ "\n" := by decide
  unfold linesOf
  rw [htext, hcells, hregisters, hopening, hclosing, List.map_append, List.map_append,
    String.join_append, String.join_append]
  simp only [List.map_cons, List.map_nil, String.join_cons, String.join_nil, String.append_assoc,
    String.append_empty]

theorem oneLine_registerText (m : Machine) : OneLine (registerText m) := by
  have hslots : Plain (" ".intercalate (m.slots.toList.map Word.hex)) :=
    plain_intercalate (by decide) (List.forall_mem_map.mpr fun w _ => plain_hex4 w.toNat)
  have hhalted : Plain (if m.halted then "True" else "False") := by
    cases m.halted <;> decide
  refine .of_plain (plain_append (plain_append (plain_append (plain_append (plain_append
    (plain_append (plain_append ?_ ?_) ?_) hslots) ?_) ?_) ?_) hhalted)
  · decide
  · exact plain_hex4 m.pc.toNat
  · decide
  · decide
  · exact plain_hex4 m.out.toNat
  · decide

theorem oneLine_cellText (a : ℕ) (w : Word) : OneLine (cellText a w) := by
  have hprintable : ∀ n < 127, 32 ≤ n → isBreak (Char.ofNat n) = false := by decide
  have hshown : isBreak (shownChar w) = false := by
    unfold shownChar
    split
    · next hrange => exact hprintable _ hrange.2 hrange.1
    · decide
  have hfront : Plain (padLeft 5 '0' (decimal a) ++ ": " ++ w.hex ++ "  ("
      ++ padLeft 5 ' ' (decimal w.toNat) ++ ") ") := by
    have haddress : Plain (padLeft 5 '0' (decimal a)) :=
      plain_padLeft (by decide) (plain_decimal a) 5
    have hnumber : Plain (padLeft 5 ' ' (decimal w.toNat)) :=
      plain_padLeft (by decide) (plain_decimal w.toNat) 5
    exact plain_append (plain_append (plain_append (plain_append (plain_append haddress (by decide))
      (plain_hex4 w.toNat)) (by decide)) hnumber) (by decide)
  apply oneLine_append (.of_plain hfront)
  intro c hc
  rw [String.toList_singleton, List.mem_singleton] at hc
  rw [hc, hshown]

theorem lines_text (m : Machine) :
    lines (text m : String) = (linesOf m m.memory.nonzero).map ofString := by
  rw [text_eq]
  apply lines_join
  intro line hline
  unfold linesOf at hline
  simp only [List.mem_append, List.mem_cons, List.mem_map, List.not_mem_nil, or_false] at hline
  rcases hline with ((rfl | rfl | rfl) | ⟨⟨a, w⟩, -, rfl⟩) | rfl
  · decide
  · exact oneLine_registerText m
  · decide
  · exact oneLine_cellText a w
  · decide

/-- The lines between the registers and the end. -/
def cellLines (text : String) : List Text :=
  ((lines text).drop 3).dropLast

theorem cellLines_text (m : Machine) :
    cellLines (text m) = (m.memory.nonzero.map fun c => cellText c.1 c.2).map ofString := by
  have hfront : ([opening, registerText m, ""].map ofString).length = 3 := by simp
  unfold cellLines
  rw [lines_text]
  unfold linesOf
  rw [List.map_append, List.map_append, List.append_assoc, List.drop_left' hfront]
  exact List.dropLast_concat

/-- The address and the word at the front of a line, with a colon between them. -/
def cell? (line : Text) : Option (ℕ × Word) :=
  match words line with
  | address :: word :: _ =>
    if address.getLast? = some (.char ':') then
      (number? address.dropLast).bind fun a => (word? word).map fun w => (a, w)
    else none
  | _ => none

theorem cell?_cellText (a : ℕ) (w : Word) : cell? (cellText a w : String) = some (a, w) := by
  let address := padLeft 5 '0' (decimal a)
  let more := "(" ++ padLeft 5 ' ' (decimal w.toNat) ++ ") " ++ String.singleton (shownChar w)
  have hline : cellText a w = (address ++ ":") ++ (" " ++ (w.hex ++ ("  " ++ more))) := by
    have hcolon : ": " = ":" ++ " " := rfl
    have hopen : "  (" = "  " ++ "(" := rfl
    unfold cellText
    rw [hcolon, hopen]
    simp only [String.append_assoc, address, more]
  have haddress : Solid (address ++ ":") :=
    solid_append (solid_padLeft (by decide) (solid_decimal a)) (by decide)
  have hwords : words (cellText a w : String) =
      ofString (address ++ ":") :: ofString w.hex :: words more := by
    rw [hline, words_spaced haddress, words_of_solid_append (solid_hex w) (by decide) (by decide)]
  have hcolon : (ofString (address ++ ":")).getLast? = some (.char ':') := by
    rw [ofString_append]
    exact List.getLast?_concat
  have hfigures : (ofString (address ++ ":")).dropLast = ofString address := by
    rw [ofString_append]
    exact List.dropLast_concat
  have hnumber : number? (ofString address) = some a := by
    unfold number?
    rw [chars_ofString, figure?_padLeft (by decide), figure?_decimal]
  unfold cell?
  rw [hwords]
  dsimp only
  rw [if_pos hcolon, hfigures, hnumber, word?_hex]
  rfl

theorem words_registerText (m : Machine) :
    words (registerText m : String) = [ofString "PC:", ofString m.pc.hex, ofString "IN:"]
      ++ (m.slots.toList.map Word.hex).map ofString
      ++ [ofString "OUT:", ofString m.out.hex, ofString "halted:",
        ofString (if m.halted then "True" else "False")] := by
  let slots := " ".intercalate (m.slots.toList.map Word.hex)
  let halted := if m.halted then "True" else "False"
  have hline : registerText m = "PC:" ++ (" " ++ (m.pc.hex ++ ("  " ++ ("IN:" ++ (" " ++ (slots ++
      ("  " ++ ("OUT:" ++ (" " ++ (m.out.hex ++ ("  " ++ ("halted:" ++ (" " ++ halted)))))))))))))
      := by
    have hpc : "PC: " = "PC:" ++ " " := rfl
    have hin : "  IN: " = "  " ++ "IN:" ++ " " := rfl
    have hout : "  OUT: " = "  " ++ "OUT:" ++ " " := rfl
    have hmark : "  halted: " = "  " ++ "halted:" ++ " " := rfl
    unfold registerText
    rw [hpc, hin, hout, hmark]
    simp only [String.append_assoc, slots, halted]
  have hhalted : Solid halted := by
    unfold halted
    cases m.halted <;> decide
  have hslots : words slots = (m.slots.toList.map Word.hex).map ofString := words_hex _
  rw [hline, words_spaced (by decide),
    words_of_solid_append (solid_hex m.pc) (by decide) (by decide), words_spaced (by decide),
    words_apart (by decide) (by decide), hslots, words_spaced (by decide),
    words_of_solid_append (solid_hex m.out) (by decide) (by decide), words_spaced (by decide),
    words_of_solid hhalted]
  simp [halted]

theorem eq_of_registerText_eq {m m' : Machine} (h : registerText m = registerText m') :
    m.pc = m'.pc ∧ m.slots = m'.slots ∧ m.out = m'.out ∧ m.halted = m'.halted := by
  have hwords : words (registerText m : String) = words (registerText m' : String) := by rw [h]
  rw [words_registerText, words_registerText, List.append_assoc, List.append_assoc] at hwords
  obtain ⟨hfront, hbehind⟩ := List.append_inj hwords (by simp)
  obtain ⟨hslots, hlast⟩ := List.append_inj hbehind (by simp)
  obtain ⟨hpc, -⟩ := List.cons.inj (List.cons.inj hfront).2
  obtain ⟨hout, hmark⟩ := List.cons.inj (List.cons.inj hlast).2
  obtain ⟨hhalted, -⟩ := List.cons.inj (List.cons.inj hmark).2
  have hflag := ofString_injective hhalted
  refine ⟨hex_injective (ofString_injective hpc), ?_, hex_injective (ofString_injective hout), ?_⟩
  · apply Vector.toList_inj.mp
    exact hex_injective.list_map (ofString_injective.list_map hslots)
  · revert hflag
    cases m.halted <;> cases m'.halted <;> decide

theorem map_cell?_cellLines (m : Machine) :
    (cellLines (text m)).map cell? = m.memory.nonzero.map some := by
  rw [cellLines_text, List.map_map, List.map_map]
  refine List.map_congr_left fun c _ => ?_
  rw [Function.comp_apply, Function.comp_apply]
  exact cell?_cellText c.1 c.2

theorem restore_cellLines (m : Machine) :
    Memory.restore ((cellLines (text m)).filterMap cell?) = m.memory := by
  have hcells : (cellLines (text m)).filterMap cell? = m.memory.nonzero := by
    calc
      _ = ((cellLines (text m)).map cell?).filterMap id := List.filterMap_map.symm
      _ = (m.memory.nonzero.map some).filterMap id := by rw [map_cell?_cellLines]
      _ = m.memory.nonzero := by
        rw [List.filterMap_map]
        exact List.filterMap_some
  rw [hcells]
  exact m.memory.filled_nonzero.restore_eq

/-- A dump is complete. It has one line for each cell that is not zero, in the order of their
addresses, between the lines of the registers and the last one. The addresses and words in front of
these lines, with 0 everywhere else, are the memory. So machines with the same dump have the same
memory and the same registers. -/
theorem text_restores (m : Machine) :
    lines (text m : String) = (linesOf m m.memory.nonzero).map ofString ∧
    m.memory.Filled m.memory.nonzero ∧
    (cellLines (text m)).map cell? = m.memory.nonzero.map some ∧
    Memory.restore ((cellLines (text m)).filterMap cell?) = m.memory ∧
    ∀ m', text m = text m' → m.memory = m'.memory ∧ m.pc = m'.pc ∧ m.slots = m'.slots ∧
      m.out = m'.out ∧ m.halted = m'.halted := by
  refine ⟨lines_text m, m.memory.filled_nonzero, map_cell?_cellLines m, restore_cellLines m, ?_⟩
  intro m' h
  have hmemory : m.memory = m'.memory := by rw [← restore_cellLines m, h, restore_cellLines]
  have hlines : (lines (text m : String))[1]? = (lines (text m' : String))[1]? := by rw [h]
  rw [lines_text, lines_text] at hlines
  exact ⟨hmemory, eq_of_registerText_eq (ofString_injective (Option.some.inj hlines))⟩

/-- A machine with a colon in one cell and a blank in the last one. -/
def marked : Machine :=
  { Machine.fresh with memory := (Memory.zero.write 7 0x3A).write 0xFFFF 0x20, pc := 3 }

theorem filled_marked : marked.memory.Filled [(7, 0x3A), (65535, 0x20)] := by
  have hcolon : (Memory.zero.write 7 0x3A).Filled [(7, 0x3A)] :=
    Memory.filled_zero.write (by decide) (by decide) (by simp)
  exact hcolon.write (by decide) (by decide) (by decide)

/-- What was emitted before and how many steps there were is in no dump. -/
theorem text_restores_marked :
    let later : Machine := { marked with steps := 12, emitted := #[0x41] }
    let shown := ["=== MEMORY DUMP (non-zero words) ===",
      "PC: 0003  IN: 0000 0000 0000  OUT: 0000  halted: False", "",
      "00007: 003A  (   58) :", "65535: 0020  (   32)  ", "=== END DUMP ==="]
    text marked = text later ∧ marked.memory = later.memory ∧ marked.pc = later.pc ∧
      lines (text marked : String) = shown.map ofString := by
  intro later shown
  obtain ⟨hlines, hfilled, -, -, hsame⟩ := text_restores marked
  have htext : text marked = text later := rfl
  have hshown : linesOf marked [(7, 0x3A), (65535, 0x20)] = shown := by decide +kernel
  obtain ⟨hmemory, hpc, -⟩ := hsame later htext
  rw [hfilled.eq filled_marked, hshown] at hlines
  exact ⟨htext, hmemory, hpc, hlines⟩

end Dump

end WordMachine
