import Mathlib.Data.List.Chain
import Mathlib.Data.List.Intervals
import WordMachine.Proofs.Figures
import WordMachine.Proofs.Spelling
import WordMachine.Proofs.Sweep

/-!
Listings read back from their text. The text is cut into lines and the lines into columns. No hyphen
in a column has a blank behind it, so the columns are those that were written, and from them the
rows and the words of the image are read.
-/
namespace WordMachine

namespace Text

/-- The parts of a text between the places where `sep` stands, behind what is to be skipped. -/
def splitFrom (sep : List Char) : ℕ → List Char → List (List Char)
  | _, [] => [[]]
  | skip + 1, _ :: rest => splitFrom sep skip rest
  | 0, c :: rest =>
    if sep.isPrefixOf (c :: rest) then [] :: splitFrom sep (sep.length - 1) rest
    else (splitFrom sep 0 rest).modifyHead (c :: ·)

def cut (sep s : String) : List String :=
  (splitFrom sep.toList 0 s.toList).map String.ofList

theorem splitFrom_length (sep front rest : List Char) :
    splitFrom sep front.length (front ++ rest) = splitFrom sep 0 rest := by
  induction front with
  | nil => rfl
  | cons c front ih => exact ih

/-- Up to the first `sep`, which is the one behind `s` if no `sep` begins earlier. -/
theorem splitFrom_append {sep s : List Char} (hne : sep ≠ []) (h : ¬ sep <:+: s ++ sep.dropLast)
    (rest : List Char) : splitFrom sep 0 (s ++ sep ++ rest) = s :: splitFrom sep 0 rest := by
  induction s with
  | nil =>
    obtain ⟨c, more, rfl⟩ := List.exists_cons_of_ne_nil hne
    have hfront : (c :: more).isPrefixOf (c :: (more ++ rest)) = true :=
      List.isPrefixOf_iff_prefix.mpr (List.prefix_append (c :: more) rest)
    rw [List.nil_append, List.cons_append, splitFrom, if_pos hfront, List.length_cons,
      Nat.add_sub_cancel, splitFrom_length]
  | cons c s ih =>
    rw [List.cons_append, List.infix_cons_iff, not_or] at h
    obtain ⟨hhere, hlater⟩ := h
    have hfront : ¬ sep.isPrefixOf (c :: (s ++ sep ++ rest)) = true := by
      intro hstarts
      have hwhole : c :: (s ++ sep.dropLast) <+: c :: (s ++ sep ++ rest) := by
        refine List.cons_prefix_cons.mpr ⟨rfl, ?_⟩
        rw [List.append_assoc, List.prefix_append_right_inj]
        exact (List.dropLast_prefix sep).trans (List.prefix_append sep rest)
      have hshort : sep.length ≤ (c :: (s ++ sep.dropLast)).length := by
        have hpos := List.length_pos_iff.mpr hne
        simp only [List.length_cons, List.length_append, List.length_dropLast]
        omega
      have hsep := List.isPrefixOf_iff_prefix.mp hstarts
      exact hhere (List.prefix_of_prefix_length_le hsep hwhole hshort)
    rw [List.cons_append, List.cons_append, splitFrom, if_neg hfront, ih hlater]
    rfl

theorem splitFrom_of_not_part {sep s : List Char} (h : ¬ sep <:+: s) : splitFrom sep 0 s = [s] := by
  induction s with
  | nil => rfl
  | cons c s ih =>
    rw [List.infix_cons_iff, not_or] at h
    obtain ⟨hhere, hlater⟩ := h
    rw [splitFrom, if_neg (mt List.isPrefixOf_iff_prefix.mp hhere), ih hlater]
    rfl

/-- Parts with `sep` between them are found again, unless a `sep` begins within one of them. -/
theorem cut_intercalate {sep : String} (hsep : sep.toList ≠ []) {parts : List String}
    (hne : parts ≠ [])
    (h : ∀ part ∈ parts, ¬ sep.toList <:+: part.toList ++ sep.toList.dropLast) :
    cut sep (sep.intercalate parts) = parts := by
  unfold cut
  rw [String.toList_intercalate]
  induction parts with
  | nil => exact absurd rfl hne
  | cons part parts ih =>
    obtain ⟨hpart, hparts⟩ := List.forall_mem_cons.mp h
    cases parts with
    | nil =>
      have hinside : part.toList <:+: part.toList ++ sep.toList.dropLast :=
        (List.prefix_append _ _).isInfix
      rw [List.map_singleton, List.intercalate_singleton,
        splitFrom_of_not_part fun hfound => hpart (hfound.trans hinside), List.map_singleton,
        String.ofList_toList]
    | cons next parts =>
      have hlater := ih (List.cons_ne_nil _ _) hparts
      rw [List.map_cons] at hlater
      rw [List.map_cons, List.map_cons, List.intercalate_cons_cons, splitFrom_append hsep hpart,
        List.map_cons, hlater, String.ofList_toList]

-- places do not overlap, and there may be nothing between them
example : cut " - " "a - - b -  - c" = ["a", "- b", "", "c"] := by decide

/-- Text in one column of one line: no hyphen in it has a blank behind it. -/
structure IsColumn (s : String) : Prop where
  oneLine : '\n' ∉ s.toList
  tight : s.toList.IsChain fun c d => c = '-' → d ≠ ' '
  last : s.toList.getLast? ≠ some '-'

instance (s : String) : Decidable (IsColumn s) :=
  decidable_of_iff ('\n' ∉ s.toList ∧ s.toList.IsChain (fun c d => c = '-' → d ≠ ' ') ∧
    s.toList.getLast? ≠ some '-') ⟨fun h => ⟨h.1, h.2.1, h.2.2⟩, fun h => ⟨h.1, h.2, h.3⟩⟩

theorem isColumn_append {s t : String} (hs : IsColumn s) (ht : IsColumn t) : IsColumn (s ++ t) := by
  constructor
  · rw [String.toList_append, List.mem_append, not_or]
    exact ⟨hs.oneLine, ht.oneLine⟩
  · rw [String.toList_append, List.isChain_append]
    refine ⟨hs.tight, ht.tight, ?_⟩
    rintro c hc d - rfl
    exact absurd hc hs.last
  · rw [String.toList_append, List.getLast?_append]
    have hlast := ht.last
    cases hend : t.toList.getLast? with
    | none => exact hs.last
    | some c =>
      rw [hend] at hlast
      exact hlast

/-- What stands in a column is not cut, and neither is it with what follows it. -/
theorem IsColumn.apart {s : String} (h : IsColumn s) :
    ¬ " - ".toList <:+: s.toList ++ " - ".toList.dropLast := by
  intro hfound
  have hbehind : (" - ".toList.dropLast).IsChain fun c d => c = '-' → d ≠ ' ' := by decide
  have hchain : (s.toList ++ " - ".toList.dropLast).IsChain fun c d => c = '-' → d ≠ ' ' := by
    rw [List.isChain_append]
    refine ⟨h.tight, hbehind, ?_⟩
    rintro c hc d - rfl
    exact absurd hc h.last
  have hsep := List.IsChain.infix hchain hfound
  exact absurd hsep (by decide)

end Text

namespace Numeral

open Text

theorem isColumn_sign_append (n : Int) {figures : String} (hne : figures.toList ≠ [])
    (h : ∀ c ∈ figures.toList, c ∉ ['-', ' ', '\n']) : IsColumn (sign n ++ figures) := by
  have hall : ∀ c ∈ (sign n ++ figures).toList, c ∉ [' ', '\n'] := by
    apply forall_mem_sign_append (P := fun c => c ∉ [' ', '\n']) (by decide)
    exact fun c hc hmem => h c hc (List.mem_cons_of_mem _ hmem)
  constructor
  · exact fun hmem => hall _ hmem (by simp)
  · refine (List.pairwise_of_forall_mem_list ?_).isChain
    rintro c - d hd - rfl
    exact hall _ hd (by simp)
  · rw [String.toList_append, List.getLast?_append, List.getLast?_eq_some_getLast hne]
    intro hlast
    exact h _ (List.getLast_mem hne) (by simp [Option.some.inj hlast])

theorem isColumn_decimal (n : Int) : IsColumn (decimal n) := by
  refine isColumn_sign_append n ?_ (forall_mem_digits (by decide) n.natAbs)
  rw [String.toList_ofList]
  exact Nat.toDigits_ne_nil

theorem isColumn_hex4 (n : Int) : IsColumn (hex4 n) := by
  refine isColumn_sign_append n ?_ (forall_mem_hexDigits (by decide) _ n.natAbs)
  simp [padLeft, upperHexDigits, Nat.toDigits_ne_nil]

/-- The sum of two numbers has at most one digit more. -/
theorem two_pow_le {j k : ℕ} (hless : j < k) : Nat.pow 10 j + Nat.pow 10 j ≤ Nat.pow 10 k := by
  have hnext : Nat.pow 10 (j + 1) = Nat.pow 10 j * 10 := Nat.pow_succ 10 j
  have hmore : Nat.pow 10 (j + 1) ≤ Nat.pow 10 k := Nat.pow_le_pow_right (by decide) hless
  omega

end Numeral

namespace Instruction

open Text Numeral

theorem isColumn_name (o : Operation) : IsColumn o.name := by
  cases o <;> decide

theorem isColumn_mnemonic (i : Instruction) (operands : List Int) (target : Int) :
    IsColumn (i.mnemonic operands target) :=
  mnemonic_of_append isColumn_append (by decide) isColumn_decimal isColumn_hex4 isColumn_name i
    operands target

end Instruction

namespace Listing

open Text Numeral

def rowColumns (r : Row) : List String :=
  [decimal r.address, " ".intercalate (r.words.map hex4), r.text]

/-- The columns of each line of a text. -/
def columns (text : String) : List (List String) :=
  (cut "\n" text).map (cut " - ")

theorem line_eq (r : Row) : line r = " - ".intercalate (rowColumns r) := by
  unfold line rowColumns
  simp only [String.intercalate_cons_cons, String.intercalate_singleton, String.append_assoc]

section

variable {start : Int} {words : List Int} {r : Row} (hr : r ∈ disassemble start words)

include hr

theorem isColumn_of_mem_disassemble : ∀ column ∈ rowColumns r, IsColumn column := by
  have htext : IsColumn r.text := by
    rw [(sweep_disassemble start words).text_eq hr]
    split
    · exact Instruction.isColumn_mnemonic _ _ _
    · exact isColumn_append (Instruction.isColumn_name _) (by decide)
  have hwords : IsColumn (" ".intercalate (r.words.map hex4)) := by
    refine intercalate_of_append (by decide) isColumn_append (by decide) ?_
    intro part hpart
    obtain ⟨n, -, rfl⟩ := List.mem_map.mp hpart
    exact isColumn_hex4 n
  unfold rowColumns
  simpa using ⟨isColumn_decimal r.address, hwords, htext⟩

theorem cut_line : cut " - " (line r) = rowColumns r := by
  rw [line_eq]
  exact cut_intercalate (by decide) (List.cons_ne_nil _ _)
    fun column hcolumn => (isColumn_of_mem_disassemble hr column hcolumn).apart

theorem notMem_line : '\n' ∉ (line r).toList := by
  rw [line_eq]
  refine intercalate_of_append (P := fun s => '\n' ∉ s.toList) (by decide) ?_ (by decide) ?_
  · intro s t hs ht
    rw [String.toList_append, List.mem_append, not_or]
    exact ⟨hs, ht⟩
  · exact fun column hcolumn => (isColumn_of_mem_disassemble hr column hcolumn).oneLine

end

theorem disassemble_eq_nil_iff {start : Int} {words : List Int} :
    disassemble start words = [] ↔ words = [] := by
  constructor
  · intro hnone
    have hwords := flatMap_words start words
    rw [hnone] at hwords
    exact List.map_eq_nil_iff.mp hwords.symm
  · rintro rfl
    rw [disassemble]

theorem ofInt_cell (n : Int) : UInt16.ofInt (cell n) = UInt16.ofInt n :=
  Word.ofInt_toNat _

theorem map_cell (ns : List Int) :
    ns.map cell = (ns.map UInt16.ofInt).map fun w => (w.toNat : Int) := by
  rw [List.map_map]
  rfl

theorem map_cell_cell (ns : List Int) : (ns.map cell).map cell = ns.map cell := by
  rw [map_cell ns, map_cell_numbers]

theorem disassemble_map_cell (start : Int) (words : List Int) :
    disassemble start (words.map cell) = disassemble start words := by
  have hfirst : ∀ w, cell (cell w) = cell w := fun w => cell_toNat _
  induction start, words using words_induction with
  | none start => rw [List.map_nil]
  | short start w others h =>
    rw [List.map_cons, disassemble_short start w others h, disassemble_short, ofInt_cell, hfirst,
      map_cell_cell]
    rw [ofInt_cell, List.length_map]
    exact h
  | complete start w others behind h ih =>
    rw [List.map_append, List.map_cons, disassemble_complete start w others behind h,
      disassemble_complete, ofInt_cell, hfirst, map_cell_cell, List.length_map, ih]
    rw [ofInt_cell, List.length_map]
    exact h

theorem disassemble_congr {words others : List Int}
    (h : others.map UInt16.ofInt = words.map UInt16.ofInt) (start : Int) :
    disassemble start others = disassemble start words := by
  rw [← disassemble_map_cell start others, ← disassemble_map_cell start words, map_cell, map_cell,
    h]

theorem columns_text {start : Int} {words : List Int} (hne : words ≠ []) {text : String}
    (htext : text? (disassemble start words) = some text) :
    columns text = (disassemble start words).map rowColumns := by
  unfold text? at htext
  split at htext
  · obtain rfl := Option.some.inj htext
    unfold columns
    rw [cut_intercalate]
    · rw [List.map_map]
      exact List.map_congr_left fun r hr => cut_line hr
    · decide
    · simpa [disassemble_eq_nil_iff] using hne
    · intro l hl
      obtain ⟨r, hr, rfl⟩ := List.mem_map.mp hl
      intro hfound
      have hnone : "\n".toList.dropLast = [] := rfl
      rw [hnone, List.append_nil] at hfound
      exact notMem_line hr (hfound.subset (by decide))
  · cases htext

theorem length_hex (w : Word) : w.hex.toList.length = 4 := by
  have hword : w.toNat < 16 ^ 4 := UInt16.toNat_lt w
  let digits := upperHexDigits w.toNat
  have hdigits : digits.length ≤ 4 := by
    have hfew := (Nat.length_toDigits_le_iff (b := 16) (by decide) (by decide)).mpr hword
    rwa [← List.length_map Char.toUpper] at hfew
  have hfigures : (String.ofList digits).length = digits.length := String.length_ofList
  have hhex : w.hex.toList = List.replicate (4 - digits.length) '0' ++ digits := by
    unfold Word.hex hex4 padLeft
    rw [sign_natCast, String.empty_append, String.toList_append, String.toList_ofList,
      String.toList_ofList, Int.natAbs_natCast, ← hfigures]
    rfl
  rw [hhex, List.length_append, List.length_replicate]
  omega

theorem spells_words {rest : List Char} {vs : List Word}
    (hend : ∀ c ∈ rest.head?, Image.isGap c = true ∨ c = '#') (h : Image.Spells rest vs)
    (ws : List Word) :
    Image.Spells ((" ".intercalate (ws.map Word.hex)).toList ++ rest) (ws ++ vs) := by
  have hlength : ∀ w : Word, 1 ≤ w.hex.toList.length ∧ w.hex.toList.length ≤ 4 := by
    intro w
    rw [length_hex]
    decide
  induction ws with
  | nil => simpa using h
  | cons w ws ih =>
    cases ws with
    | nil =>
      rw [List.map_singleton, String.intercalate_singleton]
      exact .word _ (hlength w) (figure?_hex w) hend h
    | cons next ws =>
      rw [List.map_cons, List.map_cons, String.intercalate_cons_cons, String.toList_append,
        String.toList_append, List.append_assoc, List.append_assoc]
      refine .word _ (hlength w) (figure?_hex w) ?_ (.gap (by decide) ih)
      intro c hc
      obtain rfl := Option.some.inj hc
      exact .inl (by decide)

theorem spells_rows (rows : List (List Word)) :
    Image.Spells ("\n".intercalate (rows.map fun ws => " ".intercalate (ws.map Word.hex))).toList
      rows.flatten := by
  induction rows with
  | nil => exact .done
  | cons ws rows ih =>
    cases rows with
    | nil =>
      rw [List.map_singleton, String.intercalate_singleton, ← List.append_nil (String.toList _)]
      exact spells_words (by simp) .done ws
    | cons next rows =>
      rw [List.map_cons, List.map_cons, String.intercalate_cons_cons, String.toList_append,
        String.toList_append, List.append_assoc]
      refine spells_words ?_ (.gap (by decide) ih) ws
      intro c hc
      obtain rfl := Option.some.inj hc
      exact .inl (by decide)

def wordsOf (r : Row) : List Word :=
  r.words.map UInt16.ofInt

theorem map_hex4_of_mem {start : Int} {words : List Int} {r : Row}
    (hr : r ∈ disassemble start words) : r.words.map hex4 = (wordsOf r).map Word.hex := by
  obtain ⟨-, here, -, -, -, -, hwords⟩ := exists_of_mem_disassemble hr
  unfold wordsOf
  rw [hwords, List.map_map, List.map_map, List.map_map]
  refine List.map_congr_left fun n _ => ?_
  change hex4 (cell n) = Word.hex (UInt16.ofInt (cell n))
  rw [ofInt_cell]
  rfl

theorem map_toNat_of_mem {start : Int} {words : List Int} {r : Row}
    (hr : r ∈ disassemble start words) :
    (wordsOf r).map (fun w => (w.toNat : Int)) = r.words := by
  obtain ⟨-, here, -, -, -, -, hwords⟩ := exists_of_mem_disassemble hr
  unfold wordsOf
  rw [hwords, List.map_map]
  exact map_cell_cell here

def row? : List String → Option Row
  | [address, words, text] => do
    let a ← signed? 10 address
    let ws ← (Image.ofText words).toOption
    pure ⟨a, ws.map fun w => (w.toNat : Int), text⟩
  | _ => none

/-- The rows of a listing from its text, which is empty if there is no row. -/
def ofText? (text : String) : Option (List Row) :=
  if text = "" then some [] else (columns text).mapM row?

theorem row?_rowColumns {start : Int} {words : List Int} {r : Row}
    (hr : r ∈ disassemble start words) : row? (rowColumns r) = some r := by
  have hwords : Image.ofText (" ".intercalate (r.words.map hex4) : String) = .ok (wordsOf r) := by
    rw [map_hex4_of_mem hr]
    have hspells := spells_words (by simp) .done (wordsOf r)
    rw [List.append_nil, List.append_nil] at hspells
    exact hspells.ofText
  unfold rowColumns row?
  dsimp only
  rw [signed?_decimal, hwords]
  change some (Row.mk r.address ((wordsOf r).map fun w => (w.toNat : Int)) r.text) = some r
  rw [map_toNat_of_mem hr]

theorem mapM_row? {rows : List Row} (h : ∀ r ∈ rows, row? (rowColumns r) = some r) :
    (rows.map rowColumns).mapM row? = some rows := by
  induction rows with
  | nil => rfl
  | cons r rows ih =>
    obtain ⟨hr, hrows⟩ := List.forall_mem_cons.mp h
    rw [List.map_cons, List.mapM_cons, hr, ih hrows]
    rfl

section

variable {start : Int} {words : List Int} {text : String}
  (htext : text? (disassemble start words) = some text)

include htext

theorem text_of_nil (hnone : words = []) : text = "" := by
  rw [disassemble_eq_nil_iff.mpr hnone] at htext
  exact (Option.some.inj htext).symm

theorem ofText_second_columns :
    Image.ofText ("\n".intercalate ((columns text).filterMap (·[1]?)) : String) =
      .ok (words.map UInt16.ofInt) := by
  by_cases hnone : words = []
  · obtain rfl := text_of_nil htext hnone
    subst hnone
    decide
  · let rows := disassemble start words
    have hsecond : (columns text).filterMap (·[1]?) =
        (rows.map wordsOf).map fun ws => " ".intercalate (ws.map Word.hex) := by
      have hcolumn : ∀ r ∈ rows,
          (rowColumns r)[1]? = some (" ".intercalate ((wordsOf r).map Word.hex)) := by
        intro r hr
        rw [← map_hex4_of_mem hr]
        rfl
      rw [columns_text hnone htext, List.filterMap_map, List.map_map, ← List.filterMap_eq_map]
      exact List.filterMap_congr hcolumn
    have hwords : (rows.map wordsOf).flatten = words.map UInt16.ofInt := by
      have hcells := congrArg (List.map UInt16.ofInt) (flatMap_words start words)
      rw [List.map_flatMap, List.map_map] at hcells
      rw [← List.flatMap_def]
      exact hcells.trans (List.map_congr_left fun n _ => ofInt_cell n)
    rw [hsecond, ← hwords]
    exact (spells_rows _).ofText

theorem ofText?_text : ofText? text = some (disassemble start words) := by
  unfold ofText?
  by_cases hnone : words = []
  · rw [text_of_nil htext hnone, if_pos rfl, disassemble_eq_nil_iff.mpr hnone]
  · have hcolumns := columns_text hnone htext
    have hne : text ≠ "" := by
      rintro rfl
      have hempty : columns "" = [[""]] := by decide
      rw [hempty] at hcolumns
      obtain ⟨r, rows, -, hr, -⟩ := List.map_eq_cons_iff.mp hcolumns.symm
      have hthree : (rowColumns r).length = 3 := rfl
      rw [hr] at hthree
      cases hthree
    rw [if_neg hne, hcolumns]
    exact mapM_row? fun r hr => row?_rowColumns hr

end

/-- Two images have the same listing exactly if they name the same words. -/
theorem text_eq_iff {start : Int} {words : List Int} {text : String}
    (htext : text? (disassemble start words) = some text) (others : List Int) :
    text? (disassemble start others) = some text ↔
      others.map UInt16.ofInt = words.map UInt16.ofInt := by
  constructor
  · intro hothers
    have hread := ofText_second_columns hothers
    rw [ofText_second_columns htext] at hread
    exact (Except.ok.inj hread).symm
  · intro hsame
    rw [disassemble_congr hsame, htext]

theorem exists_text {start : Int} {words : List Int} {digits : ℕ} (hdigits : digits < 4300)
    (hstart : start.natAbs < Nat.pow 10 digits) (hlength : words.length < Nat.pow 10 digits) :
    ∃ text, text? (disassemble start words) = some text := by
  have hall : ∀ r ∈ disassemble start words, Writable r.address := by
    intro r hr
    obtain ⟨front, here, behind, rfl, -, haddress, -⟩ := exists_of_mem_disassemble hr
    have hbound : r.address.natAbs < Nat.pow 10 digits + Nat.pow 10 digits := by
      simp only [List.length_append] at hlength
      omega
    apply Nat.lt_of_lt_of_le hbound
    apply two_pow_le
    exact hdigits
  exact ⟨_, if_pos hall⟩

/-- A listing is read back from its text: its lines have three columns each, the words in the second
ones are those of the image, and the rows are found again. So listings from the same address on are
the same exactly if the words of their images are. -/
theorem text_reads_back (start : Int) (words : List Int) :
    (∀ digits < 4300, start.natAbs < Nat.pow 10 digits → words.length < Nat.pow 10 digits →
      ∃ text, text? (disassemble start words) = some text) ∧
    ∀ text, text? (disassemble start words) = some text →
      (words ≠ [] → columns text = (disassemble start words).map rowColumns) ∧
      Image.ofText ("\n".intercalate ((columns text).filterMap (·[1]?)) : String) =
        .ok (words.map UInt16.ofInt) ∧
      ofText? text = some (disassemble start words) ∧
      ∀ others, text? (disassemble start others) = some text ↔
        others.map UInt16.ofInt = words.map UInt16.ofInt := by
  refine ⟨fun _ => exists_text, fun text htext => ⟨?_, ?_, ?_, ?_⟩⟩
  · exact fun hne => columns_text hne htext
  · exact ofText_second_columns htext
  · exact ofText?_text htext
  · exact text_eq_iff htext

/-- An addition and a word of a truncated instruction, from a negative address on. Two of the words
are cut to their cells. -/
theorem text_reads_back_cut :
    let words : List Int := [0x12502, 0x10, 1, -0xFFF0, 0x2003]
    let text := "-4 - 2502 0010 0001 0010 - ADD 0x0001 [0x0010] -> [0x0010]\n"
      ++ "0 - 2003 - JUMP_IF_ZERO <truncated>"
    words ≠ [] ∧ text? (disassemble (-4) words) = some text ∧
      columns text = (disassemble (-4) words).map rowColumns ∧
      Image.ofText ("\n".intercalate ((columns text).filterMap (·[1]?)) : String) =
        .ok [0x2502, 0x10, 1, 0x10, 0x2003] := by
  intro words text
  have hne : words ≠ [] := List.cons_ne_nil _ _
  have htext : text? (disassemble (-4) words) = some text := by decide +kernel
  obtain ⟨hcolumns, hsecond, -, -⟩ := (text_reads_back (-4) words).2 text htext
  exact ⟨hne, htext, hcolumns hne, hsecond⟩

end Listing

end WordMachine
