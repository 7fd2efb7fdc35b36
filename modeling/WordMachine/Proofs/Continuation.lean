import WordMachine.Proofs.Expectations
import WordMachine.Proofs.Tiling

/-!
Listings that go on. A listing from a place where a row stands has the rows from there on, and words
behind an image are listed behind its rows, unless the last row waits for some of them. So a listing
of an image from the beginning ends with each listing that begins at one of its rows.
-/
namespace WordMachine

theorem Text.intercalate_append_of_ne_nil {before behind : List String} (hne : behind ≠ []) :
    "\n".intercalate (before ++ behind) =
      String.join (before.map (· ++ "\n")) ++ "\n".intercalate behind := by
  induction before with
  | nil => simp
  | cons s before ih =>
    have hlater : before ++ behind ≠ [] := by simp [hne]
    rw [List.cons_append, String.intercalate_cons_of_ne_nil hlater, ih, List.map_cons,
      String.join_cons]
    simp only [String.append_assoc]

namespace Listing

variable {start : Int} {words : List Int}

theorem disassemble_append (h : ∀ r ∈ disassemble start words, r.Complete) (more : List Int) :
    disassemble start (words ++ more) =
      disassemble start words ++ disassemble (start + words.length) more := by
  induction start, words using words_induction with
  | none start => simp [disassemble]
  | short start w others hshort =>
    -- the row of an instruction that lacks words would be complete
    have hrow := sweep_disassemble start (w :: others)
    rw [disassemble_short start w others hshort] at h hrow
    have hcomplete := h _ List.mem_cons_self
    unfold Row.Complete truncatedRow at hcomplete
    rw [instruction_cell, List.length_cons, List.length_map] at hcomplete
    omega
  | complete start w others behind hlong ih =>
    rw [disassemble_complete start w others behind hlong] at h
    have hlater := ih (List.forall_mem_cons.mp h).2
    have hplace : start + (others.length + 1) + behind.length =
        start + ((w :: others ++ behind).length : Int) := by
      rw [List.length_append, List.length_cons]
      omega
    rw [List.append_assoc, disassemble_complete start w others (behind ++ more) hlong, hlater,
      disassemble_complete start w others behind hlong, hplace]
    rfl

theorem disassemble_eq_append {before behind : List Row}
    (h : disassemble start words = before ++ behind) (hne : behind ≠ []) :
    ∃ front rest, words = front ++ rest ∧ disassemble start front = before ∧
      disassemble (start + front.length) rest = behind := by
  induction start, words using words_induction generalizing before with
  | none start =>
    rw [disassemble] at h
    exact absurd (List.append_eq_nil_iff.mp h.symm).2 hne
  | short start w others hshort =>
    cases before with
    | nil =>
      refine ⟨[], w :: others, rfl, by rw [disassemble], ?_⟩
      simpa using h
    | cons r before =>
      rw [disassemble_short start w others hshort] at h
      obtain ⟨-, hnone⟩ := List.cons.inj h
      exact absurd (List.append_eq_nil_iff.mp hnone.symm).2 hne
  | complete start w others last hlong ih =>
    cases before with
    | nil =>
      refine ⟨[], w :: others ++ last, rfl, by rw [disassemble], ?_⟩
      simpa using h
    | cons r before =>
      rw [disassemble_complete start w others last hlong] at h
      obtain ⟨hfirst, hlater⟩ := List.cons.inj h
      obtain ⟨front, rest, rfl, hfront, hrest⟩ := ih hlater
      have hplace : start + (others.length + 1) + front.length =
          start + ((w :: others ++ front).length : Int) := by
        rw [List.length_append, List.length_cons]
        omega
      refine ⟨w :: others ++ front, rest, (List.append_assoc _ _ _).symm, ?_, ?_⟩
      · rw [disassemble_complete start w others front hlong, hfirst, hfront]
      · rw [← hplace]
        exact hrest

theorem dropLast_prefix_disassemble (start : Int) (words more : List Int) :
    (disassemble start words).dropLast <+: disassemble start (words ++ more) := by
  by_cases hnone : disassemble start words = []
  · rw [hnone]
    exact List.nil_prefix
  · have hsplit := (List.dropLast_append_getLast hnone).symm
    obtain ⟨front, rest, hwords, hfront, -⟩ :=
      disassemble_eq_append hsplit (List.cons_ne_nil _ _)
    have hcomplete : ∀ r ∈ disassemble start front, r.Complete := by
      rw [hfront]
      exact (tiles_disassemble start words).complete
    have hlonger := disassemble_append hcomplete (rest ++ more)
    rw [← List.append_assoc, ← hwords, hfront] at hlonger
    rw [hlonger]
    exact List.prefix_append _ _

theorem disassemble_drop {before behind : List Row} {r : Row}
    (h : disassemble start words = before ++ r :: behind) :
    ∃ off < words.length, r.address = start + off ∧
      disassemble (start + off) (words.drop off) = r :: behind := by
  obtain ⟨front, rest, rfl, -, hrest⟩ := disassemble_eq_append h (List.cons_ne_nil _ _)
  have hsome : rest ≠ [] := by
    rintro rfl
    rw [disassemble] at hrest
    cases hrest
  have hpos := List.length_pos_iff.mpr hsome
  refine ⟨front.length, ?_, ?_, ?_⟩
  · rw [List.length_append]
    omega
  · apply (tiles_disassemble (start + front.length) rest).first
    rw [hrest]
    rfl
  · rw [List.drop_left]
    exact hrest

/-- The text of rows ends with the text of the last ones, in front of which are whole lines. -/
theorem exists_text_append {before behind : List Row} (hne : behind ≠ []) {whole : String}
    (h : text? (before ++ behind) = some whole) :
    ∃ text, text? behind = some text ∧
      whole = String.join ((before.map line).map (· ++ "\n")) ++ text := by
  unfold text? at h ⊢
  split at h
  · next hall =>
    have hlines : behind.map line ≠ [] := by simpa using hne
    rw [if_pos fun r hr => hall r (List.mem_append_right before hr)]
    refine ⟨_, rfl, ?_⟩
    rw [← Option.some.inj h, List.map_append]
    exact Text.intercalate_append_of_ne_nil hlines
  · cases h

/-- From a place in an image on, whoever asks for the listing. -/
theorem rowsFrom_eq {off : ℕ} {rows : List Row} (h : disassemble off (words.drop off) = rows) :
    CommandLine.rowsFrom words off = rows := by
  unfold CommandLine.rowsFrom CommandLine.wordsFrom
  rw [if_pos (Int.natCast_nonneg off), Int.toNat_natCast]
  exact h

/-- What is expected of a record has the text of the listing from its entry point on. -/
theorem listing_expectations {docs : Documents} {files : Files} {record : Entries}
    {image : List Word} {off : ℕ} {settings : Settings}
    (hasks : Record.Asks docs files record image off settings)
    {text : String} (htext : text? (CommandLine.rowsFrom (Record.numbersOf image) off) = some text)
    {e : Expectations} (he : Record.expectations docs files record = .ok e) :
    e.listing = text ++ "\n" := by
  rw [rowsFrom_eq rfl] at htext
  rw [Record.expectations_eq hasks] at he
  obtain ⟨r, -, rfl⟩ := exists_of_map_eq_ok he
  unfold Record.expected
  dsimp only
  rw [Int.toNat_natCast, htext, Option.getD_some]

/-- A listing goes on where it is left. From the place of a row on it has that row and all behind
it, and words behind complete rows are listed by themselves, at the places behind these. Only the
last row may be another one in the listing of a longer image. What is printed on request from the
place of a row on, and what is expected of a record that starts there, is the end of the text of the
whole image, behind the lines of the rows before. -/
theorem disassemble_continues (start : Int) (words : List Int) :
    (∀ before r behind, disassemble start words = before ++ r :: behind →
      ∃ off < words.length, r.address = start + off ∧
        disassemble (start + off) (words.drop off) = r :: behind) ∧
    (∀ more, (∀ r ∈ disassemble start words, ¬ r.Truncated) →
      disassemble start (words ++ more) =
        disassemble start words ++ disassemble (start + words.length) more) ∧
    (∀ more, (disassemble start words).dropLast <+: disassemble start (words ++ more)) ∧
    ∀ before r behind whole, disassemble 0 words = before ++ r :: behind →
      text? (disassemble 0 words) = some whole →
      Run.listingText words = whole ∧
      ∃ text, whole = String.join ((before.map line).map (· ++ "\n")) ++ text ∧
        (∀ h, CommandLine.printListing h words (.value r.address) =
          (.ok 0, h.print (text ++ "\n"))) ∧
        ∀ docs files record image settings e,
          Record.Asks docs files record image r.address settings →
          Record.numbersOf image = words → Record.expectations docs files record = .ok e →
          e.listing = text ++ "\n" := by
  refine ⟨fun before r behind h => disassemble_drop h, ?_,
    dropLast_prefix_disassemble start words, ?_⟩
  · intro more hwhole
    apply disassemble_append
    intro r hr
    have htruncated := truncated_iff hr
    by_contra hcut
    exact hwhole r hr (htruncated.mpr hcut)
  · intro before r behind whole hrows hwhole
    obtain ⟨off, -, haddress, hdrop⟩ := disassemble_drop hrows
    rw [Int.zero_add] at haddress hdrop
    have hfrom : CommandLine.rowsFrom words off = r :: behind := rowsFrom_eq hdrop
    have hlisting : Run.listingText words = whole := by
      unfold Run.listingText
      rw [hwhole, Option.getD_some]
    rw [hrows] at hwhole
    obtain ⟨text, htext, hfront⟩ := exists_text_append (List.cons_ne_nil _ _) hwhole
    rw [← hfrom] at htext
    rw [haddress]
    refine ⟨hlisting, text, hfront, CommandLine.printListing_of_text htext, ?_⟩
    rintro docs files record image settings e hasks rfl he
    exact listing_expectations hasks htext he

def haltingRecord : Entries := [
  (.text "image", .text "1401 0010 0041 0005"),
  (.text "entry", .int 3)]

theorem asks_haltingRecord :
    Record.Asks .yaml .empty haltingRecord [0x1401, 0x0010, 0x0041, 0x0005] 3 .default where
  image := by decide +kernel
  entry := rfl
  settings := rfl

/-- The halt is listed by itself, in front of more words, and at the end of the whole text. -/
theorem disassemble_continues_halt :
    let words : List Int := [0x1401, 0x10, 0x41, 0x0005]
    let copy : Row := ⟨0, [0x1401, 0x10, 0x41], "COPY 0x0041 -> [0x0010]"⟩
    let halt : Row := ⟨3, [0x0005], "HALT"⟩
    let jump : Row := ⟨4, [0x2003, 0x12], "JUMP_IF_ZERO <truncated>"⟩
    disassemble 0 words = [copy] ++ [halt] ∧ disassemble 3 (words.drop 3) = [halt] ∧
      disassemble 0 (words ++ [0x2003, 0x12]) = [copy] ++ [halt] ++ [jump] ∧
      ∃ e, Record.expectations .yaml .empty haltingRecord = .ok e ∧
        Run.listingText words ++ "\n" =
          "0 - 1401 0010 0041 - COPY 0x0041 -> [0x0010]\n" ++ e.listing := by
  intro words copy halt jump
  have hrows : disassemble 0 words = [copy] ++ [halt] := by decide +kernel
  have hwhole : ∀ r ∈ disassemble 0 words, ¬ r.Truncated := by
    intro r hr htruncated
    have hcomplete : ∀ r ∈ disassemble 0 words, r.Complete := by decide +kernel
    exact (truncated_iff hr).mp htruncated (hcomplete r hr)
  obtain ⟨hresumed, hextended, -, htexts⟩ := disassemble_continues 0 words
  obtain ⟨off, -, haddress, hbehind⟩ := hresumed [copy] halt [] hrows
  have hplace : (3 : Int) = 0 + off := haddress
  obtain rfl : off = 3 := by omega
  have hjump : disassemble 4 [0x2003, 0x12] = [jump] := by decide +kernel
  have hlonger := hextended [0x2003, 0x12] hwhole
  rw [hrows] at hlonger
  have htext : text? (disassemble 0 words) =
      some "0 - 1401 0010 0041 - COPY 0x0041 -> [0x0010]\n3 - 0005 - HALT" := by decide +kernel
  obtain ⟨hlisting, last, hfront, -, hrecords⟩ := htexts [copy] halt [] _ hrows htext
  have hends : (Record.expectations .yaml .empty haltingRecord).map (·.pc) = .ok 4 := by
    decide +kernel
  obtain ⟨e, he, -⟩ := exists_of_map_eq_ok hends
  have hshown := hrecords _ _ _ _ _ e asks_haltingRecord rfl he
  have hline : String.join (([copy].map line).map (· ++ "\n")) =
      "0 - 1401 0010 0041 - COPY 0x0041 -> [0x0010]\n" := by decide +kernel
  refine ⟨hrows, hbehind, hlonger.trans (congrArg _ hjump), e, he, ?_⟩
  rw [hlisting, hshown, hfront, hline, String.append_assoc]

end Listing

end WordMachine
