import WordMachine.Image.Hex
import WordMachine.Proofs.Failure
import WordMachine.Proofs.Hexadecimal
import WordMachine.Proofs.Lines
import WordMachine.Proofs.Loading

/-!
Images as text. A word is spelled with up to four digits. Between words stand blanks, breaks of
lines and commas, and a remark goes from a number sign to the end of its line. A text is read as the
words that it spells, however it spells them.
-/
namespace WordMachine

namespace Image

open Text (isBlank isBreak ofChars)

/-- Whether a character stands between words. -/
def isGap (c : Char) : Bool :=
  isBlank c || c = ','

/-- A text and the words that it spells. Gaps may stand anywhere but within a word, a remark ends
where its line does, and behind the digits of a word there is a gap, a remark or the end. -/
inductive Spells : List Char → List Word → Prop
  | done : Spells [] []
  | gap {c : Char} {rest : List Char} {ws : List Word} (hgap : isGap c = true)
      (h : Spells rest ws) : Spells (c :: rest) ws
  | remark (remark : List Char) {rest : List Char} {ws : List Word}
      (hremark : ∀ c ∈ remark, isBreak c = false) (hend : ∀ c ∈ rest.head?, isBreak c = true)
      (h : Spells rest ws) : Spells ('#' :: remark ++ rest) ws
  | word (digits : List Char) {rest : List Char} {w : Word} {ws : List Word}
      (hlength : 1 ≤ digits.length ∧ digits.length ≤ 4)
      (hdigits : Numeral.figure? 16 digits = some w.toNat)
      (hend : ∀ c ∈ rest.head?, isGap c = true ∨ c = '#') (h : Spells rest ws) :
      Spells (digits ++ rest) (w :: ws)

theorem isBlank_of_isBreak {c : Char} (h : isBreak c = true) : isBlank c = true := by
  unfold isBreak at h
  unfold isBlank
  simp only [Bool.or_eq_true, Bool.and_eq_true, decide_eq_true_iff, beq_iff_eq] at h ⊢
  omega

/-- What stands for a character in a line whose commas are replaced. -/
def shown (c : CodePoint) : CodePoint :=
  if c = .char ',' then .char ' ' else c

theorem tokens_eq (line : Text) :
    tokens line = Text.words ((line.takeWhile (· ≠ .char '#')).map shown) := rfl

theorem isBlank_shown {c : Char} (hgap : isGap c = true) :
    isBlank (shown (.char c)).toChar = true := by
  unfold shown
  by_cases hcomma : c = ','
  · rw [if_pos (congrArg _ hcomma)]
    rfl
  · rw [if_neg fun h => hcomma (CodePoint.char.inj h)]
    unfold isGap at hgap
    rwa [decide_eq_false hcomma, Bool.or_false] at hgap

theorem ne_sign_of_isGap {c : Char} (hgap : isGap c = true) : c ≠ '#' := by
  rintro rfl
  cases hgap

theorem tokens_gap {c : Char} (hgap : isGap c = true) (line : Text) :
    tokens (.char c :: line) = tokens line := by
  have hsign : CodePoint.char c ≠ .char '#' :=
    fun h => ne_sign_of_isGap hgap (CodePoint.char.inj h)
  have htake : (CodePoint.char c :: line).takeWhile (· ≠ .char '#') =
      .char c :: line.takeWhile (· ≠ .char '#') :=
    List.takeWhile_cons_of_pos (decide_eq_true hsign)
  have hblank : ∀ d ∈ [shown (.char c)], isBlank d.toChar = true :=
    List.forall_mem_singleton.mpr (isBlank_shown hgap)
  rw [tokens_eq, htake, List.map_cons]
  exact Text.words_of_blanks hblank _

theorem tokens_remark (remark : Text) : tokens (.char '#' :: remark) = [] := rfl

theorem tokens_word {digits : List Char} {line : Text} (hne : digits ≠ [])
    (hdigits : ∀ c ∈ digits, (Numeral.digit? 16 c).isSome = true)
    (hend : ∀ c ∈ line.head?, ∃ x, c = .char x ∧ (isGap x = true ∨ x = '#')) :
    tokens (ofChars digits ++ line) = ofChars digits :: tokens line := by
  have hother : ∀ x, Numeral.digit? 16 x = none → ∀ c ∈ ofChars digits, c ≠ .char x := by
    rintro x hx _ hc rfl
    obtain ⟨d, hd, hsame⟩ := List.mem_map.mp hc
    exact Numeral.ne_of_digit? (hdigits d hd) hx (CodePoint.char.inj hsame)
  have hshown : (ofChars digits).map shown = ofChars digits :=
    (List.map_congr_left fun c hc => if_neg (hother ',' rfl c hc)).trans (List.map_id _)
  have hsolid : ∀ c ∈ ofChars digits, isBlank c.toChar = false := by
    intro c hc
    obtain ⟨d, hd, rfl⟩ := List.mem_map.mp hc
    exact Numeral.isBlank_of_digit? (hdigits d hd)
  have hbehind : ∀ c ∈ ((line.takeWhile (· ≠ .char '#')).map shown).head?,
      isBlank c.toChar = true := by
    cases line with
    | nil => simp
    | cons c line =>
      obtain ⟨x, rfl, hgap | rfl⟩ := hend c rfl
      · have hsign : CodePoint.char x ≠ .char '#' :=
          fun h => ne_sign_of_isGap hgap (CodePoint.char.inj h)
        rw [List.takeWhile_cons_of_pos (by simpa using hsign), List.map_cons]
        intro _ hfirst
        obtain rfl := Option.some.inj hfirst
        exact isBlank_shown hgap
      · simp
  have htake : (ofChars digits ++ line).takeWhile (· ≠ .char '#') =
      ofChars digits ++ line.takeWhile (· ≠ .char '#') :=
    List.takeWhile_append_of_pos fun c hc => decide_eq_true (hother '#' rfl c hc)
  rw [tokens_eq, htake, List.map_append, hshown]
  exact Text.words_append (mt List.map_eq_nil_iff.mp hne) hsolid hbehind

def allTokens (s : Text) : List Text :=
  (Text.lines s).flatMap tokens

/-- A line ends with its break. A carriage return may have a line feed behind it, which ends no more
than an empty line. -/
theorem allTokens_line_break {line : Text} {c : CodePoint}
    (hline : ∀ c ∈ line, isBreak c.toChar = false) (hc : isBreak c.toChar = true) (rest : Text) :
    allTokens (line ++ c :: rest) = tokens line ++ allTokens rest := by
  have hfeed : ∀ next : Text, allTokens (.char '\n' :: next) = allTokens next := by
    intro next
    change (Text.linesFrom [[]] [] next).flatMap tokens = _
    rw [Text.linesFrom_eq]
    rfl
  obtain ⟨next, hnext, hlines⟩ := Text.exists_linesFrom_break hc rest
  have hread : allTokens (line ++ c :: rest) = tokens line ++ allTokens next := by
    unfold allTokens Text.lines
    rw [Text.linesFrom_line hline, hlines, Text.linesFrom_eq, List.append_nil, List.reverse_reverse]
    rfl
  rw [hread]
  rcases hnext with rfl | rfl
  · rfl
  · rw [hfeed]

theorem allTokens_break {c : CodePoint} (hc : isBreak c.toChar = true) (rest : Text) :
    allTokens (c :: rest) = allTokens rest := by
  have hline : ∀ c ∈ ([] : Text), isBreak c.toChar = false := fun _ h => nomatch h
  exact allTokens_line_break hline hc rest

theorem allTokens_line {line rest : Text} (hline : ∀ c ∈ line, isBreak c.toChar = false)
    (hrest : ∀ c ∈ rest.head?, isBreak c.toChar = true) :
    allTokens (line ++ rest) = tokens line ++ allTokens rest := by
  cases rest with
  | nil =>
    unfold allTokens Text.lines
    rw [Text.linesFrom_line hline, List.append_nil]
    cases line with
    | nil => rfl
    | cons c line => simp [Text.linesFrom]
  | cons c rest => rw [allTokens_line_break hline (hrest c rfl), allTokens_break (hrest c rfl)]

/-- The rest of a line, and what stands behind it. -/
theorem exists_line (s : Text) : ∃ line rest, s = line ++ rest ∧
    (∀ c ∈ line, isBreak c.toChar = false) ∧ ∀ c ∈ rest.head?, isBreak c.toChar = true := by
  refine ⟨s.takeWhile (!isBreak ·.toChar), s.dropWhile (!isBreak ·.toChar), ?_, ?_, ?_⟩
  · exact List.takeWhile_append_dropWhile.symm
  · intro c hc
    simpa using List.mem_takeWhile_imp hc
  · intro c hc
    have hstop := List.head?_dropWhile_not (!isBreak ·.toChar) s
    rw [hc] at hstop
    simpa using hstop

theorem allTokens_gap {c : Char} (hgap : isGap c = true) (s : Text) :
    allTokens (.char c :: s) = allTokens s := by
  cases hbreak : isBreak c with
  | true => exact allTokens_break (c := .char c) hbreak s
  | false =>
    obtain ⟨line, rest, rfl, hline, hrest⟩ := exists_line s
    have hline' : ∀ d ∈ .char c :: line, isBreak (CodePoint.toChar d) = false :=
      List.forall_mem_cons.mpr ⟨hbreak, hline⟩
    rw [← List.cons_append, allTokens_line hline' hrest, allTokens_line hline hrest,
      tokens_gap hgap]

theorem allTokens_remark {remark rest : Text} (hremark : ∀ c ∈ remark, isBreak c.toChar = false)
    (hend : ∀ c ∈ rest.head?, isBreak c.toChar = true) :
    allTokens (.char '#' :: remark ++ rest) = allTokens rest := by
  have hline : ∀ c ∈ .char '#' :: remark, isBreak (CodePoint.toChar c) = false :=
    List.forall_mem_cons.mpr ⟨by decide, hremark⟩
  rw [allTokens_line hline hend, tokens_remark, List.nil_append]

theorem allTokens_word {digits : List Char} {rest : Text} (hne : digits ≠ [])
    (hdigits : ∀ c ∈ digits, (Numeral.digit? 16 c).isSome = true)
    (hend : ∀ c ∈ rest.head?, ∃ x, c = .char x ∧ (isGap x = true ∨ x = '#')) :
    allTokens (ofChars digits ++ rest) = ofChars digits :: allTokens rest := by
  obtain ⟨line, rest, rfl, hline, hrest⟩ := exists_line rest
  have hwhole : ∀ c ∈ ofChars digits ++ line, isBreak c.toChar = false := by
    intro c hc
    rcases List.mem_append.mp hc with hdigit | hc
    · obtain ⟨d, hd, rfl⟩ := List.mem_map.mp hdigit
      rw [Bool.eq_false_iff]
      intro hbreak
      have hblank := isBlank_of_isBreak hbreak
      rw [CodePoint.toChar, Numeral.isBlank_of_digit? (hdigits d hd)] at hblank
      cases hblank
    · exact hline c hc
  have hend' : ∀ c ∈ line.head?, ∃ x, c = .char x ∧ (isGap x = true ∨ x = '#') := by
    intro c hc
    refine hend c ?_
    rw [List.head?_append, hc]
    rfl
  rw [← List.append_assoc, allTokens_line hwhole hrest, allTokens_line hline hrest,
    tokens_word hne hdigits hend']
  rfl

/-- A token is read as a word in whatever line it stands. -/
def Reads (w : Word) (token : Text) : Prop :=
  ∀ line, readToken line token = .ok w

theorem reads_of_figure? {digits : List Char} {w : Word} (hne : digits ≠ [])
    (hdigits : Numeral.figure? 16 digits = some w.toNat) : Reads w (ofChars digits) := by
  intro line
  have hword : 0 ≤ (w.toNat : Int) ∧ (w.toNat : Int) ≤ 65535 := Word.isWord_toNat w
  unfold readToken
  rw [Numeral.read_figures hne hdigits]
  dsimp only
  rw [if_pos hword, Word.ofInt_toNat]

/-- Words in reading order, each with the number of its line. -/
def numbered (first : ℕ) (rows : List (List Text)) : List (Text × ℕ) :=
  (rows.zipIdx first).flatMap fun row => row.1.map fun token => (token, row.2)

theorem ofText_eq (s : Text) : ofText s =
    (numbered 1 ((Text.lines s).map tokens)).mapM fun t => readToken t.2 t.1 := by
  have hrows : ofText s = (((Text.lines s).zipIdx 1).mapM fun line =>
      (tokens line.1).mapM (readToken line.2)).map List.flatten := rfl
  have hflat : numbered 1 ((Text.lines s).map tokens) =
      (((Text.lines s).zipIdx 1).map fun line =>
        (tokens line.1).map fun token => (token, line.2)).flatten := by
    unfold numbered
    rw [List.zipIdx_map, List.flatMap_map, List.flatMap_def]
    rfl
  have hrow : ∀ line : Text × ℕ, (tokens line.1).mapM (readToken line.2) =
      ((tokens line.1).map fun token => (token, line.2)).mapM fun t => readToken t.2 t.1 := by
    intro line
    rw [List.mapM_map]
    rfl
  rw [hrows, hflat, mapM_flatten, List.mapM_map]
  simp only [hrow]
  rfl

/-- What is wrong with a text is wrong with one of its words. -/
theorem exists_of_ofText_eq_error {s : Text} {e : ImageError} (h : ofText s = .error e) :
    ∃ token line, e = .badWord token line ∨ e = .wideWord token line := by
  rw [ofText_eq] at h
  obtain ⟨t, -, ht⟩ := exists_of_mapM_eq_error h
  refine ⟨t.1, t.2, ?_⟩
  unfold readToken at ht
  split at ht
  · exact .inl (Except.error.inj ht).symm
  · split at ht
    · cases ht
    · exact .inr (Except.error.inj ht).symm

theorem map_fst_numbered (first : ℕ) (rows : List (List Text)) :
    (numbered first rows).map Prod.fst = rows.flatten := by
  have hrow : ∀ row : List Text × ℕ,
      (row.1.map fun token => (token, row.2)).map Prod.fst = row.1 := by
    intro row
    rw [List.map_map]
    exact List.map_id row.1
  unfold numbered
  rw [List.map_flatMap]
  simp only [hrow]
  rw [List.flatMap_def, List.zipIdx_map_fst]

theorem ofText_of_reads {s : Text} {ws : List Word} (h : List.Forall₂ Reads ws (allTokens s)) :
    ofText s = .ok ws := by
  have hall : allTokens s = (numbered 1 ((Text.lines s).map tokens)).map Prod.fst :=
    (map_fst_numbered 1 _).symm
  rw [hall, List.forall₂_map_right_iff] at h
  rw [ofText_eq, mapM_eq_ok_iff]
  exact (h.imp fun _ t hread => hread t.2).flip

theorem exists_of_mem_head?_ofChars {s : List Char} {c : CodePoint} (h : c ∈ (ofChars s).head?) :
    ∃ x ∈ s.head?, c = .char x := by
  cases s with
  | nil => cases h
  | cons x s => exact ⟨x, rfl, (Option.some.inj h).symm⟩

theorem Spells.reads {s : List Char} {ws : List Word} (h : Spells s ws) :
    List.Forall₂ Reads ws (allTokens (ofChars s)) := by
  induction h with
  | done => exact .nil
  | @gap c rest ws hgap _ ih =>
    change List.Forall₂ Reads ws (allTokens (.char c :: ofChars rest))
    rwa [allTokens_gap hgap]
  | @remark remark rest ws hremark hend _ ih =>
    have hbefore : ∀ c ∈ ofChars remark, isBreak c.toChar = false := by
      intro c hc
      obtain ⟨x, hx, rfl⟩ := List.mem_map.mp hc
      exact hremark x hx
    have hbehind : ∀ c ∈ (ofChars rest).head?, isBreak c.toChar = true := by
      intro c hc
      obtain ⟨x, hx, rfl⟩ := exists_of_mem_head?_ofChars hc
      exact hend x hx
    unfold ofChars at hbefore hbehind ih ⊢
    rw [List.map_append, List.map_cons, allTokens_remark hbefore hbehind]
    exact ih
  | @word digits rest w ws hlength hdigits hend _ ih =>
    have hne : digits ≠ [] := List.ne_nil_of_length_pos hlength.1
    have hbehind : ∀ c ∈ (ofChars rest).head?, ∃ x, c = .char x ∧ (isGap x = true ∨ x = '#') := by
      intro c hc
      obtain ⟨x, hx, rfl⟩ := exists_of_mem_head?_ofChars hc
      exact ⟨x, rfl, hend x hx⟩
    have hsplit : ofChars (digits ++ rest) = ofChars digits ++ ofChars rest := List.map_append
    rw [hsplit, allTokens_word hne (Numeral.foldlM_digit? hdigits).1 hbehind]
    exact .cons (reads_of_figure? hne hdigits) ih

theorem Spells.ofText {s : String} {ws : List Word} (h : Spells s.toList ws) :
    Image.ofText s = .ok ws :=
  ofText_of_reads h.reads

end Image

end WordMachine
