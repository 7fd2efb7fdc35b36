import WordMachine.Proofs.Tokens

/-!
Texts of images one below the other. The text below is read as if it stood alone, but for the
numbers of its lines, which count on from the lines above. What is put behind a number sign at the
end of a line is not read.
-/
namespace WordMachine

/-- The error for a word that stands further down by a number of lines. -/
def ImageError.lower (d : ℕ) : ImageError → ImageError
  | .badWord token line => .badWord token (d + line)
  | .wideWord token line => .wideWord token (d + line)
  | e => e

namespace Text

theorem linesFrom_line_feed (done : List Text) (current s : Text) :
    linesFrom done current (s ++ [.char '\n']) = linesFrom done current s ∨
      linesFrom done current (s ++ [.char '\n']) = linesFrom done current s ++ [[]] := by
  fun_induction linesFrom done current s with
  | case1 done current =>
    by_cases hempty : current = []
    · right
      subst hempty
      simp [linesFrom, CodePoint.toChar, isBreak]
    · left
      simp [linesFrom, CodePoint.toChar, isBreak, hempty]
  | case2 done current rest ih => exact ih
  | case3 done current c rest hpair hbreak ih =>
    by_cases hreturn : c = .char '\r' ∧ rest = []
    · -- the line feed belongs to the break
      obtain ⟨rfl, rfl⟩ := hreturn
      exact .inl rfl
    · rw [linesFrom_cons_append hpair (fun hrest hc => absurd ⟨hc, hrest⟩ hreturn), if_pos hbreak]
      exact ih
  | case4 done current c rest hpair hbreak ih =>
    have hother : c ≠ .char '\r' := by
      rintro rfl
      exact absurd (by decide) hbreak
    rw [linesFrom_cons_append hpair (fun _ hc => absurd hc hother), if_neg hbreak]
    exact ih

theorem lines_line_feed (s : Text) :
    lines (s ++ [.char '\n']) = lines s ∨ lines (s ++ [.char '\n']) = lines s ++ [[]] :=
  linesFrom_line_feed [] [] s

theorem lines_below (s t : Text) :
    lines (s ++ .char '\n' :: t) = lines (s ++ [.char '\n']) ++ lines t := by
  have hsplit : s ++ .char '\n' :: t = (s ++ [.char '\n']) ++ t := by simp
  rw [hsplit, lines_append (by simp)]

/-- Behind a text that does not end within a break its last line goes on. -/
theorem exists_linesFrom_open {s : Text} (hs : s.getLast? ≠ some (.char '\r')) (done : List Text)
    (current : Text) : ∃ before last, ∀ rest,
      linesFrom done current (s ++ rest) = linesFrom before last rest := by
  have htail : ∀ {c : CodePoint} {rest : Text}, (c :: rest).getLast? ≠ some (.char '\r') →
      rest.getLast? ≠ some (.char '\r') := by
    intro c rest h
    cases rest with
    | nil => simp
    | cons d rest => rwa [List.getLast?_cons_cons] at h
  fun_induction linesFrom done current s with
  | case1 done current => exact ⟨done, current, fun _ => rfl⟩
  | case2 done current rest ih => exact ih (htail (htail hs))
  | case3 done current c rest hpair hbreak ih =>
    obtain ⟨before, last, hopen⟩ := ih (htail hs)
    refine ⟨before, last, fun more => ?_⟩
    have hwhole : rest = [] → c ≠ .char '\r' := by
      rintro rfl rfl
      exact hs rfl
    rw [linesFrom_cons_append hpair (fun hrest hc => absurd hc (hwhole hrest)), if_pos hbreak,
      hopen]
  | case4 done current c rest hpair hbreak ih =>
    obtain ⟨before, last, hopen⟩ := ih (htail hs)
    refine ⟨before, last, fun more => ?_⟩
    have hother : c ≠ .char '\r' := by
      rintro rfl
      exact absurd (by decide) hbreak
    rw [linesFrom_cons_append hpair (fun _ hc => absurd hc hother), if_neg hbreak, hopen]

theorem exists_last_line {s : Text} (hs : s.getLast? ≠ some (.char '\r')) : ∃ before last,
    ∀ line, (∀ c ∈ line, isBreak c.toChar = false) →
      lines (s ++ line ++ [.char '\n']) = before ++ [last ++ line] := by
  obtain ⟨before, last, hopen⟩ := exists_linesFrom_open hs [] []
  refine ⟨before.reverse, last.reverse, fun line hline => ?_⟩
  unfold lines
  rw [List.append_assoc, hopen, linesFrom_line hline]
  simp [linesFrom, CodePoint.toChar, isBreak]

end Text

namespace Image

theorem numbered_append (first : ℕ) (rows more : List (List Text)) :
    numbered first (rows ++ more) = numbered first rows ++ numbered (first + rows.length) more := by
  unfold numbered
  rw [List.zipIdx_append, List.flatMap_append]

theorem numbered_lower (d first : ℕ) (rows : List (List Text)) :
    numbered (d + first) rows = (numbered first rows).map fun t => (t.1, d + t.2) := by
  induction rows generalizing first with
  | nil => rfl
  | cons row rows ih =>
    have hcons : ∀ n, numbered n (row :: rows) =
        (row.map fun token => (token, n)) ++ numbered (n + 1) rows := fun _ => rfl
    rw [hcons, hcons, Nat.add_assoc, ih, List.map_append, List.map_map]
    rfl

theorem readToken_lower (d line : ℕ) (token : Text) :
    readToken (d + line) token = (readToken line token).mapError (ImageError.lower d) := by
  unfold readToken
  cases Numeral.read .hexadecimal token with
  | error e => rfl
  | ok n =>
    dsimp only
    split <;> rfl

theorem ofText_line_feed (s : Text) : ofText (s ++ [.char '\n']) = ofText s := by
  rw [ofText_eq, ofText_eq]
  rcases Text.lines_line_feed s with hsame | hempty
  · rw [hsame]
  · have hnothing : tokens [] = [] := rfl
    have hnone : ∀ first, numbered first [[]] = [] := fun _ => rfl
    rw [hempty, List.map_append, numbered_append, List.map_singleton, hnothing, hnone,
      List.append_nil]

theorem ofText_below (s t : Text) : ofText (s ++ .char '\n' :: t) =
    ofText s >>= fun ws =>
      ((ofText t).mapError (.lower (Text.lines (s ++ [.char '\n'])).length)).map (ws ++ ·) := by
  let d := (Text.lines (s ++ [.char '\n'])).length
  have hbelow : ((numbered (1 + d) ((Text.lines t).map tokens)).mapM fun t => readToken t.2 t.1) =
      (ofText t).mapError (ImageError.lower d) := by
    rw [Nat.add_comm, numbered_lower, List.mapM_map, ofText_eq, ← mapM_mapError]
    congr 1
    funext t
    exact readToken_lower d t.2 t.1
  have hlength : ((Text.lines (s ++ [.char '\n'])).map tokens).length = d := List.length_map _
  rw [ofText_eq, Text.lines_below, List.map_append, numbered_append, List.mapM_append, hlength,
    hbelow, ← ofText_eq, ofText_line_feed]
  rfl

/-- Behind a line that is read, a remark is not. -/
theorem tokens_append_remark (line remark : Text) :
    tokens (line ++ .char '#' :: remark) = tokens line := by
  have htake : (line ++ .char '#' :: remark).takeWhile (· ≠ .char '#') =
      line.takeWhile (· ≠ .char '#') := by
    induction line with
    | nil => rfl
    | cons c line ih => rw [List.cons_append, List.takeWhile_cons, List.takeWhile_cons, ih]
  rw [tokens_eq, tokens_eq, htake]

theorem ofText_remark {s remark : Text} (hs : s.getLast? ≠ some (.char '\r'))
    (hremark : ∀ c ∈ remark, [c] ∉ Text.breakTexts) (t : Text) :
    ofText (s ++ .char '#' :: (remark ++ .char '\n' :: t)) = ofText (s ++ .char '\n' :: t) := by
  obtain ⟨before, last, hlines⟩ := Text.exists_last_line hs
  have hline : ∀ c ∈ .char '#' :: remark, Text.isBreak (CodePoint.toChar c) = false :=
    List.forall_mem_cons.mpr
      ⟨by decide, fun c hc => Text.not_mem_breakTexts_iff.mp (hremark c hc)⟩
  have hplain : Text.lines (s ++ [.char '\n']) = before ++ [last] := by
    simpa using hlines [] (by simp)
  have hremarked : Text.lines ((s ++ .char '#' :: remark) ++ [.char '\n']) =
      before ++ [last ++ .char '#' :: remark] := hlines _ hline
  have hsplit : s ++ .char '#' :: (remark ++ .char '\n' :: t) =
      (s ++ .char '#' :: remark) ++ .char '\n' :: t := by simp
  rw [ofText_eq, ofText_eq, hsplit, Text.lines_below, Text.lines_below s, hplain, hremarked]
  simp only [List.map_append, List.map_cons, List.map_nil, tokens_append_remark]

/-- A text below another. What is wrong with the text above is reported as it is, and what is wrong
with the text below with the number of its line counted on. If nothing is wrong, the words above
stand before those below. A remark at the end of the text above changes nothing. -/
theorem ofText_joins (s t : Text) :
    let d := (Text.lines (s ++ [.char '\n'])).length
    (∀ e, ofText s = .error e → ofText (s ++ .char '\n' :: t) = .error e) ∧
      (∀ ws vs, ofText s = .ok ws → ofText t = .ok vs →
        ofText (s ++ .char '\n' :: t) = .ok (ws ++ vs)) ∧
      (∀ ws e, ofText s = .ok ws → ofText t = .error e →
        ∃ wrong ∈ [ImageError.badWord, ImageError.wideWord], ∃ token k, e = wrong token k ∧
          ofText (s ++ .char '\n' :: t) = .error (wrong token (d + k))) ∧
      ∀ remark, (∀ c ∈ remark, [c] ∉ Text.breakTexts) → s.getLast? ≠ some (.char '\r') →
        ofText (s ++ .char '#' :: (remark ++ .char '\n' :: t)) = ofText (s ++ .char '\n' :: t) := by
  intro d
  refine ⟨?_, ?_, ?_, fun _ hremark hs => ofText_remark hs hremark t⟩
  · intro e he
    rw [ofText_below, he]
    rfl
  · intro ws vs hws hvs
    rw [ofText_below, hws, hvs]
    rfl
  · intro ws e hws he
    have hjoined : ofText (s ++ .char '\n' :: t) = .error (e.lower d) := by
      rw [ofText_below, hws, he]
      rfl
    obtain ⟨token, k, rfl | rfl⟩ := exists_of_ofText_eq_error he
    · exact ⟨.badWord, by simp, token, k, rfl, hjoined⟩
    · exact ⟨.wideWord, by simp, token, k, rfl, hjoined⟩

/-- Two lines, the first of which is broken by a carriage return and the line feed behind it. -/
theorem ofText_two_lines :
    let above : Text := ("7, # x\r" : String)
    let below : Text := ("0x8" : String)
    let remark : Text := ("zz" : String)
    ofText above = .ok [7] ∧ ofText below = .ok [8] ∧
      ofText (above ++ .char '\n' :: below) = .ok ([7] ++ [8]) ∧
      ofText (below ++ .char '#' :: (remark ++ .char '\n' :: above)) =
        ofText (below ++ .char '\n' :: above) := by
  intro above below remark
  have habove : ofText above = .ok [7] := by decide
  have hbelow : ofText below = .ok [8] := by decide
  exact ⟨habove, hbelow, (ofText_joins above below).2.1 _ _ habove hbelow,
    (ofText_joins below above).2.2.2 remark (by decide) (by decide)⟩

end Image

end WordMachine
