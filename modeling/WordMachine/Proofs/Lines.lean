import WordMachine.Proofs.Mnemonic
import WordMachine.Text.Lines
import WordMachine.Text.Quoted

/-!
Text in one line. Names, numbers and whatever is in quotes have no break of a line in them, and
lines that are written one below the other are the lines of the text.
-/
namespace WordMachine.Text

def OneLine (s : String) : Prop :=
  ∀ c ∈ s.toList, isBreak c = false

instance (s : String) : Decidable (OneLine s) :=
  List.decidableBAll _ s.toList

theorem oneLine_append {s t : String} (hs : OneLine s) (ht : OneLine t) : OneLine (s ++ t) := by
  intro c hc
  rw [String.toList_append, List.mem_append] at hc
  exact hc.elim (hs c) (ht c)

def breaks : List ℕ :=
  [0x0A, 0x0B, 0x0C, 0x0D, 0x1C, 0x1D, 0x1E, 0x85, 0x2028, 0x2029]

theorem isBreak_iff (c : Char) : isBreak c = true ↔ c.toNat ∈ breaks := by
  unfold isBreak breaks
  simp only [Bool.or_eq_true, Bool.and_eq_true, decide_eq_true_iff, beq_iff_eq, List.mem_cons,
    List.not_mem_nil, or_false]
  omega

theorem isBreak_of_forall {p : Char → Bool} (hp : ∀ n ∈ breaks, p (Char.ofNat n) = false) {c : Char}
    (h : p c = true) : isBreak c = false := by
  rw [Bool.eq_false_iff]
  intro hbreak
  have hnot := hp _ ((isBreak_iff c).mp hbreak)
  rw [Char.ofNat_toNat, h] at hnot
  cases hnot

theorem isBreak_of_isPlain {c : Char} (h : isPlain c = true) : isBreak c = false :=
  isBreak_of_forall (by decide) h

theorem OneLine.of_plain {s : String} (h : Plain s) : OneLine s :=
  fun c hc => isBreak_of_isPlain (h c hc)

/-- No break is printable, as a search through the runs in a list shows. -/
theorem isPrintable_breaks : ∀ n ∈ breaks, isPrintable (Char.ofNat n) = false := by
  simp only [isPrintable, ← Array.any_toList]
  decide +kernel

theorem mem_hexEscape {mark c : Char} {width n : ℕ} (hmark : isPlain mark = true)
    (h : c ∈ hexEscape mark width n) : c = '\\' ∨ isPlain c = true := by
  have hdigit : ∀ d < 16, isPlain (Nat.digitChar d) = true := by decide
  have hzero : isPlain '0' = true := by decide
  unfold hexEscape at h
  rcases List.mem_cons.mp h with rfl | h
  · exact .inl rfl
  · right
    rcases List.mem_cons.mp h with rfl | h
    · exact hmark
    · rcases List.mem_append.mp h with hpad | hfigure
      · rwa [List.eq_of_mem_replicate hpad]
      · obtain ⟨d, hd, rfl⟩ := Numeral.exists_digitChar_of_mem_toDigits (by decide) hfigure
        exact hdigit d hd

theorem mem_escapeChar {quote x c : Char} (h : c ∈ escapeChar quote x) :
    c = '\\' ∨ isPlain c = true ∨ c = x ∧ (x = quote ∨ isPrintable x = true) := by
  have hmark : ∀ y, isPlain y = true → c ∈ ['\\', y] → c = '\\' ∨ isPlain c = true := by
    intro y hy hc
    rcases List.mem_cons.mp hc with hslash | hc
    · exact .inl hslash
    · rw [List.mem_singleton.mp hc]
      exact .inr hy
  unfold escapeChar at h
  rw [← or_assoc]
  split at h
  · next hescaped =>
    rcases List.mem_cons.mp h with hslash | h
    · exact .inl (.inl hslash)
    · obtain rfl := List.mem_singleton.mp h
      rcases hescaped with hquote | hslash
      · exact .inr ⟨rfl, .inl hquote⟩
      · exact .inl (.inl hslash)
  · split at h
    · exact .inl (hmark 't' (by decide) h)
    · split at h
      · exact .inl (hmark 'n' (by decide) h)
      · split at h
        · exact .inl (hmark 'r' (by decide) h)
        · split at h
          · next hshown => exact .inr ⟨List.mem_singleton.mp h, .inr hshown⟩
          · split at h
            · exact .inl (mem_hexEscape (by decide) h)
            · split at h
              · exact .inl (mem_hexEscape (by decide) h)
              · exact .inl (mem_hexEscape (by decide) h)

/-- Besides quotes and escapes there are characters of the text between the quotes. -/
theorem mem_quotedChars {s : Text} {c : Char} (h : c ∈ quotedChars s) :
    c = '\'' ∨ c = '"' ∨ c = '\\' ∨ isPlain c = true ∨ .char c ∈ s ∧ isPrintable c = true := by
  have hquote : ∀ x, x = quoteFor s → x = '\'' ∨ x = '"' := by
    rintro x rfl
    unfold quoteFor
    split
    · exact .inr rfl
    · exact .inl rfl
  rw [← or_assoc]
  unfold quotedChars at h
  rcases List.mem_cons.mp h with hopen | h
  · exact .inl (hquote c hopen)
  · rcases List.mem_append.mp h with h | hclose
    · obtain ⟨p, hp, hc⟩ := List.mem_flatMap.mp h
      cases p with
      | char x =>
        rcases mem_escapeChar hc with hslash | hplain | ⟨rfl, hx | hx⟩
        · exact .inr (.inl hslash)
        · exact .inr (.inr (.inl hplain))
        · exact .inl (hquote c hx)
        · exact .inr (.inr (.inr ⟨hp, hx⟩))
      | surrogate index =>
        rcases mem_hexEscape (by decide) hc with hslash | hplain
        · exact .inr (.inl hslash)
        · exact .inr (.inr (.inl hplain))
    · exact .inl (hquote c (List.mem_singleton.mp hclose))

theorem oneLine_quoted (s : Text) : OneLine (quoted s) := by
  unfold OneLine quoted
  rw [String.toList_ofList]
  intro c hc
  rcases mem_quotedChars hc with rfl | rfl | rfl | hplain | ⟨-, hshown⟩
  · decide
  · decide
  · decide
  · exact isBreak_of_isPlain hplain
  · exact isBreak_of_forall isPrintable_breaks hshown

theorem linesFrom_append (done before : List Text) (current s : Text) :
    linesFrom (done ++ before) current s = before.reverse ++ linesFrom done current s := by
  fun_induction linesFrom done current s with
  | case1 done current =>
    unfold linesFrom
    split <;> simp
  | case2 done current rest ih =>
    rw [linesFrom]
    exact ih
  | case3 done current c rest hpair hbreak ih =>
    rw [linesFrom, if_pos hbreak]
    · exact ih
    · exact hpair
  | case4 done current c rest hpair hbreak ih =>
    rw [linesFrom, if_neg hbreak]
    · exact ih
    · exact hpair

theorem linesFrom_eq (done : List Text) (s : Text) :
    linesFrom done [] s = done.reverse ++ lines s :=
  linesFrom_append [] done [] s

theorem linesFrom_cons {c : CodePoint} {rest : Text}
    (hpair : ∀ more, c = .char '\r' → rest = .char '\n' :: more → False) (done : List Text)
    (current : Text) :
    linesFrom done current (c :: rest) =
      if isBreak c.toChar then linesFrom (current.reverse :: done) [] rest
      else linesFrom done (c :: current) rest := by
  rw [linesFrom]
  exact hpair

/-- A character is read the same in front of more text, unless it is a carriage return that is torn
from its line feed. -/
theorem linesFrom_cons_append {c : CodePoint} {rest : Text}
    (hpair : ∀ more, c = .char '\r' → rest = .char '\n' :: more → False) {behind : Text}
    (hend : rest = [] → c = .char '\r' → behind.head? ≠ some (.char '\n')) (done : List Text)
    (current : Text) :
    linesFrom done current (c :: rest ++ behind) =
      if isBreak c.toChar then linesFrom (current.reverse :: done) [] (rest ++ behind)
      else linesFrom done (c :: current) (rest ++ behind) := by
  refine linesFrom_cons ?_ done current
  intro more hc hmore
  cases rest with
  | nil =>
    have hfeed : behind = .char '\n' :: more := hmore
    exact hend rfl hc (congrArg List.head? hfeed)
  | cons d rest =>
    obtain ⟨rfl, -⟩ := List.cons.inj hmore
    exact hpair rest hc rfl

theorem linesFrom_line {line : Text} (hline : ∀ c ∈ line, isBreak c.toChar = false)
    (done : List Text) (current rest : Text) :
    linesFrom done current (line ++ rest) = linesFrom done (line.reverse ++ current) rest := by
  induction line generalizing current with
  | nil => rfl
  | cons c line ih =>
    obtain ⟨hc, hline⟩ := List.forall_mem_cons.mp hline
    have hreturn : ∀ more, c = .char '\r' → line ++ rest = .char '\n' :: more → False := by
      rintro more rfl
      cases hc
    rw [List.cons_append, linesFrom_cons hreturn, hc, if_neg Bool.false_ne_true, ih hline,
      List.reverse_cons, List.append_assoc]
    rfl

/-- Behind a break a line is done. A line feed behind a carriage return belongs to it. -/
theorem exists_linesFrom_break {c : CodePoint} (hc : isBreak c.toChar = true) (rest : Text) :
    ∃ next, (next = rest ∨ rest = .char '\n' :: next) ∧ ∀ done current,
      linesFrom done current (c :: rest) = linesFrom (current.reverse :: done) [] next := by
  by_cases hpair : c = .char '\r' ∧ ∃ next, rest = .char '\n' :: next
  · obtain ⟨rfl, next, rfl⟩ := hpair
    exact ⟨next, .inr rfl, fun _ _ => rfl⟩
  · refine ⟨rest, .inl rfl, fun done current => ?_⟩
    rw [linesFrom_cons (fun more hreturn hfeed => hpair ⟨hreturn, more, hfeed⟩), if_pos hc]

theorem lines_append {s : Text} (hfeed : s.getLast? = some (.char '\n')) (rest : Text) :
    lines (s ++ rest) = lines s ++ lines rest := by
  have hafresh : ∀ done : List Text,
      linesFrom done [] rest = linesFrom done [] [] ++ lines rest := by
    intro done
    rw [linesFrom_eq, linesFrom_eq done []]
    simp [lines, linesFrom]
  have hlast : ∀ {c : CodePoint} {more : List CodePoint}, more ≠ [] →
      (c :: more).getLast? = some (.char '\n') → more.getLast? = some (.char '\n') := by
    intro c more hne h
    obtain ⟨d, later, rfl⟩ := List.exists_cons_of_ne_nil hne
    rwa [List.getLast?_cons_cons] at h
  have hfrom : ∀ done current, linesFrom done current (s ++ rest) =
      linesFrom done current s ++ lines rest := by
    intro done current
    fun_induction linesFrom done current s with
    | case1 done current => cases hfeed
    | case2 done current more ih =>
      rw [List.cons_append, List.cons_append, linesFrom]
      by_cases hend : more = []
      · rw [hend]
        exact hafresh _
      · exact ih (hlast hend (hlast (by simp) hfeed))
    | case3 done current c more hpair hbreak ih =>
      by_cases hend : more = []
      · subst hend
        obtain rfl : c = .char '\n' := by simpa using hfeed
        exact hafresh _
      · rw [linesFrom_cons_append hpair (fun hnone => absurd hnone hend), if_pos hbreak]
        exact ih (hlast hend hfeed)
    | case4 done current c more hpair hbreak ih =>
      by_cases hend : more = []
      · subst hend
        obtain rfl : c = .char '\n' := by simpa using hfeed
        exact absurd (by decide) hbreak
      · rw [linesFrom_cons_append hpair (fun hnone => absurd hnone hend), if_neg hbreak]
        exact ih (hlast hend hfeed)
  exact hfrom [] []

theorem linesFrom_of_forall {s : Text} (h : ∀ c ∈ s, isBreak c.toChar = false) (current : Text) :
    linesFrom [] current (s ++ [.char '\n']) = [current.reverse ++ s] := by
  rw [linesFrom_line h]
  simp [linesFrom, CodePoint.toChar, isBreak]

theorem lines_join {ls : List String} (h : ∀ l ∈ ls, OneLine l) :
    lines (String.join (ls.map (· ++ "\n")) : String) = ls.map ofString := by
  induction ls with
  | nil => rfl
  | cons l rest ih =>
    obtain ⟨hl, hrest⟩ := List.forall_mem_cons.mp h
    have hline : ∀ c ∈ ofString l, isBreak c.toChar = false := by
      intro c hc
      obtain ⟨x, hx, rfl⟩ := List.mem_map.mp hc
      exact hl x hx
    have hsplit : ofString (String.join ((l :: rest).map (· ++ "\n"))) =
        (ofString l ++ [.char '\n']) ++ ofString (String.join (rest.map (· ++ "\n"))) := by
      rw [List.map_cons, String.join_cons, ofString_append, ofString_append]
      rfl
    have hfirst : lines (ofString l ++ [.char '\n']) = [ofString l] :=
      linesFrom_of_forall hline []
    rw [hsplit, lines_append (by simp), hfirst, ih hrest]
    rfl

theorem unifyBreaksFrom_append (done before s : List Char) :
    unifyBreaksFrom (done ++ before) s = before.reverse ++ unifyBreaksFrom done s := by
  fun_induction unifyBreaksFrom done s with
  | case1 done => rw [unifyBreaksFrom, List.reverse_append]
  | case2 done rest ih =>
    rw [unifyBreaksFrom]
    exact ih
  | case3 done c rest hpair ih =>
    rw [unifyBreaksFrom]
    · exact ih
    · exact hpair

theorem unifyBreaksFrom_cons (c : Char) (s : List Char) :
    unifyBreaksFrom [c] s = c :: unifyBreaksFrom [] s :=
  unifyBreaksFrom_append [] [c] s

theorem linesFrom_unifyBreaks (read s : List Char) (done : List Text) (current : Text) :
    linesFrom done current (ofChars (unifyBreaksFrom [] s)) =
      linesFrom done current (ofChars s) := by
  induction read, s using unifyBreaksFrom.induct generalizing done current with
  | case1 _ => rfl
  | case2 _ rest ih =>
    rw [unifyBreaksFrom, unifyBreaksFrom_cons]
    exact ih (current.reverse :: done) []
  | case3 _ c rest hpair ih =>
    have hsource : linesFrom done current (ofChars (c :: rest)) =
        if isBreak c then linesFrom (current.reverse :: done) [] (ofChars rest)
        else linesFrom done (.char c :: current) (ofChars rest) := by
      refine linesFrom_cons (fun more hc hmore => ?_) done current
      obtain ⟨d, later, rfl, hd, -⟩ := List.map_eq_cons_iff.mp hmore
      exact hpair later (CodePoint.char.inj hc) (by rw [CodePoint.char.inj hd])
    rw [unifyBreaksFrom, unifyBreaksFrom_cons, hsource]
    · by_cases hreturn : c = '\r'
      · subst hreturn
        exact ih (current.reverse :: done) []
      · rw [if_neg hreturn, ← ih, ← ih]
        exact linesFrom_cons (fun _ h => absurd (CodePoint.char.inj h) hreturn) done current
    · exact hpair

/-- The lines of a text do not depend on how it breaks them. -/
theorem lines_unifyBreaks (s : String) : lines (unifyBreaks s : String) = lines s := by
  unfold lines unifyBreaks ofString
  rw [String.toList_ofList]
  exact linesFrom_unifyBreaks [] s.toList [] []

theorem hasPart_iff (part s : Text) : hasPart part s = true ↔ part <:+: s := by
  induction s with
  | nil => simp [hasPart]
  | cons c rest ih =>
    rw [hasPart, Bool.or_eq_true, List.isPrefixOf_iff_prefix, ih, List.infix_cons_iff]

end WordMachine.Text
