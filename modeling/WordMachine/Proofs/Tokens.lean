import WordMachine.Proofs.Spelling

/-!
How an image is read from text. The text is broken into lines, of each line the words in front of a
remark are taken, and every word is read as the number that it denotes. The first word, in reading
order, that denotes none, or one that is too wide, is reported with the number of its line.
-/
namespace WordMachine

namespace Text

/-- What breaks a line: a single character, or a carriage return and a line feed together. -/
def breakTexts : List Text :=
  [.char '\r', .char '\n'] :: breaks.map fun n => [.char (Char.ofNat n)]

/-- A text and its lines. Behind the last break there is a line only if there are characters, and no
break ends between a carriage return and a line feed. -/
inductive Broken : Text → List Text → Prop
  | nothing : Broken [] []
  | rest {line : Text} (hne : line ≠ []) (hline : ∀ c ∈ line, [c] ∉ breakTexts) :
      Broken line [line]
  | line {line br behind : Text} {ls : List Text} (hline : ∀ c ∈ line, [c] ∉ breakTexts)
      (hbreak : br ∈ breakTexts)
      (hpair : br = [.char '\r'] → behind.head? ≠ some (.char '\n')) (h : Broken behind ls) :
      Broken (line ++ br ++ behind) (line :: ls)

/-- A text and its words, the longest parts without blanks. -/
inductive Separated : Text → List Text → Prop
  | nothing : Separated [] []
  | blank {c : CodePoint} {behind : Text} {ws : List Text} (hc : isBlank c.toChar = true)
      (h : Separated behind ws) : Separated (c :: behind) ws
  | word {w behind : Text} {ws : List Text} (hne : w ≠ [])
      (hw : ∀ c ∈ w, isBlank c.toChar = false)
      (hbehind : ∀ c ∈ behind.head?, isBlank c.toChar = true) (h : Separated behind ws) :
      Separated (w ++ behind) (w :: ws)

theorem mem_breakTexts_iff {c : CodePoint} : [c] ∈ breakTexts ↔ isBreak c.toChar = true := by
  unfold breakTexts
  rw [isBreak_iff, List.mem_cons]
  constructor
  · rintro (hpair | hsingle)
    · cases hpair
    · obtain ⟨n, hn, hc⟩ := List.mem_map.mp hsingle
      obtain rfl := List.singleton_inj.mp hc
      have hsmall : ∀ n ∈ breaks, (Char.ofNat n).toNat = n := by decide
      change (Char.ofNat n).toNat ∈ breaks
      rwa [hsmall n hn]
  · intro hmem
    refine .inr (List.mem_map.mpr ⟨c.toChar.toNat, hmem, ?_⟩)
    rw [Char.ofNat_toNat]
    cases c with
    | char x => rfl
    | surrogate index =>
      have hreplaced : (Char.ofNat 0xFFFD).toNat ∉ breaks := by decide
      exact absurd hmem hreplaced

theorem not_mem_breakTexts_iff {c : CodePoint} : [c] ∉ breakTexts ↔ isBreak c.toChar = false := by
  rw [mem_breakTexts_iff, Bool.not_eq_true]

theorem Broken.lines_eq {s : Text} {ls : List Text} (h : Broken s ls) : lines s = ls := by
  induction h with
  | nothing => rfl
  | @rest line hne hline =>
    have hplain : ∀ c ∈ line, isBreak c.toChar = false :=
      fun c hc => not_mem_breakTexts_iff.mp (hline c hc)
    unfold lines
    rw [← List.append_nil line, linesFrom_line hplain]
    simp [linesFrom, hne]
  | @line line br behind ls hline hbreak hpair _ ih =>
    have hplain : ∀ c ∈ line, isBreak c.toChar = false :=
      fun c hc => not_mem_breakTexts_iff.mp (hline c hc)
    have hbroken : linesFrom [] line.reverse (br ++ behind) = line :: lines behind := by
      rcases List.mem_cons.mp hbreak with rfl | hsingle
      · have hpassed : linesFrom [] line.reverse (.char '\r' :: .char '\n' :: behind) =
            linesFrom [line.reverse.reverse] [] behind := rfl
        rw [List.cons_append, List.cons_append, List.nil_append, hpassed, linesFrom_eq,
          List.reverse_reverse]
        rfl
      · obtain ⟨n, -, rfl⟩ := List.mem_map.mp hsingle
        have hc : isBreak (CodePoint.char (Char.ofNat n)).toChar = true :=
          mem_breakTexts_iff.mp hbreak
        have hapart : ∀ more, CodePoint.char (Char.ofNat n) = .char '\r' →
            behind = .char '\n' :: more → False := by
          rintro more hreturn rfl
          exact hpair (congrArg (fun c => [c]) hreturn) rfl
        rw [List.cons_append, List.nil_append, linesFrom_cons hapart, if_pos hc, linesFrom_eq,
          List.reverse_reverse]
        rfl
    unfold lines
    rw [List.append_assoc, linesFrom_line hplain, List.append_nil, hbroken, ih]

theorem exists_broken (s : Text) : ∃ ls, Broken s ls := by
  induction hlength : s.length using Nat.strong_induction_on generalizing s with
  | _ n ih =>
    obtain ⟨line, behind, rfl, hline, hbehind⟩ := Image.exists_line s
    have hplain : ∀ c ∈ line, [c] ∉ breakTexts :=
      fun c hc => not_mem_breakTexts_iff.mpr (hline c hc)
    cases behind with
    | nil =>
      rw [List.append_nil]
      by_cases hempty : line = []
      · subst hempty
        exact ⟨[], .nothing⟩
      · exact ⟨[line], .rest hempty hplain⟩
    | cons c more =>
      have hc : [c] ∈ breakTexts := mem_breakTexts_iff.mpr (hbehind c rfl)
      rw [List.length_append, List.length_cons] at hlength
      by_cases hpair : c = .char '\r' ∧ more.head? = some (.char '\n')
      · obtain ⟨rfl, hfeed⟩ := hpair
        obtain ⟨next, rfl⟩ := List.head?_eq_some_iff.mp hfeed
        rw [List.length_cons] at hlength
        obtain ⟨ls, hls⟩ := ih next.length (by omega) next rfl
        refine ⟨line :: ls, ?_⟩
        have hboth : [.char '\r', .char '\n'] ∈ breakTexts := List.mem_cons_self
        have hwhole := Broken.line hplain hboth (fun hsame => by simp at hsame) hls
        simpa using hwhole
      · obtain ⟨ls, hls⟩ := ih more.length (by omega) more rfl
        refine ⟨line :: ls, ?_⟩
        have hwhole := Broken.line hplain hc
          (fun hreturn hfeed => hpair ⟨List.singleton_inj.mp hreturn, hfeed⟩) hls
        simpa using hwhole

theorem broken_iff {s : Text} {ls : List Text} : Broken s ls ↔ lines s = ls := by
  constructor
  · exact Broken.lines_eq
  · rintro rfl
    obtain ⟨ls, hls⟩ := exists_broken s
    rwa [hls.lines_eq]

theorem Separated.words_eq {s : Text} {ws : List Text} (h : Separated s ws) : words s = ws := by
  induction h with
  | nothing => rfl
  | @blank c behind ws hc _ ih =>
    have hblanks := words_of_blanks (List.forall_mem_singleton.mpr hc) behind
    exact hblanks.trans ih
  | word hne hw hbehind _ ih => rw [words_append hne hw hbehind, ih]

theorem exists_separated (s : Text) : ∃ ws, Separated s ws := by
  induction hlength : s.length using Nat.strong_induction_on generalizing s with
  | _ n ih =>
    cases s with
    | nil => exact ⟨[], .nothing⟩
    | cons c rest =>
      rw [List.length_cons] at hlength
      cases hc : isBlank c.toChar with
      | true =>
        obtain ⟨ws, hws⟩ := ih rest.length (by omega) rest rfl
        exact ⟨ws, .blank hc hws⟩
      | false =>
        let word := rest.takeWhile (!isBlank ·.toChar)
        let behind := rest.dropWhile (!isBlank ·.toChar)
        have hsplit : c :: rest = (c :: word) ++ behind :=
          congrArg (c :: ·) List.takeWhile_append_dropWhile.symm
        have hless : behind.length ≤ rest.length := (List.dropWhile_suffix _).length_le
        obtain ⟨ws, hws⟩ := ih behind.length (by omega) behind rfl
        refine ⟨(c :: word) :: ws, ?_⟩
        rw [hsplit]
        refine .word (by simp) (List.forall_mem_cons.mpr ⟨hc, ?_⟩) ?_ hws
        · intro x hx
          simpa using List.mem_takeWhile_imp hx
        · intro x hx
          have hstop := List.head?_dropWhile_not (!isBlank ·.toChar) rest
          rw [hx] at hstop
          simpa using hstop

theorem separated_iff {s : Text} {ws : List Text} : Separated s ws ↔ words s = ws := by
  constructor
  · exact Separated.words_eq
  · rintro rfl
    obtain ⟨ws, hws⟩ := exists_separated s
    rwa [hws.words_eq]

end Text

namespace Image

open Numeral (Denotes)

/-- A line and the words in it that are read: those in front of a remark, with blanks for commas. -/
def HasWords (line : Text) (row : List Text) : Prop :=
  Text.Separated ((line.takeWhile (· ≠ .char '#')).map shown) row

/-- A text and, line by line, the words in it that are read. -/
def HasRows (s : Text) (rows : List (List Text)) : Prop :=
  ∃ ls, Text.Broken s ls ∧ List.Forall₂ HasWords ls rows

/-- What is wrong with a word, and how it is put. -/
inductive Offends (token : Text) (line : ℕ) : ImageError → String → Prop
  | bad (h : ∀ n, ¬ Denotes token n) :
      Offends token line (.badWord token line)
        ("Bad hex word " ++ Text.quoted token ++ " on line " ++ Numeral.decimal line)
  | wide {n : Int} (h : Denotes token n) (hwide : ¬ IsWord n) :
      Offends token line (.wideWord token line)
        ("Word " ++ Text.quoted token ++ " on line " ++ Numeral.decimal line
          ++ " is not a 16-bit value")

theorem hasWords_iff {line : Text} {row : List Text} : HasWords line row ↔ tokens line = row := by
  rw [tokens_eq]
  exact Text.separated_iff

theorem hasRows_iff {s : Text} {rows : List (List Text)} :
    HasRows s rows ↔ (Text.lines s).map tokens = rows := by
  have hrows : ∀ ls : List Text, List.Forall₂ HasWords ls rows ↔ ls.map tokens = rows := by
    intro ls
    rw [← List.forall₂_eq_eq_eq, List.forall₂_map_left_iff]
    constructor
    · exact List.Forall₂.imp fun _ _ => hasWords_iff.mp
    · exact List.Forall₂.imp fun _ _ => hasWords_iff.mpr
  constructor
  · rintro ⟨ls, hbroken, hall⟩
    rw [hbroken.lines_eq]
    exact (hrows ls).mp hall
  · intro hsame
    exact ⟨Text.lines s, Text.broken_iff.mpr rfl, (hrows _).mpr hsame⟩

theorem isBlank_of_separated {s : Text} {ws : List Text} (h : Text.Separated s ws) :
    ∀ w ∈ ws, ∀ c ∈ w, Text.isBlank c.toChar = false := by
  induction h with
  | nothing => exact fun _ hw => absurd hw List.not_mem_nil
  | blank _ _ ih => exact ih
  | word _ hw _ _ ih => exact List.forall_mem_cons.mpr ⟨hw, ih⟩

theorem isBlank_of_mem_numbered {ls : List Text} {first : ℕ} {t : Text × ℕ}
    (ht : t ∈ numbered first (ls.map tokens)) : ∀ c ∈ t.1, Text.isBlank c.toChar = false := by
  obtain ⟨row, hrow, hmem⟩ := List.mem_flatMap.mp ht
  obtain ⟨token, htoken, rfl⟩ := List.mem_map.mp hmem
  obtain ⟨line, -, hline⟩ := List.mem_map.mp (List.fst_mem_of_mem_zipIdx hrow)
  exact isBlank_of_separated (hasWords_iff.mpr hline) token htoken

section

variable {t : Text} (ht : ∀ c ∈ t, Text.isBlank c.toChar = false) {line : ℕ}

include ht

theorem readToken_eq_ok_iff {w : Word} : readToken line t = .ok w ↔ Denotes t w.toNat := by
  have hread := fun n => Numeral.read_eq_ok_iff ht (n := n)
  unfold readToken
  constructor
  · intro h
    split at h
    · cases h
    · next n hn =>
      split at h
      · next hword =>
        obtain rfl := Except.ok.inj h
        rw [Word.toNat_ofInt_of_isWord hword]
        exact (hread n).mp hn
      · cases h
  · intro h
    have hword : 0 ≤ (w.toNat : Int) ∧ (w.toNat : Int) ≤ 65535 := Word.isWord_toNat w
    rw [(hread _).mpr h]
    dsimp only
    rw [if_pos hword, Word.ofInt_toNat]

theorem readToken_eq_error_iff {e : ImageError} :
    readToken line t = .error e ↔ Offends t line e e.message := by
  have hread := fun n => Numeral.read_eq_ok_iff ht (n := n)
  unfold readToken
  constructor
  · intro h
    split at h
    · next e' hnone =>
      obtain rfl := Except.error.inj h
      refine .bad fun n hn => ?_
      rw [(hread n).mpr hn] at hnone
      cases hnone
    · next n hn =>
      split at h
      · cases h
      · next hwide =>
        obtain rfl := Except.error.inj h
        exact .wide ((hread n).mp hn) hwide
  · intro h
    generalize e.message = message at h
    cases h with
    | bad h =>
      cases hn : Numeral.read .hexadecimal t with
      | error e' => rfl
      | ok n => exact absurd ((hread n).mp hn) (h n)
    | wide h hwide =>
      rw [(hread _).mpr h]
      exact if_neg hwide

end

theorem exists_readToken_iff {t : Text} (ht : ∀ c ∈ t, Text.isBlank c.toChar = false) {line : ℕ} :
    (∃ w, readToken line t = .ok w) ↔ ∃ n, Denotes t n ∧ IsWord n := by
  constructor
  · rintro ⟨w, hw⟩
    exact ⟨w.toNat, (readToken_eq_ok_iff ht).mp hw, Word.isWord_toNat w⟩
  · rintro ⟨n, hn, hword⟩
    refine ⟨UInt16.ofInt n, (readToken_eq_ok_iff ht).mpr ?_⟩
    rwa [Word.toNat_ofInt_of_isWord hword]

/-- A text is read as the numbers that its words denote, in reading order, if every word denotes one
and none is too wide. Otherwise the first word of which this is not so is reported, with the number
of its line: as bad if it denotes no number, and as too wide if it denotes one that is no word. -/
theorem ofText_reads (s : Text) :
    ∃ rows, HasRows s rows ∧ (∀ rows', HasRows s rows' → rows' = rows) ∧
      (∀ ws, ofText s = .ok ws ↔
        List.Forall₂ (fun t (w : Word) => Denotes t.1 w.toNat ∧ IsWord w.toNat)
          (numbered 1 rows) ws) ∧
      ((∃ ws, ofText s = .ok ws) ↔ ∀ t ∈ numbered 1 rows, ∃ n, Denotes t.1 n ∧ IsWord n) ∧
      ∀ e, ofText s = .error e ↔
        ∃ front token line behind, numbered 1 rows = front ++ (token, line) :: behind ∧
          (∀ t ∈ front, ∃ n, Denotes t.1 n ∧ IsWord n) ∧ Offends token line e e.message := by
  have hsolid : ∀ t ∈ numbered 1 ((Text.lines s).map tokens), ∀ c ∈ t.1,
      Text.isBlank c.toChar = false := fun _ ht => isBlank_of_mem_numbered ht
  refine ⟨(Text.lines s).map tokens, hasRows_iff.mpr rfl, fun _ h => (hasRows_iff.mp h).symm,
    ?_, ?_, ?_⟩
  · intro ws
    rw [ofText_eq, mapM_eq_ok_iff]
    constructor
    · intro h
      refine ((List.forall₂_and_left _ _).mpr ⟨hsolid, h⟩).imp ?_
      rintro t w ⟨ht, hw⟩
      exact ⟨(readToken_eq_ok_iff ht).mp hw, Word.isWord_toNat w⟩
    · intro h
      refine ((List.forall₂_and_left _ _).mpr ⟨hsolid, h⟩).imp ?_
      rintro t w ⟨ht, hw, -⟩
      exact (readToken_eq_ok_iff ht).mpr hw
  · rw [ofText_eq, exists_mapM_iff]
    exact forall₂_congr fun t ht => exists_readToken_iff (hsolid t ht)
  · intro e
    rw [ofText_eq, mapM_eq_error_iff]
    constructor
    · rintro ⟨front, ⟨token, line⟩, behind, hsplit, hfront, hfails⟩
      rw [hsplit, List.forall_mem_append, List.forall_mem_cons] at hsolid
      obtain ⟨hbefore, htoken, -⟩ := hsolid
      exact ⟨front, token, line, behind, hsplit,
        fun t ht => (exists_readToken_iff (hbefore t ht)).mp (hfront t ht),
        (readToken_eq_error_iff htoken).mp hfails⟩
    · rintro ⟨front, token, line, behind, hsplit, hfront, hoffends⟩
      rw [hsplit, List.forall_mem_append, List.forall_mem_cons] at hsolid
      obtain ⟨hbefore, htoken, -⟩ := hsolid
      exact ⟨front, (token, line), behind, hsplit,
        fun t ht => (exists_readToken_iff (hbefore t ht)).mpr (hfront t ht),
        (readToken_eq_error_iff htoken).mpr hoffends⟩

/-- The first word that is wrong is reported, although the one behind it is worse. -/
theorem ofText_reads_wide :
    let s : Text := ("0x_7f, -0 # zz\n+1,10000 zz" : String)
    let e : ImageError := .wideWord ("10000" : String) 2
    ofText s = .error e ∧ ∃ rows, HasRows s rows ∧
      ∃ front token line behind, numbered 1 rows = front ++ (token, line) :: behind ∧
        (∀ t ∈ front, ∃ n, Denotes t.1 n ∧ IsWord n) ∧ Offends token line e e.message := by
  intro s e
  have hwrong : ofText s = .error e := by decide
  obtain ⟨rows, hrows, -, -, -, hfirst⟩ := ofText_reads s
  exact ⟨hwrong, rows, hrows, (hfirst e).mp hwrong⟩

end Image

end WordMachine
