import Mathlib.Data.List.TakeWhile
import Mathlib.Data.Nat.Digits.Defs
import WordMachine.Proofs.Figures

/-!
Which texts denote numbers in hexadecimal. A sign may stand in front, then a mark of the base, which
may have an underscore behind it, and then digits in either case with single underscores between
them. Whatever else is written is read as no number, and these are read as the numbers that they
denote.
-/
namespace WordMachine.Numeral

/-- A digit and its value. -/
def IsDigit (c : Char) (d : ℕ) : Prop :=
  d < 16 ∧ (c = Nat.digitChar d ∨ c = (Nat.digitChar d).toUpper)

/-- Digits and their values. Between two of them there may be one underscore. -/
inductive Digits : List Char → List ℕ → Prop
  | last {c : Char} {d : ℕ} (h : IsDigit c d) : Digits [c] [d]
  | next {c : Char} {d : ℕ} {s : List Char} {ds : List ℕ} (h : IsDigit c d) (hs : Digits s ds) :
      Digits (c :: s) (d :: ds)
  | spaced {c : Char} {d : ℕ} {s : List Char} {ds : List ℕ} (h : IsDigit c d) (hs : Digits s ds) :
      Digits (c :: '_' :: s) (d :: ds)

def signs : List (List Char) :=
  [[], ['+'], ['-']]

def marks : List (List Char) :=
  [[], ['0', 'x'], ['0', 'X'], ['0', 'x', '_'], ['0', 'X', '_']]

def Hexadecimal (s : List Char) (n : Int) : Prop :=
  ∃ sign ∈ signs, ∃ mark ∈ marks, ∃ digits ds, s = sign ++ mark ++ digits ∧ Digits digits ds ∧
    n = (if sign = ['-'] then -1 else 1) * ((Nat.ofDigits 16 ds.reverse : ℕ) : Int)

theorem digit?_sixteen_iff {c : Char} {d : ℕ} : digit? 16 c = some d ↔ IsDigit c d := by
  constructor
  · intro h
    have hall : ∀ n < 0x7B, ∀ d ∈ digit? 16 (Char.ofNat n), d < 16 ∧
        (Char.ofNat n = Nat.digitChar d ∨ Char.ofNat n = (Nat.digitChar d).toUpper) := by
      decide +kernel
    have hbounds := bounds_of_digit? (Option.isSome_iff_exists.mpr ⟨d, h⟩)
    have hdigit := hall c.toNat (by omega)
    rw [Char.ofNat_toNat] at hdigit
    exact hdigit d h
  · have hall : ∀ d < 16, digit? 16 (Nat.digitChar d) = some d ∧
        digit? 16 (Nat.digitChar d).toUpper = some d := by
      decide
    rintro ⟨hd, rfl | rfl⟩
    · exact (hall d hd).1
    · exact (hall d hd).2

theorem IsDigit.ne {c x : Char} {d : ℕ} (h : IsDigit c d) (hx : digit? 16 x = none) : c ≠ x :=
  ne_of_digit? (Option.isSome_iff_exists.mpr ⟨d, digit?_sixteen_iff.mpr h⟩) hx

theorem value_eq_ofDigits (base : ℕ) (ds : List ℕ) :
    value base ds = Nat.ofDigits base ds.reverse := by
  unfold value
  rw [Nat.ofDigits_eq_foldr, List.foldr_reverse]
  congr 1
  funext n d
  simp [Nat.add_comm, Nat.mul_comm]

/-- A character that is a digit or separates digits. -/
def isFigure (c : Char) : Bool :=
  c = '_' || (digit? 16 c).isSome

namespace Digits

variable {s : List Char} {ds : List ℕ}

theorem isFigure_of_mem (h : Digits s ds) : ∀ c ∈ s, isFigure c = true := by
  have hdigit : ∀ {c : Char} {d : ℕ}, IsDigit c d → isFigure c = true := by
    intro c d hc
    unfold isFigure
    rw [digit?_sixteen_iff.mpr hc]
    simp
  induction h with
  | last hc => exact List.forall_mem_singleton.mpr (hdigit hc)
  | next hc _ ih => exact List.forall_mem_cons.mpr ⟨hdigit hc, ih⟩
  | spaced hc _ ih => exact List.forall_mem_cons.mpr ⟨hdigit hc, List.forall_mem_cons.mpr ⟨rfl, ih⟩⟩

theorem exists_head (h : Digits s ds) : ∃ c rest d, s = c :: rest ∧ IsDigit c d := by
  cases h with
  | last hc => exact ⟨_, _, _, rfl, hc⟩
  | next hc _ => exact ⟨_, _, _, rfl, hc⟩
  | spaced hc _ => exact ⟨_, _, _, rfl, hc⟩

theorem filterMap_eq (h : Digits s ds) : s.filterMap (digit? 16) = ds := by
  induction h with
  | last hc => rw [List.filterMap_cons_some (digit?_sixteen_iff.mpr hc), List.filterMap_nil]
  | next hc _ ih => rw [List.filterMap_cons_some (digit?_sixteen_iff.mpr hc), ih]
  | spaced hc _ ih =>
    rw [List.filterMap_cons_some (digit?_sixteen_iff.mpr hc), List.filterMap_cons_none rfl, ih]

end Digits

theorem Digits.wellSpaced {s : List Char} {ds : List ℕ} (h : Digits s ds) :
    Numeral.wellSpaced s = true := by
  have hother : ∀ {c : Char} {d : ℕ}, IsDigit c d → c ≠ '_' := fun hc => hc.ne rfl
  induction h with
  | last hc =>
    have hc' := hother hc
    unfold Numeral.wellSpaced
    split <;> simp_all
  | @next c d s ds hc hs ih =>
    obtain ⟨c', rest, d', rfl, hc'⟩ := hs.exists_head
    rw [Numeral.wellSpaced, ih]
    simp [hother hc]
  | @spaced c d s ds hc hs ih =>
    obtain ⟨c', rest, d', rfl, hc'⟩ := hs.exists_head
    rw [Numeral.wellSpaced, Numeral.wellSpaced, ih]
    simp [hother hc, hother hc']

/-- Where each underscore stands between two other characters, there are digits, behind the first
underscore if the characters begin with one. -/
theorem exists_digits {s : List Char} (hall : ∀ c ∈ s, isFigure c = true)
    (hspaced : wellSpaced s = true) :
    (s.head? ≠ some '_' → ∃ ds, Digits s ds) ∧ ∀ rest, s = '_' :: rest → ∃ ds, Digits rest ds := by
  have hdigit : ∀ {c : Char}, isFigure c = true → c ≠ '_' → ∃ d, IsDigit c d := by
    intro c hc hother
    unfold isFigure at hc
    rw [decide_eq_false hother, Bool.false_or] at hc
    obtain ⟨d, hd⟩ := Option.isSome_iff_exists.mp hc
    exact ⟨d, digit?_sixteen_iff.mp hd⟩
  fun_induction wellSpaced s with
  | case1 => cases hspaced
  | case2 => cases hspaced
  | case3 c hother =>
    have hc : c ≠ '_' := hother
    obtain ⟨d, hd⟩ := hdigit (hall c List.mem_cons_self) hc
    refine ⟨fun _ => ⟨[d], .last hd⟩, ?_⟩
    rintro rest ⟨⟩
    exact absurd rfl hc
  | case4 c c' rest ih =>
    obtain ⟨hc, hlater⟩ := List.forall_mem_cons.mp hall
    rw [Bool.and_eq_true] at hspaced
    obtain ⟨hunder, hbehind⟩ := ih hlater hspaced.2
    by_cases hfirst : c = '_'
    · subst hfirst
      have hsecond : c' ≠ '_' := by simpa using hspaced.1
      refine ⟨fun hne => absurd rfl hne, ?_⟩
      rintro _ ⟨⟩
      exact hunder (by simpa using hsecond)
    · obtain ⟨d, hd⟩ := hdigit hc hfirst
      refine ⟨fun _ => ?_, fun _ hsame => absurd (List.cons.inj hsame).1 hfirst⟩
      by_cases hsecond : c' = '_'
      · subst hsecond
        obtain ⟨ds, hds⟩ := hbehind rest rfl
        exact ⟨d :: ds, .spaced hd hds⟩
      · obtain ⟨ds, hds⟩ := hunder (by simpa using hsecond)
        exact ⟨d :: ds, .next hd hds⟩

theorem readDigits_hexadecimal_iff {s : List Char} {n : ℕ} :
    readDigits .hexadecimal 16 s = some (.ok n) ↔
      ∃ ds, Digits s ds ∧ n = Nat.ofDigits 16 ds.reverse := by
  have htake : (∀ c ∈ s, isFigure c = true) ↔
      (s.takeWhile fun c => c = '_' || (digit? 16 c).isSome) = s :=
    List.takeWhile_eq_self_iff.symm
  unfold readDigits
  dsimp only
  constructor
  · intro h
    split at h
    · cases h
    · next hbody =>
      rw [if_neg (fun hten => absurd hten.1 (by decide))] at h
      split at h
      · cases h
      · next hlength =>
        have hself : (s.takeWhile fun c => c = '_' || (digit? 16 c).isSome) = s :=
          (List.takeWhile_prefix _).eq_of_length_le (Nat.not_lt.mp hlength)
        rw [hself] at hbody h
        rw [if_neg (by simp)] at h
        rw [Bool.or_eq_true, not_or] at hbody
        obtain ⟨hdigits, -⟩ := exists_digits (htake.mpr hself) (by simpa using hbody.2)
        obtain ⟨ds, hds⟩ := hdigits (by simpa using hbody.1)
        refine ⟨ds, hds, ?_⟩
        rw [hds.filterMap_eq, value_eq_ofDigits] at h
        exact (Except.ok.inj (Option.some.inj h)).symm
  · rintro ⟨ds, hds, rfl⟩
    obtain ⟨c, rest, d, hs, hc⟩ := hds.exists_head
    have hhead : s.head? ≠ some '_' := by
      rw [hs, List.head?_cons]
      exact fun hunder => hc.ne rfl (Option.some.inj hunder)
    rw [htake.mp hds.isFigure_of_mem, hds.wellSpaced, hds.filterMap_eq, value_eq_ofDigits]
    simp [hhead]

/-- A mark of the base is taken away, and nothing of what is written without one. -/
theorem exists_mark (s : List Char) :
    (splitMark .hexadecimal s).1 = 16 ∧
      ∃ mark ∈ marks, s = mark ++ (splitMark .hexadecimal s).2 := by
  have hunder : ∀ rest : List Char,
      rest = dropUnderscore rest ∨ rest = '_' :: dropUnderscore rest := by
    intro rest
    unfold dropUnderscore
    split
    · exact .inr rfl
    · exact .inl rfl
  unfold splitMark
  split
  · contradiction
  · next x rest _ =>
    split
    · next hx =>
      refine ⟨rfl, ?_⟩
      rcases hx with rfl | rfl <;> rcases hunder rest with hrest | hrest
      · exact ⟨['0', 'x'], by decide, congrArg (['0', 'x'] ++ ·) hrest⟩
      · exact ⟨['0', 'x', '_'], by decide, congrArg (['0', 'x'] ++ ·) hrest⟩
      · exact ⟨['0', 'X'], by decide, congrArg (['0', 'X'] ++ ·) hrest⟩
      · exact ⟨['0', 'X', '_'], by decide, congrArg (['0', 'X'] ++ ·) hrest⟩
    · exact ⟨rfl, [], by decide, rfl⟩
  · exact ⟨rfl, [], by decide, rfl⟩
  · contradiction
  · contradiction

theorem splitMark_mark {mark digits : List Char} {ds : List ℕ} (hmark : mark ∈ marks)
    (hdigits : Digits digits ds) : splitMark .hexadecimal (mark ++ digits) = (16, digits) := by
  obtain ⟨c, rest, d, rfl, hc⟩ := hdigits.exists_head
  have hkept : dropUnderscore (c :: rest) = c :: rest := by
    unfold dropUnderscore
    split
    · next hsame => exact absurd (List.cons.inj hsame).1 (hc.ne rfl)
    · rfl
  simp only [marks, List.mem_cons, List.not_mem_nil, or_false] at hmark
  rcases hmark with rfl | rfl | rfl | rfl | rfl
  · -- no second character of digits marks a base
    rw [List.nil_append]
    unfold splitMark
    split
    · contradiction
    · next x later _ hsame =>
      obtain ⟨-, rfl⟩ := List.cons.inj hsame
      have hx := hdigits.isFigure_of_mem x (by simp)
      rw [if_neg]
      rintro (rfl | rfl)
      · exact absurd hx (by decide)
      · exact absurd hx (by decide)
    · rfl
    · contradiction
    · contradiction
  · exact congrArg (Prod.mk 16) hkept
  · exact congrArg (Prod.mk 16) hkept
  · rfl
  · rfl

theorem exists_sign (s : List Char) :
    ∃ sign ∈ signs, s = sign ++ dropSign s ∧ isMinus s = decide (sign = ['-']) := by
  unfold dropSign
  split
  · exact ⟨['+'], by decide, rfl, rfl⟩
  · exact ⟨['-'], by decide, rfl, rfl⟩
  · next hplus hminus =>
    refine ⟨[], by decide, rfl, ?_⟩
    cases s with
    | nil => rfl
    | cons c rest =>
      have hc : c ≠ '-' := by
        rintro rfl
        exact hminus rest rfl
      simp [isMinus, hc]

theorem dropSign_sign {sign s : List Char} (hsign : sign ∈ signs)
    (hs : ∀ c ∈ s.head?, c ≠ '+' ∧ c ≠ '-') :
    dropSign (sign ++ s) = s ∧ isMinus (sign ++ s) = decide (sign = ['-']) := by
  simp only [signs, List.mem_cons, List.not_mem_nil, or_false] at hsign
  rcases hsign with rfl | rfl | rfl
  · cases s with
    | nil => exact ⟨rfl, rfl⟩
    | cons c rest =>
      obtain ⟨hplus, hminus⟩ := hs c rfl
      simp [dropSign, isMinus, hplus, hminus]
  · exact ⟨rfl, rfl⟩
  · exact ⟨rfl, rfl⟩

/-- What denotes a number is a sign, a mark and digits, which are what is read. -/
theorem hexadecimal_iff {s : List Char} {n : Int} : Hexadecimal s n ↔
    ∃ m : ℕ, readDigits .hexadecimal 16 (splitMark .hexadecimal (dropSign s)).2 = some (.ok m) ∧
      n = if isMinus s then -(m : Int) else m := by
  constructor
  · rintro ⟨sign, hsign, mark, hmark, digits, ds, rfl, hdigits, rfl⟩
    have hhead : ∀ c ∈ (mark ++ digits).head?, c ≠ '+' ∧ c ≠ '-' := by
      intro c hc
      obtain ⟨first, rest, d, rfl, hfirst⟩ := hdigits.exists_head
      simp only [marks, List.mem_cons, List.not_mem_nil, or_false] at hmark
      rcases hmark with rfl | hmark
      · obtain rfl : first = c := Option.some.inj hc
        exact ⟨hfirst.ne rfl, hfirst.ne rfl⟩
      · have hzero : c = '0' := by
          rcases hmark with rfl | rfl | rfl | rfl <;> exact (Option.some.inj hc).symm
        rw [hzero]
        decide
    obtain ⟨hdrop, hminus⟩ := dropSign_sign hsign hhead
    refine ⟨Nat.ofDigits 16 ds.reverse, ?_, ?_⟩
    · rw [List.append_assoc, hdrop, splitMark_mark hmark hdigits]
      exact readDigits_hexadecimal_iff.mpr ⟨ds, hdigits, rfl⟩
    · rw [List.append_assoc, hminus]
      by_cases hnegative : sign = ['-'] <;> simp [hnegative]
  · rintro ⟨m, hread, rfl⟩
    obtain ⟨ds, hdigits, rfl⟩ := readDigits_hexadecimal_iff.mp hread
    obtain ⟨sign, hsign, hs, hminus⟩ := exists_sign s
    obtain ⟨-, mark, hmark, hrest⟩ := exists_mark (dropSign s)
    refine ⟨sign, hsign, mark, hmark, _, ds, ?_, hdigits, ?_⟩
    · rw [List.append_assoc, ← hrest]
      exact hs
    · rw [hminus]
      by_cases hnegative : sign = ['-'] <;> simp [hnegative]

theorem Hexadecimal.toNat_lt {s : List Char} {n : Int} (h : Hexadecimal s n) :
    ∀ c ∈ s, c.toNat < 128 := by
  have hsigns : ∀ sign ∈ signs, ∀ c ∈ sign, c.toNat < 128 := by simp [signs]
  have hmarks : ∀ mark ∈ marks, ∀ c ∈ mark, c.toNat < 128 := by simp [marks]
  obtain ⟨sign, hsign, mark, hmark, digits, ds, rfl, hdigits, -⟩ := h
  intro c hc
  rcases List.mem_append.mp hc with hc | hc
  · rcases List.mem_append.mp hc with hc | hc
    · exact hsigns sign hsign c hc
    · exact hmarks mark hmark c hc
  · have hfigure := hdigits.isFigure_of_mem c hc
    unfold isFigure at hfigure
    rw [Bool.or_eq_true, decide_eq_true_iff] at hfigure
    rcases hfigure with rfl | hdigit
    · decide
    · have hbounds := bounds_of_digit? hdigit
      omega

/-- Decimal digits of any script in ASCII. -/
def asciiDigit : CodePoint → CodePoint
  | .char c => .char ((Text.digitValue? c).elim c Nat.digitChar)
  | p => p

/-- A text and the number that it denotes, in the digits of whatever script. -/
def Denotes (t : Text) (n : Int) : Prop :=
  ∃ s, t.map asciiDigit = Text.ofChars s ∧ Hexadecimal s n

theorem digitValue?_lt {c : Char} {d : ℕ} (h : Text.digitValue? c = some d) : d < 10 := by
  obtain ⟨first, hfirst, rfl⟩ := Option.map_eq_some_iff.mp h
  have hrange := Array.find?_some hfirst
  simp only [Bool.and_eq_true, decide_eq_true_iff] at hrange
  omega

theorem digitValue?_ascii {c : Char} (h : c.toNat < 128) :
    (Text.digitValue? c).elim c Nat.digitChar = c := by
  have hall : ∀ n < 128,
      (Text.digitValue? (Char.ofNat n)).elim (Char.ofNat n) Nat.digitChar = Char.ofNat n := by
    simp only [Text.digitValue?, ← Array.find?_toList]
    decide +kernel
  have hchar := hall c.toNat h
  rwa [Char.ofNat_toNat] at hchar

theorem plainChar_eq {c : Char} (h : Text.isBlank c = false) :
    plainChar c = (Text.digitValue? c).elim c Nat.digitChar := by
  unfold plainChar
  split
  · next hascii => exact (digitValue?_ascii hascii).symm
  · rw [if_neg (by simp [h])]
    cases Text.digitValue? c <;> rfl

theorem isPadding_plainChar {c : Char} (h : Text.isBlank c = false) :
    isPadding (plainChar c) = false := by
  have hdigit : ∀ d < 10, isPadding (Nat.digitChar d) = false := by decide
  rw [plainChar_eq h]
  cases hvalue : Text.digitValue? c with
  | none =>
    rw [Option.elim_none, Bool.eq_false_iff]
    intro hpadding
    unfold isPadding at hpadding
    unfold Text.isBlank at h
    simp only [Bool.or_eq_true, Bool.and_eq_true, decide_eq_true_iff] at hpadding
    simp only [Bool.or_eq_false_iff, Bool.and_eq_false_iff, decide_eq_false_iff_not] at h
    rcases hpadding with rfl | hrange
    · exact absurd h.1.1 (by decide)
    · omega
  | some d => exact hdigit d (digitValue?_lt hvalue)

section

variable {t : Text} (ht : ∀ p ∈ t, Text.isBlank p.toChar = false)

include ht

theorem denotes_iff {n : Int} :
    Denotes t n ↔ Hexadecimal (t.map fun p => plainChar p.toChar) n := by
  have hplain : ∀ p ∈ t, (asciiDigit p).toChar = plainChar p.toChar := by
    intro p hp
    rw [plainChar_eq (ht p hp)]
    cases p with
    | char c => rfl
    | surrogate index =>
      -- no digit stands for a surrogate
      have hnone : Text.digitValue? (Char.ofNat 0xFFFD) = none := by
        simp only [Text.digitValue?, ← Array.find?_toList]
        decide +kernel
      change Char.ofNat 0xFFFD = (Text.digitValue? (Char.ofNat 0xFFFD)).elim _ _
      rw [hnone]
      rfl
  constructor
  · rintro ⟨s, hs, hhex⟩
    have hsame : t.map (fun p => plainChar p.toChar) = s := by
      have hchars := congrArg (List.map CodePoint.toChar) hs
      unfold Text.ofChars at hchars
      rw [List.map_map, List.map_map] at hchars
      rw [← List.map_congr_left hplain]
      exact hchars.trans (List.map_id s)
    rw [hsame]
    exact hhex
  · intro hhex
    refine ⟨_, ?_, hhex⟩
    unfold Text.ofChars
    rw [List.map_map]
    apply List.map_congr_left
    intro p hp
    have hascii := hhex.toNat_lt _ (List.mem_map_of_mem hp)
    cases p with
    | char c => exact congrArg CodePoint.char (hplain _ hp)
    | surrogate index =>
      have hbeyond : ¬ (Char.ofNat 0xFFFD).toNat < 128 := by decide
      rw [← hplain _ hp] at hascii
      exact absurd hascii hbeyond

theorem read_eq_ok_iff {n : Int} : read .hexadecimal t = .ok n ↔ Denotes t n := by
  have hsolid : ∀ s : List Char, (∀ c ∈ s, ∃ p ∈ t, plainChar p.toChar = c) →
      s.dropWhile isPadding = s := by
    intro s hs
    rw [List.dropWhile_eq_self_iff]
    intro hlength
    obtain ⟨p, hp, hchar⟩ := hs _ (List.getElem_mem hlength)
    rw [← hchar, isPadding_plainChar (ht p hp)]
    exact Bool.false_ne_true
  have hchars : (t.map fun p => plainChar p.toChar).dropWhile isPadding =
      t.map fun p => plainChar p.toChar :=
    hsolid _ fun c hc => by simpa using hc
  have hbackward : (t.map fun p => plainChar p.toChar).reverse.dropWhile isPadding =
      (t.map fun p => plainChar p.toChar).reverse :=
    hsolid _ fun c hc => by simpa using hc
  rw [denotes_iff ht, hexadecimal_iff]
  unfold read
  dsimp only
  rw [hchars, hbackward, List.reverse_reverse, (exists_mark _).1]
  constructor
  · intro h
    split at h
    · cases h
    · cases h
    · next m hread => exact ⟨m, hread, (Except.ok.inj h).symm⟩
  · rintro ⟨m, hread, rfl⟩
    rw [hread]

end

theorem digits_of_forall {s : List Char} (hne : s ≠ [])
    (h : ∀ c ∈ s, (digit? 16 c).isSome = true) : Digits s (s.filterMap (digit? 16)) := by
  induction s with
  | nil => exact absurd rfl hne
  | cons c s ih =>
    obtain ⟨hc, hs⟩ := List.forall_mem_cons.mp h
    obtain ⟨d, hd⟩ := Option.isSome_iff_exists.mp hc
    rw [List.filterMap_cons_some hd]
    by_cases hlast : s = []
    · subst hlast
      exact .last (digit?_sixteen_iff.mp hd)
    · exact .next (digit?_sixteen_iff.mp hd) (ih hlast hs)

theorem read_figures {s : List Char} {n : ℕ} (hne : s ≠ []) (h : figure? 16 s = some n) :
    read .hexadecimal (Text.ofChars s) = .ok n := by
  obtain ⟨hdigits, hvalue⟩ := foldlM_digit? h
  have hsolid : ∀ p ∈ Text.ofChars s, Text.isBlank p.toChar = false := by
    intro p hp
    obtain ⟨c, hc, rfl⟩ := List.mem_map.mp hp
    exact isBlank_of_digit? (hdigits c hc)
  have hplain : (Text.ofChars s).map (fun p => plainChar p.toChar) = s := by
    unfold Text.ofChars
    rw [List.map_map]
    refine (List.map_congr_left fun c hc => ?_).trans (List.map_id s)
    have hbounds := bounds_of_digit? (hdigits c hc)
    exact if_pos (show c.toNat < 128 by omega)
  have hnumber : Nat.ofDigits 16 (s.filterMap (digit? 16)).reverse = n := by
    rw [← value_eq_ofDigits]
    exact hvalue
  rw [read_eq_ok_iff hsolid, denotes_iff hsolid, hplain]
  refine ⟨[], by simp [signs], [], by simp [marks], s, _, rfl, digits_of_forall hne hdigits, ?_⟩
  simp [hnumber]

end WordMachine.Numeral
